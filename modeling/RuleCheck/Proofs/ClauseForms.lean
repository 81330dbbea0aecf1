import RuleCheck.Test.Wording
import RuleCheck.World

/-!
# Forms of clauses

A value gives clauses in one of four forms: a text, an array of a text, an array of a text and
undefined, and an array of a text and an array of final clauses. Each form says which clauses it
gives. Any other value is refused for one of four reasons, and among final clauses the first that is
none is the reason. Forms and reasons are written down here by themselves; the reader accepts exactly
the one and refuses exactly by the other.

A test that is made from a value is made from the clauses that the value gives, or refused for the
same reason. Either way nothing is called.
-/

namespace RuleCheck

variable {store : Store} {value : Value} {clauses : Clauses} {fault : ClauseFault}

namespace FinalClause

def toValue : FinalClause → Value
  | .text content => .text content
  | .computed function => .function function

end FinalClause

namespace Clauses

theorem shouldText_foldl_add (finals : List FinalClause) (clauses : Clauses) :
    (finals.foldl add clauses).shouldText = clauses.shouldText := by
  induction finals generalizing clauses with
  | nil => rfl
  | cons final finals ih => rw [List.foldl_cons, ih, shouldText_add]

theorem finals_foldl_add (finals : List FinalClause) (clauses : Clauses) :
    (finals.foldl add clauses).finals = clauses.finals ++ finals := by
  induction finals generalizing clauses with
  | nil => rw [List.foldl_nil, List.append_nil]
  | cons final finals ih =>
    rw [List.foldl_cons, ih, finals_add, List.append_assoc, List.singleton_append]

/-- Clauses are built up from their text by adding their final clauses. -/
theorem foldl_add_finals : (clauses : Clauses) →
    clauses.finals.foldl add (.should clauses.shouldText) = clauses
  | .should _ => rfl
  | .thenText clauses content => by
      rw [finals, shouldText, List.foldl_append, clauses.foldl_add_finals]
      rfl
  | .thenComputed clauses function => by
      rw [finals, shouldText, List.foldl_append, clauses.foldl_add_finals]
      rfl

/-- Clauses are known by their text and their final clauses. -/
theorem foldl_add_eq_iff {should : String} {finals : List FinalClause} :
    finals.foldl add (.should should) = clauses ↔
      clauses.shouldText = should ∧ clauses.finals = finals := by
  constructor
  · rintro rfl
    exact ⟨shouldText_foldl_add finals _, finals_foldl_add finals _⟩
  · rintro ⟨rfl, rfl⟩
    exact clauses.foldl_add_finals

theorem finalOfValue_toValue (final : FinalClause) : finalOfValue? final.toValue = some final := by
  cases final <;> rfl

theorem toValue_of_finalOfValue {final : FinalClause} (found : finalOfValue? value = some final) :
    value = final.toValue := by
  cases value with
  | text content =>
    obtain rfl := Option.some.inj found
    rfl
  | function function =>
    obtain rfl := Option.some.inj found
    rfl
  | _ => cases found

theorem finalOfValue_eq_none_iff :
    finalOfValue? value = none ↔ ∀ final : FinalClause, value ≠ final.toValue := by
  constructor
  · rintro hnone final rfl
    rw [finalOfValue_toValue] at hnone
    cases hnone
  · intro foreign
    cases hfound : finalOfValue? value with
    | none => rfl
    | some final => exact absurd (toValue_of_finalOfValue hfound) (foreign final)

/-- Values that all give final clauses are added in order. -/
theorem addValues_map (finals : List FinalClause) (clauses : Clauses) (position : Nat) :
    clauses.addValues position (finals.map FinalClause.toValue) = .ok (finals.foldl add clauses) := by
  induction finals generalizing clauses position with
  | nil => rfl
  | cons final finals ih =>
    rw [List.map_cons, addValues, finalOfValue_toValue]
    exact ih (clauses.add final) (position + 1)

/-- The first value that gives no final clause is refused, by its position. -/
theorem addValues_refused (before : List FinalClause) {refused : Value}
    (foreign : ∀ final : FinalClause, refused ≠ final.toValue) (rest : List Value)
    (clauses : Clauses) (position : Nat) :
    clauses.addValues position (before.map FinalClause.toValue ++ refused :: rest) =
      .error (.notAFinal (position + before.length) refused) := by
  induction before generalizing clauses position with
  | nil =>
    rw [List.map_nil, List.nil_append, addValues, finalOfValue_eq_none_iff.2 foreign]
    rfl
  | cons final before ih =>
    rw [List.map_cons, List.cons_append, addValues, finalOfValue_toValue, List.length_cons,
      Nat.add_comm before.length, ← Nat.add_assoc]
    exact ih (clauses.add final) (position + 1)

/-- Either all values give final clauses, or there is a first that gives none. -/
theorem finals_or_refused (values : List Value) :
    (∃ finals : List FinalClause, values = finals.map FinalClause.toValue) ∨
      ∃ (before : List FinalClause) (refused : Value) (rest : List Value),
        values = before.map FinalClause.toValue ++ refused :: rest ∧
          ∀ final : FinalClause, refused ≠ final.toValue := by
  induction values with
  | nil => exact .inl ⟨[], rfl⟩
  | cons value values ih =>
    cases hfound : finalOfValue? value with
    | none => exact .inr ⟨[], value, values, rfl, finalOfValue_eq_none_iff.1 hfound⟩
    | some final =>
      obtain rfl := toValue_of_finalOfValue hfound
      rcases ih with ⟨finals, rfl⟩ | ⟨before, refused, rest, rfl, foreign⟩
      · exact .inl ⟨final :: finals, rfl⟩
      · exact .inr ⟨final :: before, refused, rest, rfl, foreign⟩

/-- A value in one of the four forms, what should have been, and the final clauses. -/
inductive Form (store : Store) : Value → String → List FinalClause → Prop where
  | text (should : String) : Form store (.text should) should []
  | alone {ref : ListRef} {should : String} (items : store.items ref = [.text should]) :
      Form store (.array ref) should []
  | undefined {ref : ListRef} {should : String}
      (items : store.items ref = [.text should, .undefined]) : Form store (.array ref) should []
  | finals {ref inner : ListRef} {should : String} {finals : List FinalClause}
      (items : store.items ref = [.text should, .array inner])
      (each : store.items inner = finals.map FinalClause.toValue) :
      Form store (.array ref) should finals

/-- A value in none of the forms, and why. All final clauses before a refused one are in order. -/
inductive Refusal (store : Store) : Value → ClauseFault → Prop where
  | notTextOrArray {value : Value} (noText : ∀ content, value ≠ .text content)
      (noArray : ∀ ref, value ≠ .array ref) : Refusal store value (.notTextOrArray value)
  | wrongForm {ref : ListRef} (notOne : ∀ should, store.items ref ≠ [.text should])
      (notTwo : ∀ should finals, store.items ref ≠ [.text should, finals]) :
      Refusal store (.array ref) (.wrongForm (.array ref))
  | finalsNotArray {ref : ListRef} {should : String} {finals : Value}
      (items : store.items ref = [.text should, finals]) (defined : finals ≠ .undefined)
      (noArray : ∀ inner, finals ≠ .array inner) :
      Refusal store (.array ref) (.finalsNotArray finals)
  | notAFinal {ref inner : ListRef} {should : String} {before : List FinalClause} {refused : Value}
      {rest : List Value} (items : store.items ref = [.text should, .array inner])
      (each : store.items inner = before.map FinalClause.toValue ++ refused :: rest)
      (foreign : ∀ final : FinalClause, refused ≠ final.toValue) :
      Refusal store (.array ref) (.notAFinal before.length refused)

/-- A value in a form is read as what the form gives. -/
theorem ofValue_of_form {should : String} {finals : List FinalClause}
    (form : Form store value should finals) :
    ofValue store value = .ok (finals.foldl add (.should should)) := by
  cases form with
  | text => rfl
  | alone items | undefined items => simp only [ofValue, items, addFinals, List.foldl_nil]
  | finals items each =>
    simp only [ofValue, items, addFinals, each]
    exact addValues_map finals (.should should) 0

/-- A value in no form is refused for its reason. -/
theorem ofValue_of_refusal (refusal : Refusal store value fault) :
    ofValue store value = .error fault := by
  cases refusal with
  | notTextOrArray noText noArray =>
    cases value with
    | text content => exact absurd rfl (noText content)
    | array ref => exact absurd rfl (noArray ref)
    | _ => rfl
  | @wrongForm ref notOne notTwo =>
    rw [ofValue]
    split
    · next should items => exact absurd items (notOne should)
    · next should finals items => exact absurd items (notTwo should finals)
    · rfl
  | finalsNotArray items defined noArray =>
    simp only [ofValue, items]
    rw [addFinals]
    · exact defined
    · exact noArray
  | @notAFinal ref inner should before refused rest items each foreign =>
    simp only [ofValue, items, addFinals, each]
    rw [addValues_refused before foreign rest, Nat.zero_add]

/-- Every value is in a form or in none. -/
theorem form_or_refusal (store : Store) (value : Value) :
    (∃ should finals, Form store value should finals) ∨ ∃ fault, Refusal store value fault := by
  cases value with
  | text content => exact .inl ⟨content, [], .text content⟩
  | array ref =>
    by_cases one : ∃ should, store.items ref = [.text should]
    · obtain ⟨should, items⟩ := one
      exact .inl ⟨should, [], .alone items⟩
    by_cases two : ∃ should finals, store.items ref = [.text should, finals]
    · obtain ⟨should, finals, items⟩ := two
      cases finals with
      | undefined => exact .inl ⟨should, [], .undefined items⟩
      | array inner =>
        rcases finals_or_refused (store.items inner) with
          ⟨finals, each⟩ | ⟨before, refused, rest, each, foreign⟩
        · exact .inl ⟨should, finals, .finals items each⟩
        · exact .inr ⟨_, .notAFinal items each foreign⟩
      | _ => exact .inr ⟨_, .finalsNotArray items nofun nofun⟩
    · refine .inr ⟨_, .wrongForm ?_ ?_⟩
      · exact fun should items ↦ one ⟨should, items⟩
      · exact fun should finals items ↦ two ⟨should, finals, items⟩
  | _ => exact .inr ⟨_, .notTextOrArray nofun nofun⟩

theorem ofValue_eq_ok_iff :
    ofValue store value = .ok clauses ↔ Form store value clauses.shouldText clauses.finals := by
  constructor
  · intro hread
    rcases form_or_refusal store value with ⟨should, finals, form⟩ | ⟨fault, refusal⟩
    · have hbuilt := Except.ok.inj ((ofValue_of_form form).symm.trans hread)
      obtain ⟨rfl, rfl⟩ := foldl_add_eq_iff.1 hbuilt
      exact form
    · cases (ofValue_of_refusal refusal).symm.trans hread
  · intro form
    rw [ofValue_of_form form, foldl_add_finals]

theorem ofValue_eq_error_iff : ofValue store value = .error fault ↔ Refusal store value fault := by
  constructor
  · intro hread
    rcases form_or_refusal store value with ⟨should, finals, form⟩ | ⟨other, refusal⟩
    · cases (ofValue_of_form form).symm.trans hread
    · obtain rfl := Except.error.inj ((ofValue_of_refusal refusal).symm.trans hread)
      exact refusal
  · exact ofValue_of_refusal

structure ReadAs (store : Store) (value : Value) (result : Except ClauseFault Clauses) : Prop where
  accepted_iff : ∀ clauses,
    result = .ok clauses ↔ Form store value clauses.shouldText clauses.finals
  refused_iff : ∀ fault, result = .error fault ↔ Refusal store value fault
  named : ∀ (ref inner : ListRef) (should : String) (before : List FinalClause) (refused : Value)
      (rest : List Value), value = .array ref →
    store.items ref = [.text should, .array inner] →
    store.items inner = before.map FinalClause.toValue ++ refused :: rest →
    (∀ final : FinalClause, refused ≠ final.toValue) →
    ∃ fault, result = .error fault ∧ fault.diagnostic.fragments =
      [.text "final clause", .ofNat before.length,
        .text "passed to make_test should be a string or a function but instead is", refused]

theorem readAs_ofValue (store : Store) (value : Value) :
    ReadAs store value (ofValue store value) where
  accepted_iff _ := ofValue_eq_ok_iff
  refused_iff _ := ofValue_eq_error_iff
  named ref inner should before refused rest := by
    rintro rfl items each foreign
    exact ⟨_, ofValue_of_refusal (.notAFinal items each foreign), rfl⟩

end Clauses

/-! ## Making tests -/

namespace Function

theorem makeOfValue_apply (predicate : Predicate) (value : Value) (store : Store) :
    makeOfValue predicate value store =
      match Clauses.ofValue store value with
      | .ok clauses => (.ok (.made (some store.testsMade) "test" predicate clauses),
          { store with testsMade := store.testsMade + 1 })
      | .error fault => (.error fault, store) := by
  change (match Clauses.ofValue store value with
    | .ok clauses => (Except.ok <$> make "test" predicate clauses : StateM Store _)
    | .error fault => return .error fault) store = _
  cases Clauses.ofValue store value <;> rfl

variable {σ : Type}

/-- What comes of making a test from a value. If the value gives no clauses nothing happens at all,
and if it gives some still nothing is called. -/
structure MadeFrom (predicate : Predicate) (value : Value) (world : World σ)
    (result : Except ClauseFault Function × World σ) : Prop where
  refused_iff : ∀ fault,
    result.1 = .error fault ↔ Clauses.ofValue world.store value = .error fault
  idle : ∀ fault, result.1 = .error fault → result.2 = world
  made : ∀ clauses, Clauses.ofValue world.store value = .ok clauses →
    ∃ serial, result.1 = .ok (.made (some serial) "test" predicate clauses)
  silent : result.2.journal = world.journal ∧ result.2.host = world.host

theorem madeFrom_makeOfValue (predicate : Predicate) (value : Value) (world : World σ) :
    MadeFrom predicate value world (Run.onStore (makeOfValue predicate value) world) := by
  have happly := makeOfValue_apply predicate value world.store
  cases hread : Clauses.ofValue world.store value with
  | ok clauses =>
    rw [hread] at happly
    simp only [Run.onStore, happly]
    refine ⟨fun fault ↦ ?_, nofun, fun clauses' given ↦ ?_, rfl, rfl⟩
    · rw [hread]
      exact iff_of_false nofun nofun
    · obtain rfl := Except.ok.inj (hread.symm.trans given)
      exact ⟨_, rfl⟩
  | error fault =>
    rw [hread] at happly
    simp only [Run.onStore, happly]
    refine ⟨fun fault' ↦ ?_, fun _ _ ↦ rfl, fun clauses given ↦ ?_, rfl, rfl⟩
    · rw [hread, Except.error.injEq, Except.error.injEq]
    · cases hread.symm.trans given

end Function

/-- A value is read as clauses exactly if it is in one of the four forms, and refused exactly for one
of the reasons; a test made from it is made from these clauses or refused for this reason, and
nothing is called. -/
theorem clauses_forms {σ : Type} (predicate : Predicate) (value : Value) (world : World σ) :
    Clauses.ReadAs world.store value (Clauses.ofValue world.store value) ∧
      Function.MadeFrom predicate value world
        (Run.onStore (Function.makeOfValue predicate value) world) :=
  ⟨Clauses.readAs_ofValue world.store value, Function.madeFrom_makeOfValue predicate value world⟩

/-- An argument list is no array, neither as the whole nor in the place of the final clauses. -/
example :
    let store : Store :=
      ⟨#[[.text "should", .arguments ⟨1⟩], [.text "and", .null, .undefined],
        [.text "should", .array ⟨1⟩]], #[], 0⟩
    Clauses.ofValue store (.arguments ⟨2⟩) = .error (.notTextOrArray (.arguments ⟨2⟩)) ∧
      Clauses.ofValue store (.array ⟨0⟩) = .error (.finalsNotArray (.arguments ⟨1⟩)) ∧
      Clauses.ofValue store (.array ⟨2⟩) = .error (.notAFinal 1 .null) :=
  ⟨rfl, rfl, rfl⟩

end RuleCheck
