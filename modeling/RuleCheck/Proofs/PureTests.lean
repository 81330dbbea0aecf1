import RuleCheck.Proofs.Growth

/-!
# Tests that change nothing

A predicate is pure if it changes no cell that it finds and, of values that a closed store holds,
says the same in every store that this one grows into. The library's own predicates are pure. A test
made from a pure predicate passes exactly where the predicate answers `true`, provided that the
clauses of its diagnostics change nothing either: these are computed at every failure, before the
next value is tested.
-/

namespace RuleCheck

variable {σ : Type}

/-- The predicate changes nothing and depends on nothing but the two values, wherever a closed store
that holds them grew. -/
structure Predicate.IsPure (host : Host σ) (predicate : Predicate) : Prop where
  grows : ∀ subject target, (predicate.answer host subject target).Grows
  steady : ∀ (base : Store) (subject target : Value), base.Closed → base.Holds subject →
    base.Holds target → ∀ world world' : World σ, base ≤ world.store → base ≤ world'.store →
      ((predicate.answer host subject target world).1 = .bool true ↔
        (predicate.answer host subject target world').1 = .bool true)

namespace Predicate

theorem askRange_object (subject : Value) (ref : RecordRef) (store : Store) :
    askRange subject (.object ref) store =
      (match (store.fields ref).unknownBound? with
        | some key => do
            let keys ← Value.newArray (Bound.keys.map .text)
            Value.newArray [.text "range test received an invalid key", .text key,
              .text "; valid keys are", keys]
        | none => return .bool ((store.fields ref).boundsHold subject) : StateM Store Value)
        store :=
  rfl

/-- A range that is an object with known keys is decided, and any other is complained about in a new
array. -/
theorem askRange_cases (subject target : Value) (store : Store) :
    (∃ ref, target = .object ref ∧ (store.fields ref).unknownBound? = none ∧
      askRange subject target store = (.bool ((store.fields ref).boundsHold subject), store)) ∨
    ((∀ ref, target = .object ref → (store.fields ref).unknownBound? ≠ none) ∧
      store ≤ (askRange subject target store).2 ∧
      ∃ complaint, (askRange subject target store).1 = .array complaint) := by
  have hkeys := Store.le_newArray (Bound.keys.map .text) store
  cases target with
  | object ref =>
    rw [askRange_object]
    cases hunknown : (store.fields ref).unknownBound? with
    | none => exact .inl ⟨ref, rfl, hunknown, rfl⟩
    | some key =>
      refine .inr ⟨fun _ same ↦ ?_, le_trans hkeys (Store.le_newArray _ _), _, rfl⟩
      obtain rfl := Value.object.inj same
      simp [hunknown]
  | _ =>
    refine .inr ⟨fun _ same ↦ ?_, le_trans hkeys (Store.le_newArray _ _), _, rfl⟩
    cases same

theorem le_askRange (subject target : Value) (store : Store) :
    store ≤ (askRange subject target store).2 := by
  rcases askRange_cases subject target store with ⟨ref, -, -, hanswer⟩ | ⟨-, hle, -⟩
  · rw [hanswer]
  · exact hle

/-- What a range says of a value depends only on the bounds. -/
theorem askRange_eq_true_iff {subject target : Value} {store : Store} :
    (askRange subject target store).1 = .bool true ↔ ∃ ref, target = .object ref ∧
      (store.fields ref).unknownBound? = none ∧ (store.fields ref).boundsHold subject = true := by
  rcases askRange_cases subject target store with
    ⟨ref, rfl, hknown, hanswer⟩ | ⟨hunknown, -, complaint, hanswer⟩
  · rw [hanswer]
    constructor
    · exact fun same ↦ ⟨ref, rfl, hknown, Value.bool.inj same⟩
    · rintro ⟨ref', same, -, hbounds⟩
      obtain rfl := Value.object.inj same
      rw [hbounds]
  · rw [hanswer]
    refine iff_of_false (by simp) ?_
    rintro ⟨ref, rfl, hknown, -⟩
    exact hunknown ref rfl hknown

theorem le_askPattern (subject target : Value) (store : Store) :
    store ≤ (askPattern subject target store).2 := by
  unfold askPattern
  split
  · exact le_refl store
  · exact Store.le_newArray _ _
  · exact Store.le_newArray _ _

/-- What a pattern says of a value does not depend on the store. -/
theorem askPattern_eq_true_iff (subject target : Value) (store other : Store) :
    (askPattern subject target store).1 = .bool true ↔
      (askPattern subject target other).1 = .bool true := by
  unfold askPattern
  split
  · exact Iff.rfl
  · exact iff_of_false (fun same ↦ by cases same) fun same ↦ by cases same
  · exact iff_of_false (fun same ↦ by cases same) fun same ↦ by cases same

/-- The library's own predicates change nothing and depend only on the two values. -/
theorem isPure_of_ne_host (host : Host σ) {predicate : Predicate}
    (own : ∀ code, predicate ≠ .host code) : predicate.IsPure host where
  grows subject target := by
    cases predicate with
    | kind => exact .pure _
    | equal | notEqual => exact .bind .store fun _ ↦ .pure _
    | range => exact .onStore (le_askRange subject target)
    | pattern => exact .onStore (le_askPattern subject target)
    | host code => exact absurd rfl (own code)
  steady base subject target closed hsubject htarget world world' hle hle' := by
    have hequal := closed.equal_congr hle hle' hsubject htarget
    cases predicate with
    | kind => exact Iff.rfl
    | equal =>
      change Value.bool (world.store.equal subject target) = _ ↔
        Value.bool (world'.store.equal subject target) = _
      rw [hequal]
    | notEqual =>
      change Value.bool (!world.store.equal subject target) = _ ↔
        Value.bool (!world'.store.equal subject target) = _
      rw [hequal]
    | range =>
      change (askRange subject target world.store).1 = _ ↔
        (askRange subject target world'.store).1 = _
      rw [askRange_eq_true_iff, askRange_eq_true_iff]
      refine exists_congr fun ref ↦ and_congr_right fun hobject ↦ ?_
      have hheld : ref.index < base.records.size := by
        rw [hobject] at htarget
        exact htarget
      rw [Store.fields_of_le hle hheld, Store.fields_of_le hle' hheld]
    | pattern => exact askPattern_eq_true_iff subject target world.store world'.store
    | host code => exact absurd rfl (own code)

end Predicate

def Clauses.AreQuiet (host : Host σ) (clauses : Clauses) : Prop :=
  ∀ function, FinalClause.computed function ∈ clauses.finals →
    ∀ arguments, (function.answer host arguments).Grows

theorem Clauses.finalFragments_grows {host : Host σ} : (clauses : Clauses) →
    clauses.AreQuiet host → ∀ subject target, (clauses.finalFragments host subject target).Grows
  | .should text, _, subject, target => by
      rw [finalFragments]
      exact .pure _
  | .thenText clauses text, quiet, subject, target => by
      have hquiet : clauses.AreQuiet host := fun function mem ↦
        quiet function (List.mem_append_left _ mem)
      rw [finalFragments]
      exact .bind (finalFragments_grows clauses hquiet subject target) fun _ ↦ .pure _
  | .thenComputed clauses function, quiet, subject, target => by
      have hquiet : clauses.AreQuiet host := fun function mem ↦
        quiet function (List.mem_append_left _ mem)
      have hfunction := quiet function (List.mem_append_right _ (List.mem_singleton.2 rfl))
      rw [finalFragments]
      exact .bind (finalFragments_grows clauses hquiet subject target) fun _ ↦
        .bind (.record _) fun _ ↦ .bind (hfunction _) fun _ ↦ .pure _

theorem Clauses.areQuiet_should (host : Host σ) (text : String) :
    (Clauses.should text).AreQuiet host :=
  fun _ mem ↦ absurd mem List.not_mem_nil

/-- From a store on, a computation changes nothing that this store holds, and passes exactly under
the given condition. -/
def Run.Decides (base : Store) (run : Run σ TestOutcome) (condition : Prop) : Prop :=
  ∀ world, base ≤ world.store →
    base ≤ (run world).2.store ∧ ((run world).1 = .ok () ↔ condition)

namespace Function

/-- The test is made from a pure predicate, or one of the library's own, and from clauses that
change nothing. -/
def IsPureTest (host : Host σ) : Function → Prop
  | .made _ _ predicate clauses =>
      (∀ code, predicate = .host code → predicate.IsPure host) ∧ clauses.AreQuiet host
  | _ => False

def Meets (host : Host σ) (base : Store) (test : Function) (subject target : Value) : Prop :=
  match test with
  | .made _ _ predicate _ => ∃ world : World σ, base ≤ world.store ∧
      (predicate.answer host subject target world).1 = .bool true
  | _ => False

/-- The test of a rule without one is pure. -/
theorem isPureTest_kindTest (host : Host σ) : kindTest.IsPureTest host := by
  refine ⟨fun code same ↦ (by cases same), fun function mem arguments ↦ ?_⟩
  have hfunction : function = .kindName := by simpa [Clauses.finals] using mem
  rw [hfunction, answer]
  exact .pure _

def library : List Function :=
  [kindTest, equalTest, notEqualTest, rangeTest, patternTest]

/-- All tests of the library are pure. -/
theorem isPureTest_of_mem (host : Host σ) {test : Function} (own : test ∈ library) :
    test.IsPureTest host := by
  simp only [library, List.mem_cons, List.not_mem_nil, or_false] at own
  rcases own with rfl | rfl | rfl | rfl | rfl
  · exact isPureTest_kindTest host
  all_goals exact ⟨fun code same ↦ (by cases same), Clauses.areQuiet_should host _⟩

/-- A made test answers `true` if its predicate does, and a new array otherwise. -/
theorem answer_made (host : Host σ) (serial : Option Nat) (name : String) (predicate : Predicate)
    {clauses : Clauses} (quiet : clauses.AreQuiet host) (arguments : List Value)
    (world : World σ) :
    let call := TestCall.ofArguments world.store arguments
    let asked := predicate.ask host call.subject call.target world
    let answered := (made serial name predicate clauses).answer host arguments world
    asked.2.store ≤ answered.2.store ∧
      ((asked.1 = .bool true ∧ answered.1 = .bool true) ∨
        (asked.1 ≠ .bool true ∧ ∃ reasons, answered.1 = .array reasons)) := by
  rw [answer, Run.bind_apply, Run.store_apply]
  dsimp only
  rw [Run.bind_apply]
  generalize TestCall.ofArguments world.store arguments = call
  generalize predicate.ask host call.subject call.target world = asked
  obtain ⟨said, after⟩ := asked
  dsimp only
  split
  · exact ⟨le_refl _, .inl ⟨rfl, rfl⟩⟩
  · exact ⟨Store.le_newArray _ _, .inr ⟨by simp, _, rfl⟩⟩
  · next hother _ =>
    have hfinals := clauses.finalFragments_grows quiet call.subject call.target after
    exact ⟨le_trans hfinals (Store.le_newArray _ _), .inr ⟨hother, _, rfl⟩⟩

/-- A pure test changes nothing that a closed store holds, and passes exactly where its predicate
accepts. -/
theorem runTest_decides {host : Host σ} {test : Function} (pure : test.IsPureTest host)
    {base : Store} (closed : base.Closed) (call : TestCall) (subject_held : base.Holds call.subject)
    (target_held : base.Holds call.target) :
    Run.Decides base (test.runTest host call) (test.Meets host base call.subject call.target) := by
  cases test with
  | host | typed | kindName => exact pure.elim
  | made serial name predicate clauses =>
    obtain ⟨hpredicate, hquiet⟩ := pure
    have hpure : predicate.IsPure host := by
      by_cases hhost : ∃ code, predicate = .host code
      · obtain ⟨code, hcode⟩ := hhost
        exact hpredicate code hcode
      · exact Predicate.isPure_of_ne_host host (not_exists.1 hhost)
    intro world hworld
    let test := made serial name predicate clauses
    -- The names are put into a new array, and the call is recorded, before the predicate is asked.
    let arguments := (Run.onStore call.toArguments world).1
    let called := (Run.record (.called test arguments) (Run.onStore call.toArguments world).2).2
    let judged := (Run.record (.judged predicate call.subject call.target) called).2
    let asked := predicate.answer host call.subject call.target judged
    let answered := test.answer host arguments called
    have hrun : test.runTest host call world =
        (call.outcome answered.2.store answered.1, answered.2) := rfl
    have hjudged : base ≤ judged.store := le_trans hworld (Store.le_newArray _ _)
    obtain ⟨hanswered, hcases⟩ : asked.2.store ≤ answered.2.store ∧
        ((asked.1 = .bool true ∧ answered.1 = .bool true) ∨
          (asked.1 ≠ .bool true ∧ ∃ reasons, answered.1 = .array reasons)) :=
      answer_made host serial name predicate hquiet arguments called
    have hgrows : judged.store ≤ asked.2.store :=
      hpure.grows call.subject call.target judged
    rw [hrun]
    refine ⟨le_trans hjudged (le_trans hgrows hanswered), ?_⟩
    rcases hcases with ⟨haccepts, hanswer⟩ | ⟨hrejects, reasons, hanswer⟩
    · rw [hanswer]
      exact iff_of_true rfl ⟨judged, hjudged, haccepts⟩
    · rw [hanswer]
      refine iff_of_false (fun same ↦ by cases same) ?_
      rintro ⟨other, hother, haccepts⟩
      exact hrejects ((hpure.steady base _ _ closed subject_held target_held _ _ hother
        hjudged).1 haccepts)

end Function

namespace SimpleRule

variable {base : Store} {run : Value → Run σ TestOutcome} {condition : Value → Prop}

theorem firstFailing_decides (values : List Value)
    (decides : ∀ value ∈ values, (run value).Decides base (condition value)) :
    (firstFailing run values).Decides base (∀ value ∈ values, condition value) := by
  induction values with
  | nil => exact fun world hworld ↦ ⟨hworld, by simp [firstFailing, Run.pure_apply]⟩
  | cons value rest ih =>
    intro world hworld
    obtain ⟨hafter, hok⟩ := decides value List.mem_cons_self world hworld
    rw [firstFailing, Run.bind_apply]
    generalize run value world = result at hafter hok
    obtain ⟨outcome, after⟩ := result
    cases outcome with
    | ok =>
      obtain ⟨hrest, hall⟩ := ih (fun other mem ↦ decides other (List.mem_cons_of_mem _ mem))
        after hafter
      refine ⟨hrest, hall.trans ?_⟩
      simp [hok.1 rfl]
    | error diagnostic =>
      refine ⟨hafter, ?_⟩
      have hfails : ¬ condition value := fun holds ↦ by cases hok.2 holds
      simp [hfails, Run.pure_apply]

theorem firstPassing_decides (candidates : List Value) (last : Diagnostic)
    (decides : ∀ candidate ∈ candidates, (run candidate).Decides base (condition candidate)) :
    (firstPassing run last candidates).Decides base
      (∃ candidate ∈ candidates, condition candidate) := by
  induction candidates generalizing last with
  | nil => exact fun world hworld ↦ ⟨hworld, by simp [firstPassing, Run.pure_apply]⟩
  | cons candidate rest ih =>
    intro world hworld
    obtain ⟨hafter, hok⟩ := decides candidate List.mem_cons_self world hworld
    rw [firstPassing, Run.bind_apply]
    generalize run candidate world = result at hafter hok
    obtain ⟨outcome, after⟩ := result
    cases outcome with
    | ok =>
      refine ⟨hafter, ?_⟩
      simp [hok.1 rfl, Run.pure_apply]
    | error diagnostic =>
      obtain ⟨hrest, hsome⟩ := ih diagnostic
        (fun other mem ↦ decides other (List.mem_cons_of_mem _ mem)) after hafter
      refine ⟨hrest, hsome.trans ?_⟩
      have hfails : ¬ condition candidate := fun holds ↦ by cases hok.2 holds
      simp [hfails]

end SimpleRule

end RuleCheck
