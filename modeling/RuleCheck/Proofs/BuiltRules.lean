import RuleCheck.Proofs.OperatorAlgebra
import RuleCheck.Rule.Builder

/-!
# What built rules mean

A rule that is built from names and two values is evaluated as what it was built for, whatever the
values are: the check does not refuse it, and it passes exactly if the values stand in the relation
that its builder is named for. The values are read as they are when the rule is built.
-/

namespace RuleCheck

variable {σ : Type}

def Value.IsWithin (value : Value) (key : String) (limit : Value) : Prop :=
  ∃ ordering, value.compare? limit = some ordering ∧
    (key = "min" ∧ ordering ≠ .lt ∨ key = "max" ∧ ordering ≠ .gt ∨
      key = "less" ∧ ordering = .lt ∨ key = "more" ∧ ordering = .gt)

inductive Rule.Built (names value target : Value) : StateM Store Value → Prop
  | isKind (kind : Kind) : Built names value target (Rule.isKind names value kind)
  | isOneOf : Built names value target (Rule.isOneOf names value target)
  | isEach : Built names value target (Rule.isEach names value target)
  | isEachOf : Built names value target (Rule.isEachOf names value target)
  | equals : Built names value target (Rule.equals names value target)
  | notEquals : Built names value target (Rule.notEquals names value target)
  | isInRange : Built names value target (Rule.isInRange names value target)
  | isMatch : Built names value target (Rule.isMatch names value target)

/-- What the rules of the builders mean when they are built and checked in one world. None is
refused: not for its depth, not for its form, and not because it cannot be decoded. -/
structure BuiltRules (host : Host σ) (engine : Engine) (label : Option String) (world : World σ)
    (names value target : Value) : Prop where
  not_refused : ∀ rule, Rule.Built names value target rule →
    let built := (Run.onStore rule : Run σ Value) world
    ∃ visit outcome final,
      Walk host engine.options label [⟨0, built.1⟩] built.2 [visit] outcome final ∧
      engine.check host label built.1 built.2 = (outcome, Engine.close label outcome final) ∧
      visit.finding.isRefused = false
  isKind_iff : ∀ kind,
    engine.Accepts host label world (Rule.isKind names value kind) ↔ value.kind = kind
  isOneOf_iff : engine.Accepts host label world (Rule.isOneOf names value target) ↔
    .text value.kind.name ∈ world.store.members target
  isEach_iff : engine.Accepts host label world (Rule.isEach names value target) ↔
    world.store.members value = [] ∨
      ∃ name, target = .text name ∧ ∀ item ∈ world.store.members value, item.kind.name = name
  isEachOf_iff : engine.Accepts host label world (Rule.isEachOf names value target) ↔
    ∀ item ∈ world.store.members value, .text item.kind.name ∈ world.store.members target
  equals_iff : engine.Accepts host label world (Rule.equals names value target) ↔
    world.store.equal value target = true
  notEquals_iff : engine.Accepts host label world (Rule.notEquals names value target) ↔
    world.store.equal value target = false
  isInRange_iff : engine.Accepts host label world (Rule.isInRange names value target) ↔
    ∃ ref, target = .object ref ∧
      ∀ entry ∈ (world.store.fields ref).entries, value.IsWithin entry.1 entry.2
  isMatch_iff : engine.Accepts host label world (Rule.isMatch names value target) ↔
    ∃ content pattern, value = .text content ∧ target = .regex pattern ∧
      pattern.isMatch content = true

theorem Bound.holds_ofKey_iff (key : String) (value limit : Value) :
    (∃ bound, ofKey? key = some bound ∧ bound.holds value limit = true) ↔
      value.IsWithin key limit := by
  have hholds (bound : Bound) : bound.holds value limit = true ↔
      ∃ ordering, value.compare? limit = some ordering ∧ bound.admits ordering = true := by
    rw [holds, Option.any_eq_true]
  unfold ofKey? Value.IsWithin
  simp only [hholds]
  split <;> simp_all [admits]

namespace Fields

theorem boundsHold_iff (fields : Fields Value) (value : Value) :
    fields.boundsHold value = true ↔
      ∀ entry ∈ fields.entries, value.IsWithin entry.1 entry.2 := by
  rw [boundsHold, List.all_eq_true]
  refine forall₂_congr fun entry _ ↦ ?_
  rw [← Bound.holds_ofKey_iff]
  cases Bound.ofKey? entry.1 <;> simp

/-- Where all bounds hold, all keys are bounds. -/
theorem unknownBound_eq_none {fields : Fields Value} {value : Value}
    (within : fields.boundsHold value = true) : fields.unknownBound? = none := by
  rw [unknownBound?, List.find?_eq_none]
  intro key mem
  obtain ⟨entry, hentry, rfl⟩ := List.mem_map.1 mem
  obtain ⟨_, -, hkey⟩ := (fields.boundsHold_iff value).1 within entry hentry
  have hmem : entry.1 ∈ Bound.keys := by
    rcases hkey with ⟨hkey, -⟩ | ⟨hkey, -⟩ | ⟨hkey, -⟩ | ⟨hkey, -⟩ <;> rw [hkey] <;> decide
  simpa using hmem

end Fields

/-- A range contains a value if it is an object and the value is within all bounds. -/
theorem Predicate.askRange_iff_isWithin {subject target : Value} {store : Store} :
    (askRange subject target store).1 = .bool true ↔ ∃ ref, target = .object ref ∧
      ∀ entry ∈ (store.fields ref).entries, subject.IsWithin entry.1 entry.2 := by
  refine askRange_eq_true_iff.trans (exists_congr fun ref ↦ and_congr_right fun _ ↦ ?_)
  rw [and_iff_right_of_imp Fields.unknownBound_eq_none, Fields.boundsHold_iff]

namespace Function

variable (host : Host σ) {world : World σ} {subject target : Value}
  (closed : world.store.Closed) (subject_held : world.store.Holds subject)
  (target_held : world.store.Holds target)

include closed subject_held target_held

/-- A test with one of the library's own predicates accepts two values exactly if the predicate
answers `true` in the world at hand. -/
theorem meets_made_iff (serial : Option Nat) (name : String) {predicate : Predicate}
    (own : ∀ code, predicate ≠ .host code) (clauses : Clauses) :
    (made serial name predicate clauses).Meets host world.store subject target ↔
      (predicate.answer host subject target world).1 = .bool true := by
  have hpure := Predicate.isPure_of_ne_host host own
  constructor
  · rintro ⟨other, hother, haccepts⟩
    have hsteady := hpure.steady world.store subject target closed subject_held target_held
    exact (hsteady other world hother (le_refl _)).1 haccepts
  · exact fun haccepts ↦ ⟨world, le_refl _, haccepts⟩

theorem meets_kindTest_iff :
    kindTest.Meets host world.store subject target ↔ target = .text subject.kind.name := by
  refine (meets_made_iff host closed subject_held target_held none "type" (by simp) _).trans ?_
  change Value.bool (target.text? == some subject.kind.name) = .bool true ↔ _
  cases target <;> simp [Value.text?]

theorem meets_equalTest_iff : equalTest.Meets host world.store subject target ↔
    world.store.equal subject target = true := by
  refine (meets_made_iff host closed subject_held target_held none "equal" (by simp) _).trans ?_
  change Value.bool (world.store.equal subject target) = .bool true ↔ _
  exact Value.bool.injEq _ _ ▸ Iff.rfl

theorem meets_notEqualTest_iff : notEqualTest.Meets host world.store subject target ↔
    world.store.equal subject target = false := by
  refine (meets_made_iff host closed subject_held target_held none "notEqual" (by simp) _).trans ?_
  change Value.bool (!world.store.equal subject target) = .bool true ↔ _
  simp

theorem meets_rangeTest_iff : rangeTest.Meets host world.store subject target ↔
    ∃ ref, target = .object ref ∧
      ∀ entry ∈ (world.store.fields ref).entries, subject.IsWithin entry.1 entry.2 := by
  refine (meets_made_iff host closed subject_held target_held none "range" (by simp) _).trans ?_
  exact Predicate.askRange_iff_isWithin

theorem meets_patternTest_iff : patternTest.Meets host world.store subject target ↔
    ∃ content pattern, subject = .text content ∧ target = .regex pattern ∧
      pattern.isMatch content = true := by
  refine (meets_made_iff host closed subject_held target_held none "match" (by simp) _).trans ?_
  change (Predicate.askPattern subject target world.store).1 = .bool true ↔ _
  cases subject with
  | text content =>
    cases target with
    | regex pattern =>
      change Value.bool (pattern.isMatch content) = .bool true ↔ _
      simp
    | _ => exact iff_of_false (fun same ↦ by cases same) (by simp)
  | _ => exact iff_of_false (fun same ↦ by cases same) (by simp)

end Function

/-- All builders write out a simple rule on the same names and value. -/
theorem Rule.Built.exists_simple {names value target : Value} {rule : StateM Store Value}
    (built : Rule.Built names value target rule) :
    ∃ other operator test, rule = Rule.simple names value other operator test := by
  cases built with
  | isKind kind => exact ⟨.ofKind kind, none, none, rfl⟩
  | isOneOf => exact ⟨target, some .oneOf, none, rfl⟩
  | isEach => exact ⟨target, some .each, none, rfl⟩
  | isEachOf => exact ⟨target, some .eachOf, none, rfl⟩
  | equals => exact ⟨target, none, some .equalTest, rfl⟩
  | notEquals => exact ⟨target, none, some .notEqualTest, rfl⟩
  | isInRange => exact ⟨target, none, some .rangeTest, rfl⟩
  | isMatch => exact ⟨target, none, some .patternTest, rfl⟩

/-- A simple rule that is written out is decoded as such by whatever engine, and opens nothing. -/
theorem Engine.exists_visit_simple (host : Host σ) (engine : Engine) (label : Option String)
    {world : World σ} {names : Value} (named : Names.isNames world.store names = true)
    (subject target : Value) (operator : Option Operator) (test : Option Function) :
    let built :=
      (Run.onStore (Rule.simple names subject target operator test) : Run σ Value) world
    ∃ visit outcome final,
      Walk host engine.options label [⟨0, built.1⟩] built.2 [visit] outcome final ∧
      engine.check host label built.1 built.2 = (outcome, Engine.close label outcome final) ∧
      visit.finding.isRefused = false := by
  intro built
  obtain ⟨decoded, hdecoded⟩ := Option.isSome_iff_exists.1 named
  let rule : SimpleRule := ⟨decoded, subject, target, operator, test⟩
  let visit := Pending.visit host engine.options label ⟨0, built.1⟩ built.2
  have hvalid : engine.options.checkForm built.1 built.2 = (.ok (), built.2) :=
    engine.options.checkForm_simple named
  have hshape : Shape.ofValue built.2.store built.1 = .simple rule := Shape.ofValue_simple hdecoded
  obtain ⟨next, hfound⟩ : ∃ next, visit.finding = .decoded (.simple rule) next := by
    have hlook := Pending.look_of_valid host engine.options label ⟨0, built.1⟩ built.2
      (Nat.zero_le _) (congrArg Prod.fst hvalid)
    rw [hshape] at hlook
    exact ⟨_, congrArg Prod.fst hlook⟩
  have hrefused : visit.finding.isRefused = false := by
    rw [hfound]
    rfl
  obtain ⟨visits, outcome, final, hwalk, hcheck⟩ :=
    engine.exists_walk host label built.1 built.2
  obtain rfl : visits = [visit] := by
    cases hwalk with
    | fail => rfl
    | @step _ _ _ _ rules _ _ opens rest =>
      obtain ⟨trials, tested, hnext, -⟩ := Pending.triedOut_visit hfound
      change visit.finding.next = .ok rules at opens
      rw [hfound, Finding.next, hnext] at opens
      cases tested with
      | error => cases opens
      | ok =>
        cases opens
        cases rest
        rfl
  exact ⟨visit, outcome, final, hwalk, hcheck, hrefused⟩

namespace Operator

variable {store : Store} {operator : Option Operator} {value item : Value}

theorem holds_of_mem_compared (closed : store.Closed) (held : store.Holds value)
    (mem : item ∈ compared store operator value) : store.Holds item := by
  unfold compared at mem
  split at mem
  · exact closed.holds_of_mem_members held mem
  · exact closed.holds_of_mem_members held mem
  · exact List.mem_singleton.1 mem ▸ held

theorem holds_of_mem_against (closed : store.Closed) (held : store.Holds value)
    (mem : item ∈ against store operator value) : store.Holds item := by
  unfold against at mem
  split at mem
  · exact closed.holds_of_mem_members held mem
  · exact closed.holds_of_mem_members held mem
  · exact List.mem_singleton.1 mem ▸ held

end Operator

/-- A rule without a test passes exactly if the kind of each value that it compares is named by some
value that it compares against. -/
theorem Engine.accepts_kinds_iff {host : Host σ} {engine : Engine} {label : Option String}
    {world : World σ} {names value target : Value} (closed : world.store.Closed)
    (named : Names.isNames world.store names = true) (value_held : world.store.Holds value)
    (target_held : world.store.Holds target) (operator : Option Operator) :
    engine.Accepts host label world (Rule.simple names value target operator none) ↔
      ∀ item ∈ Operator.compared world.store operator value,
        .text item.kind.name ∈ Operator.against world.store operator target := by
  have hpure (function : Function) (same : none = some function) : function.IsPureTest host := by
    cases same
  have hitem {item : Value} (mem : item ∈ Operator.compared world.store operator value) :=
    Operator.holds_of_mem_compared closed value_held mem
  have hother {other : Value} (mem : other ∈ Operator.against world.store operator target) :=
    Operator.holds_of_mem_against closed target_held mem
  refine (accepts_iff named hpure closed (le_refl _) value_held target_held (fun _ ↦ Iff.rfl)
    (fun _ ↦ Iff.rfl) (fun _ ↦ hitem) (fun _ ↦ hother)).trans (forall₂_congr fun item mem ↦ ?_)
  have hmeets {other : Value} (other_held : world.store.Holds other) :
      ((none : Option Function).getD .kindTest).Meets host world.store item other ↔
        other = .text item.kind.name :=
    Function.meets_kindTest_iff host closed (hitem mem) other_held
  constructor
  · rintro ⟨other, hmem, haccepts⟩
    rwa [← (hmeets (hother hmem)).1 haccepts]
  · exact fun hmem ↦ ⟨_, hmem, (hmeets (hother hmem)).2 rfl⟩

/-! ## The builders -/

/-- In every world with a closed store the rules of all builders mean what they are built for, under
every name, label and engine and for all values that the store holds. -/
theorem built_rules (host : Host σ) (engine : Engine) (label : Option String) (world : World σ)
    (names value target : Value) (closed : world.store.Closed)
    (named : Names.isNames world.store names = true) (value_held : world.store.Holds value)
    (target_held : world.store.Holds target) :
    BuiltRules host engine label world names value target := by
  have hkinds (operator : Option Operator) {other : Value} (other_held : world.store.Holds other) :
      engine.Accepts host label world (Rule.simple names value other operator none) ↔
        ∀ item ∈ Operator.compared world.store operator value,
          .text item.kind.name ∈ Operator.against world.store operator other :=
    Engine.accepts_kinds_iff closed named value_held other_held operator
  have hwith (test : Function) (own : test ∈ Function.library) :
      engine.Accepts host label world (Rule.simple names value target none (some test)) ↔
        test.Meets host world.store value target :=
    Engine.accepts_plain_iff closed named
      (fun function same ↦ Option.some.inj same ▸ Function.isPureTest_of_mem host own) value_held
      target_held
  exact {
    not_refused := fun rule hbuilt ↦ by
      obtain ⟨other, operator, test, rfl⟩ := hbuilt.exists_simple
      exact engine.exists_visit_simple host label named value other operator test
    isKind_iff := fun kind ↦ by
      have hheld : world.store.Holds (.ofKind kind) := trivial
      refine (hkinds none hheld).trans ?_
      have hnames : Value.text value.kind.name = .ofKind kind ↔ value.kind = kind :=
        ⟨fun same ↦ Kind.name_injective (Value.text.inj same), fun same ↦ congrArg Value.ofKind same⟩
      simpa [Operator.compared, Operator.against] using hnames
    isOneOf_iff := by
      refine (hkinds (some .oneOf) target_held).trans ?_
      simp [Operator.compared, Operator.against]
    isEach_iff := by
      refine (hkinds (some .each) target_held).trans ?_
      simp only [Operator.compared, Operator.against, List.mem_singleton]
      constructor
      · intro hall
        cases hmembers : world.store.members value with
        | nil => exact .inl rfl
        | cons first rest =>
          have hfirst := hall first (hmembers ▸ List.mem_cons_self)
          refine .inr ⟨first.kind.name, hfirst.symm, fun item mem ↦ ?_⟩
          exact Value.text.inj ((hall item (hmembers ▸ mem)).trans hfirst.symm)
      · rintro (hnone | ⟨name, rfl, hall⟩) item mem
        · rw [hnone] at mem
          cases mem
        · rw [hall item mem]
    isEachOf_iff := hkinds (some .eachOf) target_held
    equals_iff := (hwith .equalTest (by simp [Function.library])).trans
      (Function.meets_equalTest_iff host closed value_held target_held)
    notEquals_iff := (hwith .notEqualTest (by simp [Function.library])).trans
      (Function.meets_notEqualTest_iff host closed value_held target_held)
    isInRange_iff := (hwith .rangeTest (by simp [Function.library])).trans
      (Function.meets_rangeTest_iff host closed value_held target_held)
    isMatch_iff := (hwith .patternTest (by simp [Function.library])).trans
      (Function.meets_patternTest_iff host closed value_held target_held) }

/-- The value looks like names, as does the array that leads the rule, and no rule may stand below
the first. Its members are texts, which the only candidate names. -/
theorem built_rules_lookalike :
    let host : Host Unit :=
      { call := fun _ _ ↦ return .undefined
        judge := fun _ _ _ ↦ return .undefined
        test := fun _ _ ↦ return .ok ()
        elapsed := fun _ ↦ 0 }
    let engine : Engine := { options := { maxDepth := 0 } }
    let store : Store :=
      ⟨#[[.text "tags", .text "of a page"], [.text "each", .text "boolean"], [.text "string"]],
        #[], 0⟩
    let world : World Unit := ⟨store, (), #[]⟩
    world.store.Closed ∧ Names.isNames world.store (.array ⟨0⟩) = true ∧
      BuiltRules host engine (some "page") world (.array ⟨0⟩) (.array ⟨1⟩) (.array ⟨2⟩) ∧
      engine.Accepts host (some "page") world
        (Rule.isEachOf (.array ⟨0⟩) (.array ⟨1⟩) (.array ⟨2⟩)) ∧
      ¬ engine.Accepts host (some "page") world
        (Rule.isOneOf (.array ⟨0⟩) (.array ⟨1⟩) (.array ⟨2⟩)) := by
  intro host engine store world
  have hclosed : world.store.Closed := by decide
  have hnamed : Names.isNames world.store (.array ⟨0⟩) = true := rfl
  have hrules := built_rules host engine (some "page") world (.array ⟨0⟩) (.array ⟨1⟩) (.array ⟨2⟩)
    hclosed hnamed (by decide) (by decide)
  refine ⟨hclosed, hnamed, hrules, hrules.isEachOf_iff.2 ?_, hrules.isOneOf_iff.not.2 ?_⟩
  · change ∀ item ∈ [Value.text "each", .text "boolean"], .text item.kind.name ∈
      [Value.text "string"]
    simp [Value.kind, Value.kindWith, Kind.name]
  · change .text "array" ∉ [Value.text "string"]
    simp

end RuleCheck
