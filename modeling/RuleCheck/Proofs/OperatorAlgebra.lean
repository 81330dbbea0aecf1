import RuleCheck.Proofs.OptionSlots
import RuleCheck.Proofs.PureTests
import RuleCheck.Proofs.Trials

/-!
# The algebra of operators

A simple rule with a pure test passes exactly if every value that it compares has a value to pass
against: the compared values are the members of the subject if the operator goes through them, and
otherwise the subject alone, and likewise the other values are the members of the target or the
target alone. All laws between operators follow from this.
-/

namespace RuleCheck

variable {σ : Type}

def Rule.simple (names subject target : Value) (operator : Option Operator)
    (test : Option Function) : StateM Store Value :=
  Value.newArray (names :: subject :: target :: options operator test)

/-- The check of a rule that is built in this world ends well. -/
def Engine.Accepts (host : Host σ) (engine : Engine) (label : Option String) (world : World σ)
    (rule : StateM Store Value) : Prop :=
  let built := (Run.onStore rule : Run σ Value) world
  (engine.check host label built.1 built.2).1 = .ok ()

instance (host : Host σ) (engine : Engine) (label : Option String) (world : World σ)
    (rule : StateM Store Value) : Decidable (engine.Accepts host label world rule) :=
  let built := (Run.onStore rule : Run σ Value) world
  have hok (outcome : Outcome) : outcome.isOk = true ↔ outcome = .ok () := by
    cases outcome <;> simp [Except.isOk, Except.toBool]
  decidable_of_iff _ (hok (engine.check host label built.1 built.2).1)

namespace Operator

def compared (store : Store) (operator : Option Operator) (subject : Value) : List Value :=
  match operator with
  | some .each => store.members subject
  | some .eachOf => store.members subject
  | _ => [subject]

def against (store : Store) (operator : Option Operator) (target : Value) : List Value :=
  match operator with
  | some .oneOf => store.members target
  | some .eachOf => store.members target
  | _ => [target]

variable {store later : Store} {value : Value}

theorem compared_of_le (operator : Option Operator) (le : store ≤ later)
    (held : store.Holds value) : compared later operator value = compared store operator value := by
  unfold compared
  rw [Store.members_of_le le held]

theorem against_of_le (operator : Option Operator) (le : store ≤ later)
    (held : store.Holds value) : against later operator value = against store operator value := by
  unfold against
  rw [Store.members_of_le le held]

end Operator

section Decoding

variable {store : Store} {names subject target : Value} {operator : Option Operator}
  {test : Option Function}

theorem Rule.le_simple : store ≤ (Rule.simple names subject target operator test store).2 :=
  Store.le_newArray _ store

/-- A simple rule written out is an array of its elements. -/
theorem Rule.exists_items_simple :
    let built := Rule.simple names subject target operator test store
    ∃ ref, built.1 = .array ref ∧
      built.2.items ref = names :: subject :: target :: options operator test :=
  ⟨_, rfl, Store.items_addList_self store _⟩

theorem Rule.check_simple (named : Names.isNames store names = true) :
    let built := Rule.simple names subject target operator test store
    Rule.check built.2 built.1 = .ok () := by
  intro built
  have hnamed : Names.isNames built.2 names = true := Names.isNames_of_le le_simple named
  obtain ⟨ref, hbuilt, hitems⟩ : ∃ ref, built.1 = .array ref ∧
    built.2.items ref = names :: subject :: target :: options operator test := exists_items_simple
  rw [hbuilt, check, hitems]
  dsimp only
  rw [if_pos hnamed, checkSimple]
  cases operator <;> cases test <;> simp [options, checkOptions]

/-- The check of its form lets such a rule pass, in production or not. -/
theorem Options.checkForm_simple (options : Options) {world : World σ}
    (named : Names.isNames world.store names = true) :
    let built :=
      (Run.onStore (Rule.simple names subject target operator test) : Run σ Value) world
    options.checkForm built.1 built.2 = (.ok (), built.2) := by
  intro built
  have hcheck : Rule.check built.2.store built.1 = .ok () := Rule.check_simple named
  rw [checkForm_apply, hcheck]
  exact ite_self _

theorem Shape.ofValue_simple {decoded : Names} (named : Names.ofValue? store names = some decoded) :
    let built := Rule.simple names subject target operator test store
    Shape.ofValue built.2 built.1 = .simple ⟨decoded, subject, target, operator, test⟩ := by
  intro built
  have hnamed : Names.ofValue? built.2 names = some decoded :=
    Names.ofValue_of_le Rule.le_simple named
  obtain ⟨ref, hbuilt, hitems⟩ : ∃ ref, built.1 = .array ref ∧
    built.2.items ref = names :: subject :: target :: Rule.options operator test :=
    Rule.exists_items_simple
  rw [hbuilt, ofValue, hitems, ofItems]
  · rw [ofMembers, hnamed]
    cases operator <;> cases test <;>
      simp [SimpleRule.ofParts, SimpleRule.takeOption, Rule.options]
  · simp

end Decoding

section Evaluation

variable {host : Host σ} {engine : Engine} {label : Option String} {world : World σ}
  {names subject target : Value} {operator : Option Operator} {test : Option Function}

/-- A simple rule that is built in some world is accepted exactly if it passes once it was decoded
and noticed. -/
theorem Engine.accepts_simple_iff (host : Host σ) (engine : Engine) (label : Option String)
    {decoded : Names} (named : Names.ofValue? world.store names = some decoded)
    (subject target : Value) (operator : Option Operator) (test : Option Function) :
    ∃ begun : World σ, world.store ≤ begun.store ∧
      (engine.Accepts host label world (Rule.simple names subject target operator test) ↔
        ((SimpleRule.mk decoded subject target operator test).evaluate host label begun).1 =
          .ok ()) := by
  let built := (Run.onStore (Rule.simple names subject target operator test) : Run σ Value) world
  let rule : SimpleRule := ⟨decoded, subject, target, operator, test⟩
  let pending : Pending := ⟨0, built.1⟩
  have hisNames : Names.isNames world.store names = true := by
    rw [Names.isNames, named]
    rfl
  have hvalid : engine.options.checkForm built.1 built.2 = (.ok (), built.2) :=
    engine.options.checkForm_simple hisNames
  have hshape : Shape.ofValue built.2.store built.1 = .simple rule := Shape.ofValue_simple named
  let begun := pending.noticed built.2 (.simple rule)
  refine ⟨begun, Rule.le_simple, ?_⟩
  change (engine.check host label built.1 built.2).1 = .ok () ↔ _
  have hcheck : (engine.check host label built.1 built.2).1 =
      ((Shape.simple rule).evaluate host label (evaluateRule host engine.options label
        engine.options.maxDepth 1) built.1 begun).1 := by
    rw [check_apply, evaluateRule, Run.bind_apply, hvalid]
    dsimp only
    rw [Run.bind_apply, Run.store_apply]
    dsimp only
    rw [hshape]
    rfl
  rw [hcheck, Shape.evaluate, Run.bind_apply]
  generalize rule.evaluate host label begun = result
  obtain ⟨outcome, after⟩ := result
  cases outcome <;> simp [Run.pure_apply]

/-- With a pure test a simple rule passes exactly if each value that it compares has one to pass
against. -/
theorem SimpleRule.evaluate_iff {rule : SimpleRule} {base : Store} {begun : World σ}
    (pure : rule.testFunction.IsPureTest host) (closed : base.Closed) (hbegun : base ≤ begun.store)
    (compared_held : ∀ value ∈ Operator.compared begun.store rule.operator rule.subject,
      base.Holds value)
    (against_held : ∀ value ∈ Operator.against begun.store rule.operator rule.target,
      base.Holds value) :
    (rule.evaluate host label begun).1 = .ok () ↔
      ∀ value ∈ Operator.compared begun.store rule.operator rule.subject,
        ∃ other ∈ Operator.against begun.store rule.operator rule.target,
          rule.testFunction.Meets host base value other := by
  have hdecides {value other : Value} (each of : Option Value)
      (hvalue : value ∈ Operator.compared begun.store rule.operator rule.subject)
      (hother : other ∈ Operator.against begun.store rule.operator rule.target) :
      Run.Decides base
        (rule.testFunction.runTest host (rule.callOf label value other each of))
        (rule.testFunction.Meets host base value other) :=
    Function.runTest_decides pure closed (rule.callOf label value other each of)
      (compared_held value hvalue) (against_held other hother)
  cases hoperator : rule.operator with
  | none =>
    rw [hoperator] at hdecides
    have hrule := hdecides none none (List.mem_singleton.2 rfl) (List.mem_singleton.2 rfl)
    rw [evaluate_plain hoperator, (hrule begun hbegun).2]
    simp [Operator.compared, Operator.against]
  | some operator =>
    rw [hoperator] at hdecides
    cases operator with
    | each =>
      have hrule := firstFailing_decides (begun.store.members rule.subject) fun item hitem ↦
        hdecides (some rule.subject) none hitem (List.mem_singleton.2 rfl)
      rw [evaluate_each hoperator, (hrule begun hbegun).2]
      simp [Operator.compared, Operator.against]
    | oneOf =>
      by_cases hnone : begun.store.members rule.target = []
      · rw [evaluate_idle (.inr ⟨.inl hoperator, hnone⟩), idleOutcome, hoperator]
        simp [Operator.compared, Operator.against, hnone]
      · have hrule := firstPassing_decides (begun.store.members rule.target) .empty
          fun candidate hcandidate ↦
            hdecides none (some rule.target) (List.mem_singleton.2 rfl) hcandidate
        rw [evaluate_oneOf hoperator hnone, (hrule begun hbegun).2]
        simp [Operator.compared, Operator.against]
    | eachOf =>
      by_cases hempty : begun.store.members rule.subject = []
      · rw [evaluate_idle (.inl ⟨.inr hoperator, hempty⟩), idleOutcome, hoperator]
        simp [Operator.compared, hempty]
      · by_cases hnone : begun.store.members rule.target = []
        · rw [evaluate_idle (.inr ⟨.inr hoperator, hnone⟩), idleOutcome, hoperator]
          obtain ⟨item, hitem⟩ := List.exists_mem_of_ne_nil _ hempty
          refine iff_of_false (by simp [hempty]) fun hall ↦ ?_
          obtain ⟨other, hother, -⟩ := hall item hitem
          simp [Operator.against, hnone] at hother
        · have hrow {item : Value} (hitem : item ∈ begun.store.members rule.subject) :=
            firstPassing_decides (begun.store.members rule.target) .empty
              fun candidate hcandidate ↦
                hdecides (some rule.subject) (some rule.target) hitem hcandidate
          have hrule := firstFailing_decides (begun.store.members rule.subject) fun _ ↦ hrow
          rw [evaluate_eachOf hoperator hempty hnone]
          exact (hrule begun hbegun).2

/-- A simple rule with a pure test is accepted exactly if each value that it compares has one to
pass against. These values must be held by a closed store that grew into the store of the world. -/
theorem Engine.accepts_iff {base : Store} {values others : List Value}
    (named : Names.isNames world.store names = true)
    (pure : ∀ function, test = some function → function.IsPureTest host) (closed : base.Closed)
    (hworld : base ≤ world.store) (subject_held : world.store.Holds subject)
    (target_held : world.store.Holds target)
    (hcompared : ∀ value, value ∈ Operator.compared world.store operator subject ↔ value ∈ values)
    (hagainst : ∀ value, value ∈ Operator.against world.store operator target ↔ value ∈ others)
    (values_held : ∀ value ∈ values, base.Holds value)
    (others_held : ∀ value ∈ others, base.Holds value) :
    engine.Accepts host label world (Rule.simple names subject target operator test) ↔
      ∀ value ∈ values, ∃ other ∈ others,
        (test.getD .kindTest).Meets host base value other := by
  obtain ⟨decoded, hdecoded⟩ := Option.isSome_iff_exists.1 named
  obtain ⟨begun, hbegun, haccepts⟩ :=
    engine.accepts_simple_iff host label hdecoded subject target operator test
  have hpure : (test.getD .kindTest).IsPureTest host := by
    cases test with
    | none => exact Function.isPureTest_kindTest host
    | some function => exact pure function rfl
  have hvalues (value : Value) :
      value ∈ Operator.compared begun.store operator subject ↔ value ∈ values := by
    rw [Operator.compared_of_le operator hbegun subject_held, hcompared]
  have hothers (value : Value) :
      value ∈ Operator.against begun.store operator target ↔ value ∈ others := by
    rw [Operator.against_of_le operator hbegun target_held, hagainst]
  rw [haccepts, SimpleRule.evaluate_iff hpure closed (le_trans hworld hbegun)
    (fun value mem ↦ values_held value ((hvalues value).1 mem))
    (fun other mem ↦ others_held other ((hothers other).1 mem))]
  simp only [hvalues, hothers]
  rfl

end Evaluation

/-- What gives a collection with these values as its members, each at least once: one that the store
holds already, or a new array, argument list or object. -/
inductive Gathers (store : Store) : StateM Store Value → List Value → Prop where
  | given {collection : Value} (held : store.Holds collection) :
      Gathers store (pure collection) (store.members collection)
  | array {values : List Value} (held : ∀ value ∈ values, store.Holds value) :
      Gathers store (Value.newArray values) values
  | arguments {values : List Value} (held : ∀ value ∈ values, store.Holds value) :
      Gathers store (Value.newArguments values) values
  | object {entries : List (String × Value)} (distinct : (entries.map (·.1)).Nodup)
      (held : ∀ value ∈ entries.map (·.2), store.Holds value) :
      Gathers store (Value.newObject entries) (entries.map (·.2))

namespace Gathers

variable {store later : Store} {collect : StateM Store Value} {values : List Value}

theorem held (gathers : Gathers store collect values) (closed : store.Closed) :
    ∀ value ∈ values, store.Holds value := by
  cases gathers with
  | given held => exact fun value mem ↦ closed.holds_of_mem_members held mem
  | array held | arguments held => exact held
  | object _ held => exact held

/-- A collection is held as soon as it is there, and has its values as members. -/
theorem members (gathers : Gathers store collect values) (le : store ≤ later) :
    later ≤ (collect later).2 ∧ (collect later).2.Holds (collect later).1 ∧
      ∀ value, value ∈ (collect later).2.members (collect later).1 ↔ value ∈ values := by
  cases gathers with
  | given held =>
    refine ⟨le_refl later, held.mono le, fun value ↦ ?_⟩
    exact iff_of_eq (congrArg (value ∈ ·) (Store.members_of_le le held))
  | array | arguments =>
    have hitems := Store.items_addList_self later values
    have hheld : later.lists.size < (later.lists.push values).size := by simp
    refine ⟨Store.le_addList values later, hheld, fun value ↦ ?_⟩
    exact iff_of_eq (congrArg (value ∈ ·) hitems)
  | @object entries distinct =>
    have hfields := Store.fields_addRecord_self later (.ofList entries)
    have hheld : later.records.size < (later.records.push (.ofList entries)).size := by simp
    refine ⟨Store.le_addRecord (.ofList entries) later, hheld, fun value ↦ ?_⟩
    have hvalues : value ∈ (Fields.ofList entries).values ↔ value ∈ entries.map (·.2) := by
      simp [Fields.values, Fields.mem_entries_ofList distinct]
    rw [← hvalues]
    exact iff_of_eq (congrArg (value ∈ Fields.values ·) hfields)

end Gathers

namespace Engine

variable {host : Host σ} {engine : Engine} {label : Option String} {world : World σ}
  {names subject target : Value} {test : Option Function}
  {items candidates : StateM Store Value} {values values' : List Value}

section

variable (closed : world.store.Closed) (named : Names.isNames world.store names = true)
  (pure : ∀ function, test = some function → function.IsPureTest host)

include closed named pure

theorem accepts_plain_iff (subject_held : world.store.Holds subject)
    (target_held : world.store.Holds target) :
    engine.Accepts host label world (Rule.simple names subject target none test) ↔
      (test.getD .kindTest).Meets host world.store subject target := by
  have hsubject : ∀ value ∈ [subject], world.store.Holds value := by simpa using subject_held
  have htarget : ∀ value ∈ [target], world.store.Holds value := by simpa using target_held
  have haccepts : engine.Accepts host label world (Rule.simple names subject target none test) ↔
      ∀ value ∈ [subject], ∃ other ∈ [target],
        (test.getD .kindTest).Meets host world.store value other :=
    accepts_iff named pure closed (le_refl world.store) subject_held target_held
      (fun _ ↦ Iff.rfl) (fun _ ↦ Iff.rfl) hsubject htarget
  simpa using haccepts

theorem accepts_each_iff (gathers : Gathers world.store items values)
    (target_held : world.store.Holds target) :
    engine.Accepts host label world (do
        let subject ← items
        Rule.simple names subject target (some .each) test) ↔
      ∀ item ∈ values, (test.getD .kindTest).Meets host world.store item target := by
  obtain ⟨hle, hheld, hmembers⟩ := gathers.members (le_refl world.store)
  have hnamed := Names.isNames_of_le hle named
  have htarget : ∀ value ∈ [target], world.store.Holds value := by simpa using target_held
  let gathered := (Run.onStore items : Run σ Value) world
  have haccepts : engine.Accepts host label gathered.2
      (Rule.simple names gathered.1 target (some .each) test) ↔
      ∀ value ∈ values, ∃ other ∈ [target],
        (test.getD .kindTest).Meets host world.store value other :=
    accepts_iff hnamed pure closed hle hheld (target_held.mono hle) hmembers
      (fun _ ↦ Iff.rfl) (gathers.held closed) htarget
  refine haccepts.trans ?_
  simp

theorem accepts_oneOf_iff (gathers : Gathers world.store candidates values)
    (subject_held : world.store.Holds subject) :
    engine.Accepts host label world (do
        let target ← candidates
        Rule.simple names subject target (some .oneOf) test) ↔
      ∃ candidate ∈ values, (test.getD .kindTest).Meets host world.store subject candidate := by
  obtain ⟨hle, hheld, hmembers⟩ := gathers.members (le_refl world.store)
  have hnamed := Names.isNames_of_le hle named
  have hsubject : ∀ value ∈ [subject], world.store.Holds value := by simpa using subject_held
  let gathered := (Run.onStore candidates : Run σ Value) world
  have haccepts : engine.Accepts host label gathered.2
      (Rule.simple names subject gathered.1 (some .oneOf) test) ↔
      ∀ value ∈ [subject], ∃ other ∈ values,
        (test.getD .kindTest).Meets host world.store value other :=
    accepts_iff hnamed pure closed hle (subject_held.mono hle) hheld (fun _ ↦ Iff.rfl)
      hmembers hsubject (gathers.held closed)
  refine haccepts.trans ?_
  simp

theorem accepts_eachOf_iff (gathers : Gathers world.store items values)
    (gathers' : Gathers world.store candidates values') :
    engine.Accepts host label world (do
        let subject ← items
        let target ← candidates
        Rule.simple names subject target (some .eachOf) test) ↔
      ∀ item ∈ values, ∃ candidate ∈ values',
        (test.getD .kindTest).Meets host world.store item candidate := by
  obtain ⟨hle, hheld, hmembers⟩ := gathers.members (le_refl world.store)
  obtain ⟨hle', hheld', hmembers'⟩ := gathers'.members hle
  have hboth := le_trans hle hle'
  have hnamed := Names.isNames_of_le hboth named
  let gathered := (Run.onStore items : Run σ Value) world
  let gathered' := (Run.onStore candidates : Run σ Value) gathered.2
  change engine.Accepts host label gathered'.2
    (Rule.simple names gathered.1 gathered'.1 (some .eachOf) test) ↔ _
  have hkept (value : Value) :
      value ∈ gathered'.2.store.members gathered.1 ↔ value ∈ values := by
    have hmembersKept := Store.members_of_le hle' hheld
    rw [← hmembers value]
    exact iff_of_eq (congrArg (value ∈ ·) hmembersKept)
  exact accepts_iff hnamed pure closed hboth (hheld.mono hle') hheld' hkept hmembers'
    (gathers.held closed) (gathers'.held closed)

end

end Engine

/-! ## The laws -/

/-- The laws between the rules that apply one test through the operators, all of them checked from
one world. Collections are given by what builds them, so that they may be new or old. -/
structure OperatorLaws (host : Host σ) (engine : Engine) (label : Option String) (world : World σ)
    (names : Value) (test : Option Function) : Prop where
  eachOf_iff : ∀ subject target, world.store.Holds subject → world.store.Holds target →
    (engine.Accepts host label world (Rule.simple names subject target (some .eachOf) test) ↔
      ∀ item ∈ world.store.members subject,
        engine.Accepts host label world (Rule.simple names item target (some .oneOf) test))
  each_iff : ∀ subject target, world.store.Holds subject → world.store.Holds target →
    (engine.Accepts host label world (Rule.simple names subject target (some .each) test) ↔
      ∀ item ∈ world.store.members subject,
        engine.Accepts host label world (Rule.simple names item target none test))
  each_iff_eachOf : ∀ subject target, world.store.Holds subject → world.store.Holds target →
    (engine.Accepts host label world (Rule.simple names subject target (some .each) test) ↔
      engine.Accepts host label world (do
        let only ← Value.newArray [target]
        Rule.simple names subject only (some .eachOf) test))
  oneOf_iff : ∀ subject target, world.store.Holds subject → world.store.Holds target →
    (engine.Accepts host label world (Rule.simple names subject target (some .oneOf) test) ↔
      ∃ candidate ∈ world.store.members target,
        engine.Accepts host label world (Rule.simple names subject candidate none test))
  oneOf_iff_eachOf : ∀ subject target, world.store.Holds subject → world.store.Holds target →
    (engine.Accepts host label world (Rule.simple names subject target (some .oneOf) test) ↔
      engine.Accepts host label world (do
        let only ← Value.newArray [subject]
        Rule.simple names only target (some .eachOf) test))
  eachOf_congr : ∀ items items' candidates candidates' values values' others others',
    Gathers world.store items values → Gathers world.store items' values' →
    Gathers world.store candidates others → Gathers world.store candidates' others' →
    (∀ value, value ∈ values ↔ value ∈ values') → (∀ other, other ∈ others ↔ other ∈ others') →
    (engine.Accepts host label world (do
        let subject ← items
        let target ← candidates
        Rule.simple names subject target (some .eachOf) test) ↔
      engine.Accepts host label world (do
        let subject ← items'
        let target ← candidates'
        Rule.simple names subject target (some .eachOf) test))
  each_congr : ∀ items items' values values' target, Gathers world.store items values →
    Gathers world.store items' values' → world.store.Holds target →
    (∀ value, value ∈ values ↔ value ∈ values') →
    (engine.Accepts host label world (do
        let subject ← items
        Rule.simple names subject target (some .each) test) ↔
      engine.Accepts host label world (do
        let subject ← items'
        Rule.simple names subject target (some .each) test))
  oneOf_congr : ∀ subject candidates candidates' others others', world.store.Holds subject →
    Gathers world.store candidates others → Gathers world.store candidates' others' →
    (∀ other, other ∈ others ↔ other ∈ others') →
    (engine.Accepts host label world (do
        let target ← candidates
        Rule.simple names subject target (some .oneOf) test) ↔
      engine.Accepts host label world (do
        let target ← candidates'
        Rule.simple names subject target (some .oneOf) test))

/-- The operators obey their laws with every test of the library and every other pure test, in every
world with a closed store. -/
theorem operator_laws (host : Host σ) (engine : Engine) (label : Option String) (world : World σ)
    (names : Value) (test : Option Function) (closed : world.store.Closed)
    (named : Names.isNames world.store names = true)
    (allowed : ∀ function, test = some function →
      function ∈ Function.library ∨ function.IsPureTest host) :
    OperatorLaws host engine label world names test := by
  have pure (function : Function) (same : test = some function) : function.IsPureTest host :=
    (allowed function same).elim (Function.isPureTest_of_mem host) id
  let meets (subject target : Value) : Prop :=
    (test.getD .kindTest).Meets host world.store subject target
  have hplain {subject target : Value} (hsubject : world.store.Holds subject)
      (htarget : world.store.Holds target) :
      engine.Accepts host label world (Rule.simple names subject target none test) ↔
        meets subject target :=
    Engine.accepts_plain_iff closed named pure hsubject htarget
  have heach {items : StateM Store Value} {values : List Value} {target : Value}
      (gathers : Gathers world.store items values) (htarget : world.store.Holds target) :
      engine.Accepts host label world (do
          let subject ← items
          Rule.simple names subject target (some .each) test) ↔
        ∀ item ∈ values, meets item target :=
    Engine.accepts_each_iff closed named pure gathers htarget
  have honeOf {candidates : StateM Store Value} {others : List Value} {subject : Value}
      (gathers : Gathers world.store candidates others) (hsubject : world.store.Holds subject) :
      engine.Accepts host label world (do
          let target ← candidates
          Rule.simple names subject target (some .oneOf) test) ↔
        ∃ candidate ∈ others, meets subject candidate :=
    Engine.accepts_oneOf_iff closed named pure gathers hsubject
  have heachOf {items candidates : StateM Store Value} {values others : List Value}
      (gathers : Gathers world.store items values)
      (gathers' : Gathers world.store candidates others) :
      engine.Accepts host label world (do
          let subject ← items
          let target ← candidates
          Rule.simple names subject target (some .eachOf) test) ↔
        ∀ item ∈ values, ∃ candidate ∈ others, meets item candidate :=
    Engine.accepts_eachOf_iff closed named pure gathers gathers'
  have hmember {collection member : Value} (held : world.store.Holds collection)
      (mem : member ∈ world.store.members collection) : world.store.Holds member :=
    closed.holds_of_mem_members held mem
  have honly {value : Value} (held : world.store.Holds value) :
      Gathers world.store (Value.newArray [value]) [value] :=
    .array (by simpa using held)
  exact {
    eachOf_iff := fun subject target hsubject htarget ↦ by
      refine (heachOf (.given hsubject) (.given htarget)).trans ?_
      refine forall₂_congr fun item hitem ↦ ?_
      exact (honeOf (.given htarget) (hmember hsubject hitem)).symm
    each_iff := fun subject target hsubject htarget ↦ by
      refine (heach (.given hsubject) htarget).trans ?_
      refine forall₂_congr fun item hitem ↦ ?_
      exact (hplain (hmember hsubject hitem) htarget).symm
    each_iff_eachOf := fun subject target hsubject htarget ↦ by
      refine (heach (.given hsubject) htarget).trans ?_
      refine Iff.trans ?_ (heachOf (.given hsubject) (honly htarget)).symm
      simp
    oneOf_iff := fun subject target hsubject htarget ↦ by
      refine (honeOf (.given htarget) hsubject).trans ?_
      refine exists_congr fun candidate ↦ and_congr_right fun hcandidate ↦ ?_
      exact (hplain hsubject (hmember htarget hcandidate)).symm
    oneOf_iff_eachOf := fun subject target hsubject htarget ↦ by
      refine (honeOf (.given htarget) hsubject).trans ?_
      refine Iff.trans ?_ (heachOf (honly hsubject) (.given htarget)).symm
      simp
    eachOf_congr := fun items items' candidates candidates' values values' others others'
        hitems hitems' hcandidates hcandidates' hvalues hothers ↦ by
      rw [heachOf hitems hcandidates, heachOf hitems' hcandidates']
      simp only [hvalues, hothers]
    each_congr := fun items items' values values' target hitems hitems' htarget hvalues ↦ by
      rw [heach hitems htarget, heach hitems' htarget]
      simp only [hvalues]
    oneOf_congr := fun subject candidates candidates' others others' hsubject hcandidates
        hcandidates' hothers ↦ by
      rw [honeOf hcandidates hsubject, honeOf hcandidates' hsubject]
      simp only [hothers] }

/-- A test of the host program that compares texts, and words its failures by a clause of its own.
-/
theorem operator_laws_tags :
    let host : Host Unit :=
      { call := fun _ arguments ↦ return .ofKind (arguments.headD .undefined).kind
        judge := fun _ subject target ↦ return .bool (subject.text? == target.text?)
        test := fun _ _ ↦ return .ok ()
        elapsed := fun _ ↦ 0 }
    let test : Function :=
      .made (some 0) "test" (.host 0) ((Clauses.should "should read").thenComputed (.host 0 none))
    let store : Store :=
      ⟨#[[.text "a", .text "b", .text "a"], [.text "b", .text "c", .text "a"]], #[], 1⟩
    let world : World Unit := ⟨store, (), #[]⟩
    let tags := Value.text "tags"
    world.store.Closed ∧ Names.isNames world.store tags = true ∧ test.IsPureTest host ∧
      OperatorLaws host {} none world tags (some test) ∧
      Engine.Accepts host {} none world
        (Rule.simple tags (.array ⟨0⟩) (.array ⟨1⟩) (some .eachOf) (some test)) ∧
      ¬ Engine.Accepts host {} none world
        (Rule.simple tags (.array ⟨1⟩) (.array ⟨0⟩) (some .eachOf) (some test)) := by
  intro host test store world tags
  have hclosed : world.store.Closed := by decide
  have hnamed : Names.isNames world.store tags = true := rfl
  have hpredicate : (Predicate.host 0).IsPure host :=
    { grows := fun _ _ world ↦ le_refl world.store
      steady := fun _ _ _ _ _ _ _ _ _ _ ↦ Iff.rfl }
  have hquiet : ((Clauses.should "should read").thenComputed (.host 0 none)).AreQuiet host := by
    intro function mem arguments
    have hfunction : function = .host 0 none := by simpa [Clauses.finals] using mem
    rw [hfunction, Function.answer]
    exact fun world ↦ le_refl world.store
  have hpure : test.IsPureTest host :=
    ⟨fun code same ↦ Predicate.host.inj same ▸ hpredicate, hquiet⟩
  refine ⟨hclosed, hnamed, hpure, ?_, by decide +kernel, by decide +kernel⟩
  exact operator_laws host {} none world tags (some test) hclosed hnamed
    fun function same ↦ .inr (Option.some.inj same ▸ hpure)

/-- The laws go no further. A rule on all members against one target sees the order within the
target: the pair 1, 2 equals the first target but not the second, which has the same members. And if
a test computes its diagnostics by a function that changes a later candidate, a value that equals
this candidate does not pass against one of the candidates, although its predicate is pure. -/
theorem operator_laws_limits :
    let host : Host Unit :=
      { call := fun _ _ ⟨store, state⟩ ↦
          (.undefined, store.setItems ⟨6⟩ (store.items ⟨6⟩ ++ [.int 2]), state)
        judge := fun _ subject target ⟨store, state⟩ ↦
          (.bool (store.equal subject target), store, state)
        test := fun _ _ ↦ return .ok ()
        elapsed := fun _ ↦ 0 }
    let test : Function :=
      .made (some 0) "same" (.host 0) ((Clauses.should "should be").thenComputed (.host 0 none))
    let store : Store :=
      ⟨#[[.int 1, .int 2], [.array ⟨0⟩], [.int 1, .int 2], [.int 2, .int 1],
        [.int 1], [.int 2], [.int 1], [.array ⟨5⟩, .array ⟨6⟩]], #[], 1⟩
    let world : World Unit := ⟨store, (), #[]⟩
    let names := Value.text "pair"
    store.Closed ∧ (Predicate.host 0).IsPure host ∧
      ((∀ value, value ∈ store.members (.array ⟨2⟩) ↔ value ∈ store.members (.array ⟨3⟩)) ∧
        Engine.Accepts host {} none world
          (Rule.simple names (.array ⟨1⟩) (.array ⟨2⟩) (some .each) (some .equalTest)) ∧
        ¬ Engine.Accepts host {} none world
          (Rule.simple names (.array ⟨1⟩) (.array ⟨3⟩) (some .each) (some .equalTest))) ∧
      .array ⟨6⟩ ∈ store.members (.array ⟨7⟩) ∧
        Engine.Accepts host {} none world
          (Rule.simple names (.array ⟨4⟩) (.array ⟨6⟩) none (some test)) ∧
        ¬ Engine.Accepts host {} none world
          (Rule.simple names (.array ⟨4⟩) (.array ⟨7⟩) (some .oneOf) (some test)) := by
  intro host test store world names
  have hclosed : store.Closed := by decide
  have hpure : (Predicate.host 0).IsPure host :=
    { grows := fun _ _ world ↦ le_refl world.store
      steady := fun base subject target closed hsubject htarget world world' hle hle' ↦ by
        change Value.bool (world.store.equal subject target) = _ ↔
          Value.bool (world'.store.equal subject target) = _
        rw [closed.equal_congr hle hle' hsubject htarget] }
  have hmembers (value : Value) :
      value ∈ store.members (.array ⟨2⟩) ↔ value ∈ store.members (.array ⟨3⟩) := by
    change value ∈ [Value.int 1, .int 2] ↔ value ∈ [Value.int 2, .int 1]
    rw [List.mem_pair, List.mem_pair, or_comm]
  refine ⟨hclosed, hpure, ⟨hmembers, by decide +kernel, by decide +kernel⟩, ?_, by decide +kernel,
    by decide +kernel⟩
  exact List.mem_cons_of_mem _ List.mem_cons_self

end RuleCheck
