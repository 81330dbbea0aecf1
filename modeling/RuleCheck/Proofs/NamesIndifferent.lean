import RuleCheck.Proofs.Sessions
import RuleCheck.Proofs.TandemWalks

/-!
# Names are indifferent

The names that lead a simple rule and the label of the caller are handed to every test and show in
every diagnostic. Yet no made test looks at them: it asks its predicate about the compared values
only. So twins are visited in tandem, whatever labels their evaluations have, and open twins.

The channel comes into play only after the check, and does not change whether it passed.
-/

namespace RuleCheck

variable {σ : Type}

namespace SimpleRule

variable {base : Store} {same : Correspondence} {host : Host σ}

namespace Alike

variable {rule rule' : SimpleRule}

/-- One call of the test passes alike for both rules, whatever names, caller and collections are. -/
theorem runTest_inStep (alike : rule.Alike same rule') (made : rule.testFunction.IsMade)
    (uniform : rule.testFunction.IsUniform host base) {caller caller' : Option String}
    {wider : Correspondence} {subject subject' target target' : Value}
    {each each' of of' : Option Value} (hsubject : wider subject subject')
    (htarget : wider target target') :
    InStep base wider
      (rule.testFunction.runTest host (rule.callOf caller subject target each of))
      (rule'.testFunction.runTest host (rule'.callOf caller' subject' target' each' of'))
      PassAlike := by
  have htest : rule'.testFunction = rule.testFunction :=
    congrArg (·.getD .kindTest) alike.test.symm
  rw [htest]
  exact Function.runTest_inStep made uniform hsubject htarget

/-- Simple rules that differ at most in their names pass alike, whatever the caller is. -/
theorem evaluate_inStep (alike : rule.Alike same rule')
    (made : rule.testFunction.IsMade) (uniform : rule.testFunction.IsUniform host base)
    (caller caller' : Option String) :
    InStep base same (rule.evaluate host caller) (rule'.evaluate host caller') PassAlike :=
  alike.evaluate_inStep_of_calls fun _ _ _ _ _ _ _ _ _ _ hsubject htarget _ _ ↦
    alike.runTest_inStep made uniform hsubject htarget

end Alike

end SimpleRule

/-- What a rule of the shape calls by itself is uniform, and a test that is given is a made one. -/
def Shape.IsUniform (host : Host σ) (base : Store) : Shape → Prop
  | .function callee => callee.IsUniform host base
  | .simple rule => ∀ test, rule.test = some test → test.IsMade ∧ test.IsUniform host base
  | _ => True

/-- The test that is run is the given one or the kind test. -/
theorem Shape.IsUniform.testFunction {host : Host σ} {base : Store} {rule : SimpleRule}
    (uniform : (Shape.simple rule).IsUniform host base) :
    rule.testFunction.IsMade ∧ rule.testFunction.IsUniform host base := by
  rw [SimpleRule.testFunction]
  cases htest : rule.test with
  | none => exact Function.isUniform_kindTest host base
  | some test => exact uniform test htest

def Visit.IsUniform (host : Host σ) (base : Store) (visit : Visit σ) : Prop :=
  ∀ shape, visit.finding.shape? = some shape → shape.IsUniform host base

theorem Visit.IsUniform.of_shape {host : Host σ} {base : Store} {visit : Visit σ} (shape : Shape)
    (decoded : visit.finding.shape? = some shape) (uniform : shape.IsUniform host base) :
    visit.IsUniform host base := by
  intro other hother
  obtain rfl := Option.some.inj (decoded.symm.trans hother)
  exact uniform

section Visits

variable {base : Store} {same : Correspondence} {host : Host σ} {options : Options}
  {caller caller' : Option String}

/-- Rules of alike shapes do alike what they do by themselves. -/
theorem Shape.enter_inStep {shape shape' : Shape}
    (alike : Alike same (Rule.Twins base same) shape shape')
    (uniform : shape.IsUniform host base) (rule rule' : Value) :
    InStep base same (shape.enter host caller rule) (shape'.enter host caller' rule')
      fun wider ↦ Opens (Rule.Twins base wider) := by
  refine enter_inStep_of .inl alike ?_ ?_ rule rule'
  · rintro callee rfl
    exact uniform
  · rintro simple simple' rfl rfl halike
    obtain ⟨hmade, huniform⟩ := uniform.testFunction
    exact halike.evaluate_inStep hmade huniform caller caller'

/-- Twins are visited in tandem: both are refused, or both are decoded and fail or open twins. -/
theorem Pending.visit_tandem (pending pending' : Pending) (caller' : Option String)
    {world world' : World σ} (closed : base.Closed)
    (corresponds : Corresponds base world.store world'.store same)
    (twins : Related (Rule.Twins base same) pending pending')
    (uniform : (pending.visit host options caller world).IsUniform host base) :
    ∃ wider, Tandem base same wider world (pending.visit host options caller world).after
        world' (pending'.visit host options caller' world').after ∧
      Opens (Rule.Twins base wider) (pending.visit host options caller world).finding.next
        (pending'.visit host options caller' world').finding.next := by
  obtain ⟨depth, rule⟩ := pending
  obtain ⟨depth', rule'⟩ := pending'
  obtain ⟨rfl, htwins⟩ := twins
  have halike := htwins.alike closed corresponds
  have sameTop (rule rule' : Value) (twins : Rule.Twins base same rule rule') :=
    (twins.alike closed corresponds).sameTop corresponds
  have hcheck := Rule.check_eq_ok_congr corresponds halike sameTop
  have hshape := Shape.alike_ofValue corresponds halike sameTop
  exact visit_tandem_of_enter depth corresponds hcheck (fun _ ↦ .error) fun decoded ↦
    Shape.enter_inStep hshape (uniform _ decoded) rule rule'

end Visits

/-- Walks through twins go in tandem, and pass alike. -/
theorem Walk.tandem {base : Store} {same : Correspondence} {host : Host σ} {options : Options}
    {caller caller' : Option String} {agenda agenda' : List Pending}
    {world final world' final' : World σ} {visits visits' : List (Visit σ)}
    {outcome outcome' : Outcome} (closed : base.Closed)
    (walk : Walk host options caller agenda world visits outcome final)
    (walk' : Walk host options caller' agenda' world' visits' outcome' final')
    (corresponds : Corresponds base world.store world'.store same)
    (twins : List.Forall₂ (Pending.Related (Rule.Twins base same)) agenda agenda')
    (uniform : ∀ visit ∈ visits, visit.IsUniform host base) :
    ∃ wider, Tandem base same wider world final world' final' ∧
      PassAlike wider outcome outcome' :=
  walk.tandem_of_visits (Rule.Twins base) (fun within twins ↦ twins.mono within) walk'
    (fun _ pending pending' _ _ mem corresponds twins ↦
      pending.visit_tandem pending' caller' closed corresponds twins (uniform _ mem))
    corresponds twins

namespace Engine

/-- The closing event is no call. -/
theorem close_tandem {base : Store} {same : Correspondence} {world world' : World σ}
    (corresponds : Corresponds base world.store world'.store same) (label label' : Option String)
    (outcome outcome' : Outcome) :
    Tandem base same same world (close label outcome world)
      world' (close label' outcome' world') := by
  have hcalls (label : Option String) (store : Store) (outcome : Outcome) :
      (closingEvent? store label outcome).toList.filterMap Event.ruleCall? = [] := by
    rcases outcome with (_ | _) | _ <;> rfl
  refine ⟨.refl same, ?_, _, _, journal_close label outcome world,
    journal_close label' outcome' world', ?_⟩
  · rwa [store_close, store_close]
  · rw [SameCalls, hcalls, hcalls]
    exact .nil

/-- Checks of rules that differ only in names go in tandem, and pass alike. -/
theorem check_tandem {host : Host σ} {engine : Engine} {world final : World σ}
    (closed : world.store.Closed) {label : Option String} (label' : Option String)
    {rule rule' : Value} (held : world.store.Holds rule) (held' : world.store.Holds rule')
    (differ : Rule.DifferOnlyInNames world.store rule rule') {visits : List (Visit σ)}
    {outcome : Outcome}
    (walk : Walk host engine.options label [⟨0, rule⟩] world visits outcome final)
    (uniform : ∀ visit ∈ visits, visit.IsUniform host world.store) :
    ∃ same wider, Tandem world.store same wider world (engine.check host label rule world).2
        world (engine.check host label' rule' world).2 ∧
      PassAlike wider (engine.check host label rule world).1
        (engine.check host label' rule' world).1 := by
  obtain ⟨visits', outcome', final', walk', hcheck'⟩ := engine.exists_walk host label' rule' world
  obtain ⟨_, _, _, hwalk, hcheck⟩ := engine.exists_walk host label rule world
  obtain ⟨-, rfl, rfl⟩ := walk.unique hwalk
  have htwins (same : Correspondence) :
      Pending.Related (Rule.Twins world.store same) ⟨0, rule⟩ ⟨0, rule'⟩ :=
    ⟨rfl, .inr ⟨⟨held, held'⟩, differ⟩⟩
  obtain ⟨wider, hwalks, hpass⟩ :=
    Walk.tandem closed walk walk' (.self closed) (.cons (htwins _) .nil) uniform
  rw [hcheck, hcheck']
  exact ⟨_, wider, hwalks.trans (close_tandem hwalks.corresponds label label' outcome outcome'),
    hpass⟩

/-- The evaluation first checks its rule, which records some events, and then delivers what the
check came to through the channel that the value gives. -/
structure ChecksFirst (host : Host σ) (engine : Engine) (label : Option String)
    (rule channel : Value) (world : World σ) (events : List Event) (checked : World σ) : Prop where
  leaves : (engine.check host label rule world).2 = checked
  records : checked.journal.toList = world.journal.toList ++ events
  delivers : ∃ report, Report.ofValue world.store channel = .ok report ∧
    engine.evaluateWith host label rule channel world =
      match engine.check host label rule world with
      | (.ok (), after) => ((.pass, engine), after)
      | (.error failure, after) => engine.deliver host label report failure after

variable {host : Host σ} {engine : Engine} {label : Option String} {rule channel : Value}
  {world : World σ}

theorem checksFirst_of_isChannel (accepted : channel.isChannel = true) {events : List Event}
    (records : (engine.check host label rule world).2.journal.toList =
      world.journal.toList ++ events) :
    ChecksFirst host engine label rule channel world events
      (engine.check host label rule world).2 where
  leaves := rfl
  records := records
  delivers := by
    obtain ⟨report, hreport⟩ := Report.exists_of_isChannel world.store accepted
    exact ⟨report, hreport, (evaluateWith_of_channel hreport).trans (evaluate_apply report)⟩

theorem isPass_evaluateWith_iff (accepted : channel.isChannel = true) :
    (engine.evaluateWith host label rule channel world).1.1.isPass = true ↔
      (engine.check host label rule world).1 = .ok () := by
  obtain ⟨report, hreport⟩ := Report.exists_of_isChannel world.store accepted
  rw [evaluateWith_of_channel hreport]
  exact isPass_evaluate_iff report

end Engine

/-- Two rules that differ only in the names that lead their simple rules, evaluated from one world
with any two labels and any two channels, both pass or both fail, as long as the tests that are run
are made ones and all that is called is uniform. The two checks call the same functions that are
rules and the same predicates, in the same order and with corresponding values. -/
theorem names_indifferent (host : Host σ) (engine : Engine) (world : World σ)
    (closed : world.store.Closed) {label : Option String} (label' : Option String)
    {rule rule' channel channel' : Value}
    (held : world.store.Holds rule) (held' : world.store.Holds rule')
    (differ : Rule.DifferOnlyInNames world.store rule rule')
    (accepted : channel.isChannel = true) (accepted' : channel'.isChannel = true)
    {visits : List (Visit σ)} {outcome : Outcome} {final : World σ}
    (walk : Walk host engine.options label [⟨0, rule⟩] world visits outcome final)
    (uniform : ∀ visit ∈ visits, visit.IsUniform host world.store) :
    (engine.evaluateWith host label rule channel world).1.1.isPass =
        (engine.evaluateWith host label' rule' channel' world).1.1.isPass ∧
      ∃ events events' checked checked' same,
        engine.ChecksFirst host label rule channel world events checked ∧
        engine.ChecksFirst host label' rule' channel' world events' checked' ∧
        Corresponds world.store checked.store checked'.store same ∧
        SameCalls same events events' := by
  obtain ⟨_, wider, htandem, hpass⟩ :=
    Engine.check_tandem closed label' held held' differ walk uniform
  obtain ⟨events, events', hevents, hevents', hcalls⟩ := htandem.calls
  refine ⟨?_, events, events', _, _, wider, Engine.checksFirst_of_isChannel accepted hevents,
    Engine.checksFirst_of_isChannel accepted' hevents', htandem.corresponds, hcalls⟩
  rw [Bool.eq_iff_iff, Engine.isPass_evaluateWith_iff accepted,
    Engine.isPass_evaluateWith_iff accepted']
  exact hpass.iff

/-- A label leads the one simple rule, and a label with a qualifier the other. Before them a function
is called, which answers with a new array each time. -/
theorem names_indifferent_qualified :
    let host : Host Unit :=
      { call := fun _ _ (store, state) ↦
          let made := Value.newArray [] store
          (made.1, made.2, state)
        judge := fun _ subject _ ↦ return .bool (subject.text? == some "Ada")
        test := fun _ _ ↦ return .ok ()
        elapsed := fun _ ↦ 0 }
    let thunk : Function := .host 0 none
    let known : Function := .made (some 0) "known" (.host 0) (.should "should be known")
    let store : Store :=
      ⟨#[[.function thunk, .array ⟨1⟩], [.text "name", .text "Eve", .null, .function known],
        [.function thunk, .array ⟨3⟩], [.array ⟨4⟩, .text "Eve", .null, .function known],
        [.text "alias", .text "in public"]], #[], 0⟩
    let world : World Unit := ⟨store, (), #[]⟩
    Rule.DifferOnlyInNames world.store (.array ⟨0⟩) (.array ⟨2⟩) ∧
      (Engine.evaluateWith host {} (some "greet") (.array ⟨0⟩) .undefined world).1.1 = .fail ∧
      (Engine.evaluateWith host {} none (.array ⟨2⟩) (.bool true) world).1.1.isPass = false := by
  intro host thunk known store world
  have hdiffer : Rule.DifferOnlyInNames world.store (.array ⟨0⟩) (.array ⟨2⟩) := by
    let related : Correspondence := fun rule rule' ↦
      rule = .array ⟨0⟩ ∧ rule' = .array ⟨2⟩ ∨ rule = .array ⟨1⟩ ∧ rule' = .array ⟨3⟩ ∨
        rule = .function thunk ∧ rule' = .function thunk
    refine ⟨related, .inl ⟨rfl, rfl⟩, ?_⟩
    rintro rule rule' (⟨rfl, rfl⟩ | ⟨rfl, rfl⟩ | ⟨rfl, rfl⟩)
    · exact .unnamed rfl rfl (.cons (.inr (.inr ⟨rfl, rfl⟩)) (.cons (.inr (.inl ⟨rfl, rfl⟩)) .nil))
    · exact .named rfl rfl rfl rfl (List.forall₂_same.2 fun _ _ ↦ rfl)
    · exact .leaf nofun rfl
  have hthunk : thunk.IsUniform host world.store := by
    rw [Function.IsUniform]
    intro same _ _ _ _ _ _ _ corresponds
    exact ⟨_, .adding same _ _, corresponds.newArray .nil, .inr ⟨rfl, rfl⟩⟩
  have hknown : known.IsUniform host world.store := by
    rw [Function.IsUniform]
    refine ⟨fun same subject subject' _ _ hsubject _ _ _ _ _ corresponds ↦ ?_, trivial⟩
    refine ⟨same, .refl same, corresponds, ?_⟩
    change same (.bool (subject.text? == some "Ada")) (.bool (subject'.text? == some "Ada"))
    rw [(corresponds.sameTop hsubject).text_eq]
    exact corresponds.leaf rfl
  obtain ⟨visits, outcome, final, hwalk, huniform⟩ : ∃ visits outcome final,
      Walk host {} (some "greet") [⟨0, .array ⟨0⟩⟩] world visits outcome final ∧
        ∀ visit ∈ visits, visit.IsUniform host world.store := by
    refine ⟨_, _, _, .step (show _ = Except.ok [.function thunk, .array ⟨1⟩] from rfl)
      (.step (show _ = Except.ok [.array ⟨5⟩] from rfl) (.step (show _ = Except.ok [] from rfl)
        (.fail [] rfl))), ?_⟩
    refine List.forall_mem_cons.2 ⟨.of_shape (.list [.function thunk, .array ⟨1⟩]) rfl trivial, ?_⟩
    refine List.forall_mem_cons.2 ⟨.of_shape (.function thunk) rfl hthunk, ?_⟩
    refine List.forall_mem_cons.2 ⟨.of_shape .empty rfl trivial, List.forall_mem_singleton.2 ?_⟩
    refine .of_shape (.simple ⟨⟨"name", ""⟩, .text "Eve", .null, none, some known⟩) rfl ?_
    rintro _ ⟨⟩
    exact ⟨⟨_, _, _, _, rfl⟩, hknown⟩
  have hfail : (Engine.evaluateWith host {} (some "greet") (.array ⟨0⟩) .undefined world).1.1 =
      .fail := rfl
  have hundefined : Value.undefined.isChannel = true := rfl
  have htrue : (Value.bool true).isChannel = true := rfl
  have hindifferent := names_indifferent host {} world (by decide) none (by decide) (by decide)
    hdiffer hundefined htrue hwalk huniform
  refine ⟨hdiffer, hfail, ?_⟩
  rw [← hindifferent.1, hfail]
  rfl

end RuleCheck
