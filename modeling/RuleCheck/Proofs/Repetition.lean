import RuleCheck.Proofs.DepthLimit
import RuleCheck.Proofs.SameCourse
import RuleCheck.Proofs.TandemWalks

/-!
# Evaluations that can be repeated

If all functions and tests that an evaluation calls are uniform, then it can be repeated: whatever
was added to the store since, and in whatever state the host is, the same rule with the same label
passes or fails alike. The second evaluation goes in tandem with the first. Depth does not matter
either, if there is as much room below.
-/

namespace RuleCheck

variable {σ : Type}

section Tests

variable {base : Store} {same : Correspondence} {host : Host σ}

/-- Absent values stand for the same. -/
theorem TestCall.same_getD {store other : Store} (corresponds : Corresponds base store other same)
    {value value' : Option Value} (hvalue : Option.Rel same value value') :
    same (value.getD .undefined) (value'.getD .undefined) := by
  cases hvalue with
  | none => exact corresponds.leaf rfl
  | some hvalue => exact hvalue

/-- Corresponding calls have corresponding arguments. -/
theorem TestCall.toArguments_inStep {call call' : TestCall} (hcall : Same same call call') :
    InStep base same (Run.onStore call.toArguments : Run σ (List Value))
      (Run.onStore call'.toArguments) Correspondence.AgreeAll := by
  obtain ⟨caller, names, subject, target, each, of⟩ := call
  obtain ⟨caller', names', subject', target', each', of'⟩ := call'
  obtain ⟨rfl, rfl, hsubject, htarget, heach, hof⟩ := hcall
  refine .intro fun store other corresponds ↦ ?_
  have hcaller : same (.ofText? caller) (.ofText? caller) := by
    cases caller <;> exact corresponds.leaf rfl
  let rest := [subject, target, each.getD .undefined, of.getD .undefined]
  let rest' := [subject', target', each'.getD .undefined, of'.getD .undefined]
  have hrest : same.AgreeAll rest rest' :=
    .cons hsubject (.cons htarget (.cons (same_getD corresponds heach)
      (.cons (same_getD corresponds hof) .nil)))
  have hbind : InStep base same
      (Run.onStore names.toValue >>= fun value ↦ pure (.ofText? caller :: value :: rest) :
        Run σ (List Value))
      (Run.onStore names.toValue >>= fun value ↦ pure (.ofText? caller :: value :: rest'))
      Correspondence.AgreeAll :=
    .bind (.newArray (corresponds.texts [names.label, names.qualifier]))
      fun wider _ _ hwithin hnames ↦
        .pure (.cons (hwithin _ _ hcaller) (.cons hnames (hrest.imp hwithin)))
  exact hbind

/-- Corresponding answers both mean that the test passes, or neither does. -/
theorem TestCall.outcome_passAlike {store other : Store}
    (corresponds : Corresponds base store other same) (call call' : TestCall)
    {answer answer' : Value} (hanswer : same answer answer') :
    PassAlike same (call.outcome store answer) (call'.outcome other answer') := by
  cases corresponds.sameTop hanswer with
  | array | arguments | object => exact .error _ _
  | leaf simple =>
    cases answer with
    | bool value =>
      cases value with
      | true => exact .ok
      | false => exact .error _ _
    | array => cases simple
    | _ => exact .error _ _

/-- A uniform test passes in both of two corresponding calls or in neither. -/
theorem Function.runTest_inStep_of_same {test : Function} (uniform : test.IsUniform host base)
    {call call' : TestCall} (hcall : TestCall.Same same call call') :
    InStep base same (test.runTest host call) (test.runTest host call') PassAlike := by
  refine .bind (TestCall.toArguments_inStep hcall) fun wider arguments arguments' _ hagree ↦ ?_
  have hcalled : SameCalls wider [.called test arguments] [.called test arguments'] := by
    cases hagree with
    | nil => exact .cons (.function test) .nil
    | cons => exact .nil
  have happly : InStep base wider (test.apply host arguments) (test.apply host arguments')
      Correspondence.Agree :=
    .bind (.record hcalled) fun _ _ _ hwithin _ ↦
      test.answer_inStep host uniform _ _ _ (hagree.imp hwithin)
  refine .bind happly fun _ answer answer' _ hanswer ↦ ?_
  refine .bind .store fun _ _ _ hwithin corresponds ↦ ?_
  exact .pure (TestCall.outcome_passAlike corresponds call call' (hwithin _ _ hanswer))

/-- Rules that correspond have the same names. -/
theorem SimpleRule.names_eq_of_same {store other : Store} {rule rule' : Value}
    {simple simple' : SimpleRule} (corresponds : Corresponds base store other same)
    (hsame : same rule rule') (decoded : Shape.ofValue store rule = .simple simple)
    (decoded' : Shape.ofValue other rule' = .simple simple') : simple.names = simple'.names := by
  obtain ⟨ref, first, names, subject, target, options, rfl, hitems, hnames, rfl⟩ :=
    Shape.exists_of_ofValue_simple decoded
  obtain ⟨ref', first', names', subject', target', options', rfl, hitems', hnames', rfl⟩ :=
    Shape.exists_of_ofValue_simple decoded'
  have hfirst : same first first' := by
    have hrow := corresponds.items hsame
    rw [hitems, hitems'] at hrow
    exact (List.forall₂_cons.1 hrow).1
  have hsame_names : names = names' :=
    Option.some.inj (hnames.symm.trans ((corresponds.names_eq hfirst).trans hnames'))
  rw [ofParts, ofParts, (given_foldl_takeOption _ options).1, (given_foldl_takeOption _ options').1]
  exact hsame_names

/-- A simple rule with a uniform test passes in both of two evaluations or in neither. -/
theorem SimpleRule.Alike.evaluate_inStep_of_names {rule rule' : SimpleRule}
    (alike : rule.Alike same rule') (names : rule.names = rule'.names)
    (uniform : rule.testFunction.IsUniform host base) (caller : Option String) :
    InStep base same (rule.evaluate host caller) (rule'.evaluate host caller) PassAlike := by
  have htest : rule'.testFunction = rule.testFunction :=
    congrArg (·.getD .kindTest) alike.test.symm
  refine alike.evaluate_inStep_of_calls ?_
  intro wider subject subject' target target' each each' of of' _ hsubject htarget heach hof
  rw [htest]
  exact Function.runTest_inStep_of_same uniform ⟨rfl, names, hsubject, htarget, heach, hof⟩

end Tests

/-- What a rule of the shape calls by itself is uniform. -/
def Shape.CallsUniform (host : Host σ) (base : Store) : Shape → Prop
  | .function callee => callee.IsUniform host base
  | .simple rule => rule.testFunction.IsUniform host base
  | _ => True

def Visit.CallsUniform (host : Host σ) (base : Store) (visit : Visit σ) : Prop :=
  ∀ shape, visit.finding.shape? = some shape → shape.CallsUniform host base

section Tandem

variable {base : Store} {same : Correspondence} {host : Host σ} {options : Options}
  {caller : Option String}

/-- Rules that correspond are visited in tandem, and open rules that correspond. -/
theorem Pending.visit_tandem_of_same (pending pending' : Pending) {world world' : World σ}
    (corresponds : Corresponds base world.store world'.store same)
    (related : Related same pending pending')
    (uniform : (pending.visit host options caller world).CallsUniform host base) :
    ∃ wider, Tandem base same wider world (pending.visit host options caller world).after
        world' (pending'.visit host options caller world').after ∧
      Opens wider (pending.visit host options caller world).finding.next
        (pending'.visit host options caller world').finding.next := by
  obtain ⟨depth, rule⟩ := pending
  obtain ⟨depth', rule'⟩ := pending'
  obtain ⟨rfl, hsame⟩ := related
  have halike := Rule.alike_of_same corresponds (.refl same) hsame
  have sameTop (rule rule' : Value) (hsame : same rule rule') := corresponds.sameTop hsame
  have hcheck := Rule.check_eq_ok_congr corresponds halike sameTop
  have hshape := Shape.alike_ofValue corresponds halike sameTop
  refine visit_tandem_of_enter depth corresponds hcheck (fun _ ↦ .error) fun decoded ↦ ?_
  have huniform := uniform _ decoded
  refine Shape.enter_inStep_of id hshape ?_ ?_ rule rule'
  · intro callee hcallee
    rwa [hcallee] at huniform
  · intro simple simple' hsimple hsimple' hrules
    rw [hsimple] at huniform
    have hnames := SimpleRule.names_eq_of_same corresponds hsame hsimple hsimple'
    exact hrules.evaluate_inStep_of_names hnames huniform caller

/-- Walks through rules that correspond go in tandem, and pass alike. -/
theorem Walk.tandem_of_same {agenda agenda' : List Pending} {world final world' final' : World σ}
    {visits visits' : List (Visit σ)} {outcome outcome' : Outcome}
    (walk : Walk host options caller agenda world visits outcome final)
    (walk' : Walk host options caller agenda' world' visits' outcome' final')
    (corresponds : Corresponds base world.store world'.store same)
    (waiting : List.Forall₂ (Pending.Related same) agenda agenda')
    (uniform : ∀ visit ∈ visits, visit.CallsUniform host base) :
    ∃ wider, Tandem base same wider world final world' final' ∧
      PassAlike wider outcome outcome' :=
  walk.tandem_of_visits id (fun within hsame ↦ within _ _ hsame) walk'
    (fun _ pending pending' _ _ mem corresponds related ↦
      pending.visit_tandem_of_same pending' corresponds related (uniform _ mem))
    corresponds waiting

end Tandem

structure Host.IsUniform (host : Host σ) (base : Store) : Prop where
  call : ∀ code same arguments arguments', Correspondence.AgreeAll same arguments arguments' →
    HostInStep base same (host.call code arguments) (host.call code arguments') Correspondence.Agree
  judge : ∀ code same subject subject' target target', same subject subject' →
    same target target' → HostInStep base same (host.judge code subject target)
      (host.judge code subject' target') Correspondence.Agree
  test : ∀ code same call call', TestCall.Same same call call' →
    HostInStep base same (host.test code call) (host.test code call') TestOutcome.Same

namespace Host.IsUniform

variable {host : Host σ} {base : Store}

theorem predicate (uniform : host.IsUniform base) (predicate : Predicate) :
    predicate.IsUniform host base := by
  cases predicate with
  | host code => exact uniform.judge code
  | _ => trivial

mutual

/-- Whatever is made from uniform code is uniform. -/
theorem function (uniform : host.IsUniform base) : (function : Function) →
    function.IsUniform host base
  | .host code _ => by
      rw [Function.IsUniform]
      exact uniform.call code
  | .typed code _ => by
      rw [Function.IsUniform]
      exact uniform.test code
  | .made _ _ predicate clauses => by
      rw [Function.IsUniform]
      exact ⟨uniform.predicate predicate, uniform.clauses clauses⟩
  | .kindName => by
      rw [Function.IsUniform]
      trivial

theorem clauses (uniform : host.IsUniform base) : (clauses : Clauses) →
    clauses.IsUniform host base
  | .should _ => by
      rw [Clauses.IsUniform]
      trivial
  | .thenText clauses _ => by
      rw [Clauses.IsUniform]
      exact uniform.clauses clauses
  | .thenComputed clauses function => by
      rw [Clauses.IsUniform]
      exact ⟨uniform.clauses clauses, uniform.function function⟩

end

end Host.IsUniform

section Repetition

variable (host : Host σ) (engine : Engine) (label : Option String) (world : World σ)

/-- Whatever the limit is, all that the check of the rule calls is uniform. -/
def Engine.IsRepeatable (rule : Value) : Prop :=
  ∀ limit visits outcome final,
    Walk host (engine.withMaxDepth limit).options label [⟨0, rule⟩] world visits outcome final →
      ∀ visit ∈ visits, visit.CallsUniform host world.store

def Engine.PassesWithin (limit : Nat) (rule : Value) : Prop :=
  ((engine.withMaxDepth limit).check host label rule world).1 = .ok ()

variable {host engine label world}

theorem Engine.passesWithin_iff {limit : Nat} {rule : Value} :
    engine.PassesWithin host label world limit rule ↔
      (evaluateRule host (engine.withMaxDepth limit).options label (limit + 1) 0 rule world).1 =
        .ok () := by
  rw [PassesWithin, check_apply]
  exact Iff.rfl

/-- Under a host of which all code is uniform, every check can be repeated. -/
theorem Engine.isRepeatable_of_isUniform (uniform : host.IsUniform world.store) (rule : Value) :
    engine.IsRepeatable host label world rule := by
  intro limit visits outcome final walk visit mem shape decoded
  cases shape with
  | function callee => exact uniform.function callee
  | simple rule => exact uniform.function rule.testFunction
  | _ => trivial

/-- Two checks of a rule that correspond pass alike, without their closing events, and the later one
only adds to what there was at first. -/
theorem evaluateRule_again {rule : Value} (closed : world.store.Closed)
    (held : world.store.Holds rule) (repeatable : engine.IsRepeatable host label world rule)
    (limit : Nat) {later : World σ} (le : world.store ≤ later.store) :
    let evaluate := evaluateRule host (engine.withMaxDepth limit).options label (limit + 1) 0 rule
    world.store ≤ (evaluate later).2.store ∧
      ((evaluate world).1 = .ok () ↔ (evaluate later).1 = .ok ()) := by
  have hroom : limit + 1 + 0 = (engine.withMaxDepth limit).options.maxDepth + 1 := rfl
  intro evaluate
  have hwalk (start : World σ) : ∃ visits, Walk host (engine.withMaxDepth limit).options label
      [⟨0, rule⟩] start visits (evaluate start).1 (evaluate start).2 :=
    walk_evaluateRule hroom rule start
  clear_value evaluate
  obtain ⟨visits, hnow⟩ := hwalk world
  obtain ⟨visits', hlater⟩ := hwalk later
  have hcorresponds := (Corresponds.self closed).of_le (le_refl world.store) le
  obtain ⟨wider, htandem, hpass⟩ := hnow.tandem_of_same hlater hcorresponds
    (.cons ⟨rfl, held, rfl⟩ .nil) (repeatable limit visits _ _ hnow)
  exact ⟨htandem.corresponds.le_other, hpass.iff⟩

/-- An evaluation that can be repeated passes later, and at another depth, if it passes now with as
much room, and the store only grows in it. -/
theorem evaluateRule_later {rule : Value} (closed : world.store.Closed)
    (held : world.store.Holds rule) (repeatable : engine.IsRepeatable host label world rule)
    {options : Options} (production : engine.options.production = options.production)
    (limit depth : Nat) {later : World σ} (le : world.store ≤ later.store) :
    world.store ≤ (evaluateRule host options label (limit + 1) depth rule later).2.store ∧
      ((evaluateRule host options label (limit + 1) depth rule later).1 = .ok () ↔
        engine.PassesWithin host label world limit rule) := by
  obtain ⟨hle, hpass⟩ := evaluateRule_again closed held repeatable limit le
  have hproduction : (engine.withMaxDepth limit).options.production = options.production :=
    production
  have habreast : Abreast
      (evaluateRule host (engine.withMaxDepth limit).options label (limit + 1) 0 rule)
      (evaluateRule host options label (limit + 1) depth rule)
      (Outcome.SameButLimit (engine.withMaxDepth limit).options options) :=
    evaluateRule_abreast hproduction (limit + 1) 0 depth rule
  obtain ⟨hcourse, hagree⟩ := habreast later later rfl rfl
  refine ⟨?_, ?_⟩
  · rw [← hcourse.store]
    exact hle
  · rw [← hagree.ok_iff, ← hpass, Engine.passesWithin_iff]

end Repetition

end RuleCheck
