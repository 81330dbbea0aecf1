import RuleCheck.Proofs.DepthLimit
import RuleCheck.Proofs.OptionSlots
import RuleCheck.Proofs.SameCourse
import RuleCheck.Rule.Builder

/-!
# Wrapped rules

A rule may stand alone in a list, be answered by a function, or follow a condition that holds. A
wrapper costs depth, one level or two, and otherwise the rule does what it does by itself: it passes
or fails alike, and calls the same functions with the same arguments in the same order.

A list of one rule is not decoded as a list if the rule is a value that gives names. Then the list
is refused, but so is the rule, and nothing is called for either of them.
-/

namespace RuleCheck

variable {σ : Type}

/-- From two worlds, two evaluations both pass or both fail, and take the same course. -/
structure SameResult (world : World σ) (result : Outcome × World σ) (world' : World σ)
    (result' : Outcome × World σ) : Prop where
  passes_iff : result.1 = .ok () ↔ result'.1 = .ok ()
  course : SameCourse world result.2 world' result'.2

namespace SameResult

variable {world world' middle : World σ} {result result' : Outcome × World σ}

theorem of_calls_right (same : SameResult world result middle result')
    (calls : middle.calls = world'.calls) : SameResult world result world' result' :=
  ⟨same.passes_iff, (same.course.symm.of_calls_left calls).symm⟩

theorem of_abreast {run run' : Run σ Outcome} {options options' : Options}
    (abreast : Abreast run run' (Outcome.SameButLimit options options'))
    (store : world.store = world'.store) (host : world.host = world'.host) :
    SameResult world (run world) world' (run' world') := by
  obtain ⟨hcourse, hagree⟩ := abreast world world' store host
  exact ⟨hagree.ok_iff, hcourse⟩

end SameResult

section Levels

variable {host : Host σ} {options options' : Options} {caller : Option String}
  {world world' : World σ} {rule : Value}

/-- A rule of a valid form is decoded and noticed, and then does what its shape does. -/
theorem evaluateRule_of_valid (room depth : Nat)
    (valid : Rule.check world.store rule = .ok ()) :
    evaluateRule host options caller (room + 1) depth rule world =
      let shape := Shape.ofValue world.store rule
      shape.evaluate host caller (evaluateRule host options caller room (depth + 1)) rule
        (Pending.noticed ⟨depth, rule⟩ world shape) := by
  have hform : options.checkForm rule world = (.ok (), world) := by
    rw [Options.checkForm_apply, valid]
    exact ite_self _
  rw [evaluateRule, Run.bind_apply, hform]
  rfl

/-- A notice is no call. -/
theorem Pending.calls_noticed (pending : Pending) (world : World σ) (shape : Shape) :
    (pending.noticed world shape).calls = world.calls := by
  have hsilent : (Event.evaluating shape.name pending.depth).isCall = false := rfl
  exact world.calls_record hsilent

def FailsIdly (world : World σ) (result : Outcome × World σ) : Prop :=
  result.1 ≠ .ok () ∧ SameCourse world result.2 world world

theorem FailsIdly.sameResult {result result' : Outcome × World σ} (fails : FailsIdly world result)
    (fails' : FailsIdly world' result') (store : world.store = world'.store)
    (host : world.host = world'.host) : SameResult world result world' result' where
  passes_iff := iff_of_false fails.1 fails'.1
  course := fails.2.congr (.congr (.of_calls_eq store host rfl rfl) fails'.2.symm)

/-- What has no valid form and cannot be decoded fails either way, and calls nothing. -/
theorem failsIdly_of_malformed {fault : RuleFault} (room depth : Nat)
    (malformed : Shape.ofValue world.store rule = .malformed)
    (invalid : Rule.check world.store rule = .error fault)
    (fresh : (fault.diagnostic world.store).2 = world.store) :
    FailsIdly world (evaluateRule host options caller (room + 1) depth rule world) := by
  have hfails (failure : Failure) : (.error failure : Outcome) ≠ .ok () := by simp
  rw [evaluateRule, Run.bind_apply, Options.checkForm_apply, invalid]
  cases options.production with
  | true =>
    simp only [if_true, Run.bind_apply, Run.store_apply, malformed]
    exact ⟨hfails _,
      .of_calls_eq rfl rfl (Pending.calls_noticed ⟨depth, rule⟩ world .malformed) rfl⟩
  | false => exact ⟨hfails _, .of_calls_eq fresh rfl rfl rfl⟩

/-- What gives names is no rule, and neither is a list of it. -/
theorem failsIdly_of_names {names : Names} (room depth : Nat)
    (named : Names.ofValue? world.store rule = some names) :
    FailsIdly world (evaluateRule host options caller (room + 1) depth rule world) := by
  cases rule with
  | text label => exact failsIdly_of_malformed room depth rfl rfl rfl
  | array ref =>
    rw [Names.ofValue?] at named
    split at named
    · next label qualifier hitems =>
      have hlabel : Names.ofValue? world.store (.text label) = some ⟨label, ""⟩ := rfl
      obtain ⟨hshape, hcheck⟩ := Shape.ofValue_of_short hitems hlabel (by simp)
      exact failsIdly_of_malformed room depth hshape hcheck rfl
    · cases named
  | _ => cases named

/-- A list of one rule does at its own depth what the rule does at the next. -/
theorem evaluateRule_singleton {ref : ListRef}
    (production : options.production = options'.production) (room depth depth' : Nat)
    (store : world.store = world'.store) (host_eq : world.host = world'.host)
    (items : world'.store.items ref = [rule]) :
    SameResult world (evaluateRule host options caller (room + 1) depth rule world)
      world' (evaluateRule host options' caller (room + 2) depth' (.array ref) world') := by
  cases hnames : Names.ofValue? world'.store rule with
  | none =>
    have hshape : Shape.ofValue world'.store (.array ref) = .list [rule] := by
      simp [Shape.ofValue, items, Shape.ofItems, Shape.ofMembers, hnames]
    have hvalid : Rule.check world'.store (.array ref) = .ok () := by
      simp [Rule.check, items, Names.isNames, hnames]
    rw [evaluateRule_of_valid (room + 1) depth' hvalid, hshape]
    simp only [Shape.evaluate, allPass_singleton]
    refine SameResult.of_calls_right ?_
      (Pending.calls_noticed ⟨depth', .array ref⟩ world' (.list [rule]))
    exact .of_abreast (evaluateRule_abreast production (room + 1) depth (depth' + 1) rule) store
      host_eq
  | some names =>
    have hshort := Shape.ofValue_of_short items hnames (by simp)
    refine (failsIdly_of_names room depth (store.symm ▸ hnames)).sameResult ?_ store host_eq
    exact failsIdly_of_malformed (room + 1) depth' hshort.1 hshort.2 rfl

/-- A function does at its own depth what its answer does at the next, from where the call has
led. -/
theorem evaluateRule_thunk {thunk : Function} {start : World σ}
    (production : options.production = options'.production) (room depth depth' : Nat)
    (answers : (thunk.apply host [] start).1 = rule)
    (store : world.store = (thunk.apply host [] start).2.store)
    (host_eq : world.host = (thunk.apply host [] start).2.host) :
    SameResult world (evaluateRule host options caller room depth rule world)
      (thunk.apply host [] start).2
      (evaluateRule host options' caller (room + 1) depth' (.function thunk) start) := by
  rw [evaluateRule_of_valid room depth' rfl]
  simp only [Shape.ofValue, Shape.evaluate, Run.bind_apply]
  -- The notice before the call leaves no trace in the calls.
  obtain ⟨hcourse, hanswer⟩ := thunk.apply_abreast host []
    (Pending.noticed ⟨depth', .function thunk⟩ start (.function thunk)) start rfl rfl
  obtain ⟨hstore, hhost, made, hcalls, hcalls'⟩ := hcourse
  rw [Pending.calls_noticed] at hcalls
  rw [hanswer, answers]
  refine SameResult.of_calls_right ?_ (hcalls.trans hcalls'.symm)
  exact .of_abreast (evaluateRule_abreast production room depth (depth' + 1) rule)
    (store.trans hstore.symm) (host_eq.trans hhost.symm)

/-- A guard does at its own depth what the rules that it guards do at the next, if its condition
holds. -/
theorem evaluateRule_guard {ref inner : ListRef} (room depth : Nat) (condition : Bool)
    (items : world.store.items ref = [.bool condition, .array inner]) :
    evaluateRule host options caller (room + 1) depth (.array ref) world =
      let start := Pending.noticed ⟨depth, .array ref⟩ world (.guard condition (.array inner))
      if condition then evaluateRule host options caller room (depth + 1) (.array inner) start
      else (.ok (), start) := by
  have hshape : Shape.ofValue world.store (.array ref) = .guard condition (.array inner) := by
    rw [Shape.ofValue, items, Shape.ofItems]
  have hvalid : Rule.check world.store (.array ref) = .ok () := by
    simp [Rule.check, items, Names.isNames, Names.ofValue?]
  rw [evaluateRule_of_valid room depth hvalid, hshape]
  cases condition <;> rfl

end Levels

namespace Engine

theorem calls_close (label : Option String) (outcome : Outcome) (world : World σ) :
    (close label outcome world).calls = world.calls := by
  rcases outcome with (_ | diagnostic) | _
  · exact world.calls_record rfl
  · exact world.calls_record rfl
  · rfl

theorem host_close (label : Option String) (outcome : Outcome) (world : World σ) :
    (close label outcome world).host = world.host := by
  rw [close]
  cases closingEvent? world.store label outcome <;> rfl

end Engine

section Checks

variable {host : Host σ} {engine : Engine} {label : Option String} {limit : Nat} {rule : Value}
  {world : World σ}

/-- Evaluations that come to the same make checks that come to the same. -/
theorem SameResult.check {rule' : Value} {world' start : World σ} {limit' : Nat}
    (same : SameResult world
      (evaluateRule host (engine.withMaxDepth limit).options label (limit + 1) 0 rule world)
      world'
      (evaluateRule host (engine.withMaxDepth limit').options label (limit' + 1) 0 rule' start)) :
    SameResult world ((engine.withMaxDepth limit).check host label rule world)
      world' ((engine.withMaxDepth limit').check host label rule' start) := by
  obtain ⟨hpasses, hstore, hhost, made, hcalls, hcalls'⟩ := same
  rw [Engine.check_apply, Engine.check_apply]
  refine ⟨hpasses, ?_, ?_, made, ?_, ?_⟩
  · rw [Engine.store_close, Engine.store_close]
    exact hstore
  · rw [Engine.host_close, Engine.host_close]
    exact hhost
  · rw [Engine.calls_close]
    exact hcalls
  · rw [Engine.calls_close]
    exact hcalls'

theorem check_singleton {ref : ListRef} (items : world.store.items ref = [rule]) :
    SameResult world ((engine.withMaxDepth limit).check host label rule world)
      world ((engine.withMaxDepth (limit + 1)).check host label (.array ref) world) := by
  refine .check (evaluateRule_singleton ?_ limit 0 0 ?_ ?_ items) <;> rfl

theorem check_thunk {thunk : Function} {start : World σ}
    (answers : (thunk.apply host [] start).1 = rule)
    (store : world.store = (thunk.apply host [] start).2.store)
    (host_eq : world.host = (thunk.apply host [] start).2.host) :
    SameResult world ((engine.withMaxDepth limit).check host label rule world)
      (thunk.apply host [] start).2
      ((engine.withMaxDepth (limit + 1)).check host label (.function thunk) start) := by
  refine .check (evaluateRule_thunk ?_ (limit + 1) 0 0 answers store host_eq)
  rfl

theorem check_guard {ref inner : ListRef}
    (items : world.store.items ref = [.bool true, .array inner])
    (inner_items : world.store.items inner = [rule]) :
    SameResult world ((engine.withMaxDepth limit).check host label rule world)
      world ((engine.withMaxDepth (limit + 2)).check host label (.array ref) world) := by
  refine .check ?_
  rw [evaluateRule_guard _ _ _ items]
  refine SameResult.of_calls_right ?_
    (Pending.calls_noticed ⟨0, .array ref⟩ world (.guard true (.array inner)))
  refine evaluateRule_singleton ?_ limit 0 1 ?_ ?_ inner_items <;> rfl

/-- Under a condition that does not hold nothing is done. -/
theorem check_guard_false {ref inner : ListRef}
    (items : world.store.items ref = [.bool false, .array inner]) :
    let result := (engine.withMaxDepth limit).check host label (.array ref) world
    result.1 = .ok () ∧ SameCourse world result.2 world world := by
  rw [Engine.check_apply, evaluateRule_guard _ _ _ items]
  refine ⟨rfl, .of_calls_eq rfl rfl ?_ rfl⟩
  exact Pending.calls_noticed ⟨0, .array ref⟩ world (.guard false (.array inner))

end Checks

section Wrappers

variable (host : Host σ) (engine : Engine) (label : Option String) (limit : Nat) (rule : Value)
  (world : World σ)

/-- What a rule, a limit and a world have to do with wrappers of the rule under larger limits. A
list or a function costs one level, a condition or an optional value two. -/
structure CostsDepth : Prop where
  list : ∀ ref, world.store.items ref = [rule] →
    SameResult world ((engine.withMaxDepth limit).check host label rule world)
      world ((engine.withMaxDepth (limit + 1)).check host label (.array ref) world)
  thunk : ∀ (thunk : Function) (start : World σ),
    let answered := thunk.apply host [] start
    answered.1 = rule → answered.2.store = world.store → answered.2.host = world.host →
      SameResult world ((engine.withMaxDepth limit).check host label rule world)
        answered.2 ((engine.withMaxDepth (limit + 1)).check host label (.function thunk) start)
  guard : ∀ ref inner, world.store.items ref = [.bool true, .array inner] →
    world.store.items inner = [rule] →
      SameResult world ((engine.withMaxDepth limit).check host label rule world)
        world ((engine.withMaxDepth (limit + 2)).check host label (.array ref) world)
  absent :
    let built := (Run.onStore (Rule.optional .undefined rule) : Run σ Value) world
    let result := (engine.withMaxDepth limit).check host label built.1 built.2
    result.1 = .ok () ∧ SameCourse built.2 result.2 built.2 built.2
  present : ∀ value, value ≠ .undefined →
    let built := (Run.onStore (Rule.optional value rule) : Run σ Value) world
    SameResult built.2 ((engine.withMaxDepth limit).check host label rule built.2)
      built.2 ((engine.withMaxDepth (limit + 2)).check host label built.1 built.2)

end Wrappers

/-- The rule for an optional value is a list of the rule after the condition that there is a
value. -/
theorem Rule.exists_optional (value rule : Value) (world : World σ) : ∃ ref inner later,
    (Run.onStore (Rule.optional value rule) : Run σ Value) world =
        (.array ref, { world with store := later }) ∧
      later.items ref = [.bool (!value.isUndefined), .array inner] ∧
      later.items inner = [rule] := by
  let rules := Store.addList [rule] world.store
  let guard := Store.addList [.bool (!value.isUndefined), .array rules.1] rules.2
  have hkept : guard.2.items rules.1 = rules.2.items rules.1 :=
    Store.items_addList_of_lt _ (by simp [rules, Store.addList])
  exact ⟨guard.1, rules.1, guard.2, rfl, Store.items_addList_self _ _,
    hkept.trans (Store.items_addList_self _ _)⟩

/-- Wrappers of a rule cost depth and nothing else. -/
theorem wrapped_rule (host : Host σ) (engine : Engine) (label : Option String) (limit : Nat)
    (rule : Value) (world : World σ) : CostsDepth host engine label limit rule world where
  list ref items := check_singleton items
  thunk thunk start := by
    intro answered hanswer hstore hhost
    exact check_thunk hanswer hstore.symm hhost.symm
  guard ref inner items inner_items := check_guard items inner_items
  absent := by
    obtain ⟨ref, inner, later, hbuilt, hitems, -⟩ := Rule.exists_optional .undefined rule world
    rw [hbuilt]
    exact check_guard_false hitems
  present value present := by
    obtain ⟨ref, inner, later, hbuilt, hitems, hinner⟩ := Rule.exists_optional value rule world
    have hcondition : (!value.isUndefined) = true := by
      cases value <;> first | rfl | exact absurd rfl present
    rw [hcondition] at hitems
    rw [hbuilt]
    exact check_guard hitems hinner

/-- A function that is called within a limit of one level, in all wrappers. -/
theorem wrapped_rule_called :
    let rule : Value := .function (.host 0 "ready")
    let host : Host Unit :=
      ⟨fun code _ state ↦ (if code = 0 then .bool true else rule, state), fun _ _ _ state ↦
        (.bool true, state), fun _ _ state ↦ (.ok (), state), fun _ ↦ 0⟩
    let world : World Unit := ⟨⟨#[[rule], [.bool true, .array ⟨0⟩]], #[], 0⟩, (), #[]⟩
    let check (limit : Nat) (rule : Value) :=
      ((Engine.withMaxDepth {} limit).check host none rule world)
    (check 0 rule).1 ≠ .ok () ∧ (check 1 rule).1 = .ok () ∧
      SameResult world (check 1 rule) world (check 2 (.array ⟨0⟩)) ∧
      SameResult world (check 1 rule) ⟨world.store, (), #[.called (.host 1 "thunk") []]⟩
        (check 2 (.function (.host 1 "thunk"))) ∧
      SameResult world (check 1 rule) world (check 3 (.array ⟨1⟩)) := by
  intro rule host world check
  have hwrapped := wrapped_rule host {} none 1 rule world
  refine ⟨?_, rfl, ?_, ?_, ?_⟩
  · intro hpasses
    cases hpasses
  · exact hwrapped.list ⟨0⟩ rfl
  · exact hwrapped.thunk (.host 1 "thunk") world rfl rfl rfl
  · exact hwrapped.guard ⟨1⟩ ⟨0⟩ rfl rfl

end RuleCheck
