import RuleCheck.Proofs.Journal

/-!
# Evaluations that take the same course

Nothing that runs reads the journal. So from two worlds that differ only in their journals a
function or a test comes to the same result, changes the store and the host in the same way, and
makes the same calls in the same order and with the same arguments.

The depth of a rule and the limit show in notices and in the refusal of what lies too deep, and
nowhere else. So evaluations of one rule at different depths and under different limits take the
same course, if there is room for equally many levels below.
-/

namespace RuleCheck

variable {σ α β : Type}

def World.calls (world : World σ) : List Event :=
  world.journal.toList.filter Event.isCall

/-- The record of what is no call leaves the calls as they are. -/
theorem World.calls_record {event : Event} (silent : event.isCall = false) (world : World σ) :
    (Run.record event world).2.calls = world.calls := by
  have hnone : [event].filter Event.isCall = [] := by simp [silent]
  rw [calls, Run.record_apply, Array.toList_push, List.filter_append, hnone, List.append_nil]
  rfl

/-- Two worlds, and what becomes of each: the same store and the same state of the host, by the same
calls. -/
structure SameCourse (world after world' after' : World σ) : Prop where
  store : after.store = after'.store
  host : after.host = after'.host
  calls : ∃ made, after.calls = world.calls ++ made ∧ after'.calls = world'.calls ++ made

namespace SameCourse

variable {world middle after world' middle' after' : World σ}

/-- Nothing is called. -/
theorem of_calls_eq (store : after.store = after'.store) (host : after.host = after'.host)
    (calls : after.calls = world.calls) (calls' : after'.calls = world'.calls) :
    SameCourse world after world' after' :=
  ⟨store, host, [], by rw [calls, List.append_nil], by rw [calls', List.append_nil]⟩

theorem trans (first : SameCourse world middle world' middle')
    (second : SameCourse middle after middle' after') : SameCourse world after world' after' := by
  obtain ⟨-, -, made, hmade, hmade'⟩ := first
  obtain ⟨hstore, hhost, more, hmore, hmore'⟩ := second
  refine ⟨hstore, hhost, made ++ more, ?_, ?_⟩
  · rw [hmore, hmade, List.append_assoc]
  · rw [hmore', hmade', List.append_assoc]

theorem symm (course : SameCourse world after world' after') :
    SameCourse world' after' world after := by
  obtain ⟨hstore, hhost, made, hmade, hmade'⟩ := course
  exact ⟨hstore.symm, hhost.symm, made, hmade', hmade⟩

/-- Two courses that are each the same as a third. -/
theorem congr (left : SameCourse world after middle middle')
    (right : SameCourse middle middle' world' after') : SameCourse world after world' after' := by
  obtain ⟨hstore, hhost, made, hmade, hmiddle⟩ := left
  obtain ⟨hstore', hhost', made', hmiddle', hmade'⟩ := right
  obtain rfl : made = made' := List.append_cancel_left (hmiddle.symm.trans hmiddle')
  exact ⟨hstore.trans hstore', hhost.trans hhost', made, hmade, hmade'⟩

/-- What was recorded before the calls does not matter, if it was no call itself. -/
theorem of_calls_left (course : SameCourse middle after world' after')
    (calls : middle.calls = world.calls) : SameCourse world after world' after' := by
  obtain ⟨hstore, hhost, made, hmade, hmade'⟩ := course
  exact ⟨hstore, hhost, made, by rw [hmade, calls], hmade'⟩

end SameCourse

/-- From worlds that differ only in their journals two computations take the same course, and their
results agree. -/
def Abreast (run run' : Run σ α) (agree : α → α → Prop) : Prop :=
  ∀ world world', world.store = world'.store → world.host = world'.host →
    SameCourse world (run world).2 world' (run' world').2 ∧ agree (run world).1 (run' world').1

namespace Abreast

variable {run run' : Run σ α} {agree : α → α → Prop} {agreeNext : β → β → Prop}

theorem pure {result result' : α} (agrees : agree result result') :
    Abreast (Pure.pure result : Run σ α) (Pure.pure result') agree :=
  fun _ _ hstore hhost ↦ ⟨.of_calls_eq hstore hhost rfl rfl, agrees⟩

theorem bind {next next' : α → Run σ β} (first : Abreast run run' agree)
    (second : ∀ result result', agree result result' →
      Abreast (next result) (next' result') agreeNext) :
    Abreast (run >>= next) (run' >>= next') agreeNext := by
  intro world world' hstore hhost
  obtain ⟨hcourse, hagree⟩ := first world world' hstore hhost
  obtain ⟨hcourse', hagree'⟩ := second _ _ hagree _ _ hcourse.store hcourse.host
  exact ⟨hcourse.trans hcourse', hagree'⟩

/-- Computations of which the first parts come to one result. -/
theorem bind_eq {next next' : α → Run σ β} (first : Abreast run run' Eq)
    (second : ∀ result, Abreast (next result) (next' result) agreeNext) :
    Abreast (run >>= next) (run' >>= next') agreeNext :=
  first.bind fun result _ same ↦ same ▸ second result

theorem store : Abreast (Run.store : Run σ Store) Run.store Eq :=
  fun _ _ hstore hhost ↦ ⟨.of_calls_eq hstore hhost rfl rfl, hstore⟩

/-- One event is recorded in both journals. -/
theorem record (event : Event) : Abreast (Run.record event : Run σ Unit) (Run.record event) Eq := by
  intro world world' hstore hhost
  refine ⟨⟨hstore, hhost, [event].filter Event.isCall, ?_, ?_⟩, rfl⟩
  · rw [World.calls, Run.record_apply, Array.toList_push, List.filter_append]
    rfl
  · rw [World.calls, Run.record_apply, Array.toList_push, List.filter_append]
    rfl

/-- The events that are recorded may differ if they are no calls. -/
theorem record_silent {event event' : Event} (silent : event.isCall = false)
    (silent' : event'.isCall = false) :
    Abreast (Run.record event : Run σ Unit) (Run.record event') Eq :=
  fun world world' hstore hhost ↦
    ⟨.of_calls_eq hstore hhost (world.calls_record silent) (world'.calls_record silent'), rfl⟩

theorem onStore (action : StateM Store α) :
    Abreast (Run.onStore action : Run σ α) (Run.onStore action) Eq := by
  intro world world' hstore hhost
  refine ⟨.of_calls_eq ?_ hhost rfl rfl, ?_⟩
  · exact congrArg (fun store ↦ (action store).2) hstore
  · exact congrArg (fun store ↦ (action store).1) hstore

theorem onHost (action : StateM (Store × σ) α) :
    Abreast (Run.onHost action) (Run.onHost action) Eq := by
  intro world world' hstore hhost
  have hstate : (world.store, world.host) = (world'.store, world'.host) := Prod.ext hstore hhost
  refine ⟨.of_calls_eq ?_ ?_ rfl rfl, ?_⟩
  · exact congrArg (fun state ↦ (action state).2.1) hstate
  · exact congrArg (fun state ↦ (action state).2.2) hstate
  · exact congrArg (fun state ↦ (action state).1) hstate

end Abreast

variable (host : Host σ)

namespace Predicate

theorem answer_abreast (predicate : Predicate) (subject target : Value) :
    Abreast (predicate.answer host subject target) (predicate.answer host subject target) Eq := by
  cases predicate with
  | kind => exact .pure rfl
  | equal => exact .bind_eq .store fun _ ↦ .pure rfl
  | notEqual => exact .bind_eq .store fun _ ↦ .pure rfl
  | range => exact .onStore _
  | pattern => exact .onStore _
  | host code => exact .onHost _

theorem ask_abreast (predicate : Predicate) (subject target : Value) :
    Abreast (predicate.ask host subject target) (predicate.ask host subject target) Eq :=
  .bind_eq (.record _) fun _ ↦ predicate.answer_abreast host subject target

end Predicate

mutual

/-- A function does not read the journal. -/
theorem Function.answer_abreast : (function : Function) → (arguments : List Value) →
    Abreast (function.answer host arguments) (function.answer host arguments) Eq
  | .host code name, arguments => by
      rw [Function.answer]
      exact .onHost _
  | .typed code name, arguments => by
      rw [Function.answer]
      exact .bind_eq .store fun _ ↦ .bind_eq (.record _) fun _ ↦
        .bind_eq (.onHost _) fun _ ↦ .onStore _
  | .made serial name predicate clauses, arguments => by
      rw [Function.answer]
      refine .bind_eq .store fun _ ↦ .bind_eq (predicate.ask_abreast host _ _) fun answer ↦ ?_
      split
      · exact .pure rfl
      · exact .bind_eq .store fun _ ↦ .onStore _
      · exact .bind_eq (clauses.finalFragments_abreast _ _) fun _ ↦ .onStore _
  | .kindName, arguments => by
      rw [Function.answer]
      exact .pure rfl

/-- Final clauses are computed without a look at the journal. -/
theorem Clauses.finalFragments_abreast : (clauses : Clauses) → (subject target : Value) →
    Abreast (clauses.finalFragments host subject target)
      (clauses.finalFragments host subject target) Eq
  | .should text, subject, target => by
      rw [Clauses.finalFragments]
      exact .pure rfl
  | .thenText clauses text, subject, target => by
      rw [Clauses.finalFragments]
      exact .bind_eq (clauses.finalFragments_abreast subject target) fun _ ↦ .pure rfl
  | .thenComputed clauses function, subject, target => by
      rw [Clauses.finalFragments]
      exact .bind_eq (clauses.finalFragments_abreast subject target) fun _ ↦
        .bind_eq (.record _) fun _ ↦
          .bind_eq (function.answer_abreast [subject, target]) fun _ ↦ .pure rfl

end

theorem Function.apply_abreast (function : Function) (arguments : List Value) :
    Abreast (function.apply host arguments) (function.apply host arguments) Eq :=
  .bind_eq (.record _) fun _ ↦ function.answer_abreast host arguments

theorem Function.runTest_abreast (function : Function) (call : TestCall) :
    Abreast (function.runTest host call) (function.runTest host call) Eq :=
  .bind_eq (.onStore _) fun arguments ↦ .bind_eq (function.apply_abreast host arguments) fun _ ↦
    .bind_eq .store fun _ ↦ .pure rfl

namespace SimpleRule

variable {run : Value → Run σ TestOutcome}

theorem firstFailing_abreast (hrun : ∀ value, Abreast (run value) (run value) Eq)
    (values : List Value) : Abreast (firstFailing run values) (firstFailing run values) Eq := by
  induction values with
  | nil => exact .pure rfl
  | cons value rest ih =>
    rw [firstFailing]
    refine .bind_eq (hrun value) fun outcome ↦ ?_
    cases outcome with
    | ok => exact ih
    | error diagnostic => exact .pure rfl

theorem firstPassing_abreast (hrun : ∀ value, Abreast (run value) (run value) Eq)
    (last : Diagnostic) (candidates : List Value) :
    Abreast (firstPassing run last candidates) (firstPassing run last candidates) Eq := by
  induction candidates generalizing last with
  | nil => exact .pure rfl
  | cons candidate rest ih =>
    rw [firstPassing]
    refine .bind_eq (hrun candidate) fun outcome ↦ ?_
    cases outcome with
    | ok => exact .pure rfl
    | error diagnostic => exact ih diagnostic

theorem evaluate_abreast (caller : Option String) (rule : SimpleRule) :
    Abreast (rule.evaluate host caller) (rule.evaluate host caller) Eq := by
  have hrun (subject target : Value) (each of : Option Value) :
      Abreast (rule.testFunction.runTest host (rule.callOf caller subject target each of))
        (rule.testFunction.runTest host (rule.callOf caller subject target each of)) Eq :=
    rule.testFunction.runTest_abreast host _
  rw [evaluate]
  refine .bind_eq .store fun store ↦ ?_
  dsimp only
  split
  · exact hrun _ _ _ _
  · exact firstFailing_abreast (fun item ↦ hrun _ _ _ _) _
  · split
    · exact .pure rfl
    · exact firstPassing_abreast (fun candidate ↦ hrun _ _ _ _) _ _
  · split
    · exact .pure rfl
    · split
      · exact .pure rfl
      · exact firstFailing_abreast (fun item ↦
          firstPassing_abreast (fun candidate ↦ hrun _ _ _ _) _ _) _

end SimpleRule

inductive Outcome.SameButLimit (options options' : Options) : Outcome → Outcome → Prop
  | same (outcome : Outcome) : SameButLimit options options' outcome outcome
  | tooDeep (rule : Value) : SameButLimit options options'
      (.error (.diagnosed (options.tooDeep rule))) (.error (.diagnosed (options'.tooDeep rule)))

section Evaluation

variable {host} {options options' : Options} {caller : Option String}

theorem Outcome.SameButLimit.ok_iff {outcome outcome' : Outcome}
    (agree : SameButLimit options options' outcome outcome') :
    outcome = .ok () ↔ outcome' = .ok () := by
  cases agree with
  | same => exact Iff.rfl
  | tooDeep => exact iff_of_false nofun nofun

theorem Options.checkForm_abreast (production : options.production = options'.production)
    (rule : Value) :
    Abreast (options.checkForm rule : Run σ Outcome) (options'.checkForm rule) Eq := by
  rw [checkForm, checkForm, production]
  split
  · exact .pure rfl
  · refine .bind_eq .store fun store ↦ ?_
    split
    · exact .pure rfl
    · exact .bind_eq (.onStore _) fun _ ↦ .pure rfl

section Below

variable {below below' : Value → Run σ Outcome}
  (hbelow : ∀ rule, Abreast (below rule) (below' rule) (Outcome.SameButLimit options options'))

include hbelow

theorem allPass_abreast (rules : List Value) :
    Abreast (allPass below rules) (allPass below' rules)
      (Outcome.SameButLimit options options') := by
  induction rules with
  | nil => exact .pure (.same _)
  | cons rule rest ih =>
    rw [allPass, allPass]
    refine (hbelow rule).bind fun outcome outcome' hagree ↦ ?_
    cases hagree with
    | same =>
      cases outcome with
      | ok => exact ih
      | error failure => exact .pure (.same _)
    | tooDeep => exact .pure (.tooDeep _)

theorem Shape.evaluate_abreast (rule : Value) (shape : Shape) :
    Abreast (shape.evaluate host caller below rule) (shape.evaluate host caller below' rule)
      (Outcome.SameButLimit options options') := by
  cases shape with
  | boolean outcome => cases outcome <;> exact .pure (.same _)
  | empty => exact .pure (.same _)
  | function callee => exact .bind_eq (callee.apply_abreast host []) hbelow
  | guard condition rules =>
    rw [evaluate, evaluate]
    split
    · exact hbelow rules
    · exact .pure (.same _)
  | list rules => exact allPass_abreast hbelow rules
  | simple rule =>
    rw [evaluate, evaluate]
    refine .bind_eq (rule.evaluate_abreast host caller) fun outcome ↦ ?_
    cases outcome <;> exact .pure (.same _)
  | malformed => exact .pure (.same _)

end Below

/-- With room for equally many levels it does not matter at which depth a rule is evaluated and what
the limit is. -/
theorem evaluateRule_abreast (production : options.production = options'.production)
    (room depth depth' : Nat) (rule : Value) :
    Abreast (evaluateRule host options caller room depth rule)
      (evaluateRule host options' caller room depth' rule)
      (Outcome.SameButLimit options options') := by
  induction room generalizing depth depth' rule with
  | zero => exact .pure (.tooDeep rule)
  | succ room ih =>
    rw [evaluateRule, evaluateRule]
    refine .bind_eq (Options.checkForm_abreast production rule) fun form ↦ ?_
    cases form with
    | error failure => exact .pure (.same _)
    | ok =>
      refine .bind_eq .store fun store ↦ .bind_eq (.record_silent rfl rfl) fun _ ↦ ?_
      exact Shape.evaluate_abreast (ih (depth + 1) (depth' + 1)) rule (Shape.ofValue store rule)

end Evaluation

end RuleCheck
