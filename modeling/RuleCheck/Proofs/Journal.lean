import RuleCheck.Engine

/-!
# What computations add to the journal

The journal only grows. What a call adds to it is bounded by the function that is called: a test
may ask a predicate, run a typed body or compute clauses, and each of these is handed arguments.
So an event that records a call without arguments always stands for a rule that was itself a
function. What a function of the host program does inside is not recorded.
-/

namespace RuleCheck

variable {σ α β : Type}

namespace Event

def isCall : Event → Bool
  | .called _ _ => true
  | .judged _ _ _ => true
  | .tested _ _ => true
  | _ => false

def isDispatch : Event → Bool
  | .evaluating _ _ => true
  | _ => false

/-- A step of an evaluation: a call, or a rule about to be evaluated. -/
def isStep (event : Event) : Bool :=
  event.isCall || event.isDispatch

def bareCall? : Event → Option Function
  | .called function [] => some function
  | _ => none

@[simp] theorem bareCall_evaluating (shape : ShapeName) (depth : Nat) :
    (evaluating shape depth).bareCall? = none := rfl

@[simp] theorem bareCall_called_nil (function : Function) :
    (called function []).bareCall? = some function := rfl

/-- A call that a test makes while it runs: of a predicate, of a typed body, or of a clause with the
compared value and the other one. -/
def isInner : Event → Bool
  | .called _ [_, _] => true
  | .judged _ _ _ => true
  | .tested _ _ => true
  | _ => false

def IsArgumentCall (event : Event) : Prop :=
  event.isCall = true ∧ event.bareCall? = none

theorem isArgumentCall_of_isInner {event : Event} (inner : event.isInner = true) :
    event.IsArgumentCall := by
  unfold isInner at inner
  split at inner
  · exact ⟨rfl, rfl⟩
  · exact ⟨rfl, rfl⟩
  · exact ⟨rfl, rfl⟩
  · simp at inner

end Event

def World.steps (world : World σ) : List Event :=
  world.journal.toList.filter Event.isStep

namespace Run

/-- A computation adds events of one sort to the journal and leaves the others there as they are. -/
def AddsOnly (allowed : Event → Prop) (run : Run σ α) : Prop :=
  ∀ world, ∃ added : List Event,
    (run world).2.journal.toList = world.journal.toList ++ added ∧ ∀ event ∈ added, allowed event

theorem bind_apply (first : Run σ α) (next : α → Run σ β) (world : World σ) :
    (first >>= next) world = next (first world).1 (first world).2 := rfl

theorem pure_apply (value : α) (world : World σ) :
    (pure value : Run σ α) world = (value, world) := rfl

theorem store_apply (world : World σ) :
    (Run.store : Run σ Store) world = (world.store, world) := rfl

theorem record_apply (event : Event) (world : World σ) :
    (Run.record event : Run σ Unit) world =
      ((), { world with journal := world.journal.push event }) := rfl

namespace AddsOnly

variable {allowed wider : Event → Prop}

/-- A computation that leaves the journal alone adds no event. -/
theorem of_journal_eq {run : Run σ α} (same : ∀ world, (run world).2.journal = world.journal) :
    AddsOnly allowed run := by
  intro world
  exact ⟨[], by simp [same world], by simp⟩

theorem pure (value : α) : AddsOnly allowed (Pure.pure value : Run σ α) :=
  of_journal_eq fun _ ↦ rfl

theorem store : AddsOnly allowed (Run.store : Run σ Store) :=
  of_journal_eq fun _ ↦ rfl

theorem onStore (action : StateM Store α) : AddsOnly allowed (Run.onStore action : Run σ α) :=
  of_journal_eq fun _ ↦ rfl

theorem onHost (action : StateM (Store × σ) α) : AddsOnly allowed (Run.onHost action) :=
  of_journal_eq fun _ ↦ rfl

theorem record {event : Event} (ok : allowed event) :
    AddsOnly allowed (Run.record event : Run σ Unit) := by
  intro world
  exact ⟨[event], by simp [record_apply], by simpa using ok⟩

theorem bind {first : Run σ α} {next : α → Run σ β} (hfirst : AddsOnly allowed first)
    (hnext : ∀ value, AddsOnly allowed (next value)) : AddsOnly allowed (first >>= next) := by
  intro world
  obtain ⟨before, hbefore, hallowed⟩ := hfirst world
  obtain ⟨after, hafter, hallowed'⟩ := hnext (first world).1 (first world).2
  refine ⟨before ++ after, ?_, ?_⟩
  · rw [bind_apply, hafter, hbefore, List.append_assoc]
  · intro event hevent
    rcases List.mem_append.1 hevent with hevent | hevent
    · exact hallowed event hevent
    · exact hallowed' event hevent

theorem mono {run : Run σ α} (adds : AddsOnly allowed run)
    (weaker : ∀ event, allowed event → wider event) : AddsOnly wider run := by
  intro world
  obtain ⟨added, happend, hallowed⟩ := adds world
  exact ⟨added, happend, fun event hevent ↦ weaker event (hallowed event hevent)⟩

end AddsOnly

end Run

/-- The record of what is not a step leaves the steps as they are. -/
theorem World.steps_record {event : Event} (idle : event.isStep = false) (world : World σ) :
    (Run.record event world).2.steps = world.steps := by
  have hnone : [event].filter Event.isStep = [] := by simp [idle]
  rw [steps, Run.record_apply, Array.toList_push, List.filter_append, hnone, List.append_nil]
  rfl

open Run (AddsOnly)

theorem Predicate.answer_addsOnly (host : Host σ) (predicate : Predicate) (subject target : Value)
    (allowed : Event → Prop) : AddsOnly allowed (predicate.answer host subject target) := by
  cases predicate with
  | kind => exact .pure _
  | equal => exact .bind .store fun _ ↦ .pure _
  | notEqual => exact .bind .store fun _ ↦ .pure _
  | range => exact .onStore _
  | pattern => exact .onStore _
  | host code => exact .onHost _

theorem Predicate.ask_addsOnly (host : Host σ) (predicate : Predicate) (subject target : Value) :
    AddsOnly (·.isInner = true) (predicate.ask host subject target) :=
  .bind (.record rfl) fun _ ↦ predicate.answer_addsOnly host subject target _

mutual

/-- What a function does by itself is calls that hand on arguments. -/
theorem Function.answer_addsOnly (host : Host σ) : (function : Function) → (arguments : List Value) →
    AddsOnly (·.isInner = true) (function.answer host arguments)
  | .host code name, arguments => by
      rw [Function.answer]
      exact .onHost _
  | .typed code name, arguments => by
      rw [Function.answer]
      exact .bind .store fun _ ↦ .bind (.record rfl) fun _ ↦ .bind (.onHost _) fun _ ↦ .onStore _
  | .made serial name predicate clauses, arguments => by
      rw [Function.answer]
      refine .bind .store fun _ ↦ .bind (predicate.ask_addsOnly host _ _) fun answer ↦ ?_
      split
      · exact .pure _
      · exact .bind .store fun _ ↦ .onStore _
      · exact .bind (clauses.finalFragments_addsOnly host _ _) fun _ ↦ .onStore _
  | .kindName, arguments => by
      rw [Function.answer]
      exact .pure _

/-- Final clauses are computed by calls with two arguments. -/
theorem Clauses.finalFragments_addsOnly (host : Host σ) : (clauses : Clauses) →
    (subject target : Value) →
    AddsOnly (·.isInner = true) (clauses.finalFragments host subject target)
  | .should text, subject, target => by
      rw [Clauses.finalFragments]
      exact .pure _
  | .thenText clauses text, subject, target => by
      rw [Clauses.finalFragments]
      exact .bind (clauses.finalFragments_addsOnly host subject target) fun _ ↦ .pure _
  | .thenComputed clauses function, subject, target => by
      rw [Clauses.finalFragments]
      exact .bind (clauses.finalFragments_addsOnly host subject target) fun _ ↦
        .bind (.record rfl) fun _ ↦ .bind (function.answer_addsOnly host _) fun _ ↦ .pure _

end

/-- A call records itself first, and then what the function does by itself. -/
theorem Function.apply_journal (host : Host σ) (function : Function) (arguments : List Value)
    (world : World σ) : ∃ inner : List Event,
      (function.apply host arguments world).2.journal.toList =
        world.journal.toList ++ .called function arguments :: inner ∧
      ∀ event ∈ inner, event.isInner = true := by
  obtain ⟨inner, happend, hinner⟩ := function.answer_addsOnly host arguments
    (Run.record (.called function arguments) world).2
  refine ⟨inner, ?_, hinner⟩
  rw [Function.apply, Run.bind_apply, happend]
  simp [Run.record_apply]

theorem Function.runTest_addsOnly (host : Host σ) (function : Function) (call : TestCall) :
    AddsOnly Event.IsArgumentCall (function.runTest host call) := by
  have hanswer (arguments : List Value) :
      AddsOnly Event.IsArgumentCall (function.answer host arguments) :=
    (function.answer_addsOnly host arguments).mono fun _ ↦ Event.isArgumentCall_of_isInner
  intro world
  -- The arguments are known to be six only once they have been laid out, so this step is opened.
  have happly : AddsOnly Event.IsArgumentCall
      (function.apply host (Run.onStore call.toArguments world).1) :=
    .bind (.record ⟨rfl, rfl⟩) fun _ ↦ hanswer _
  have hrest := (AddsOnly.bind happly fun answer ↦ .bind .store fun store ↦
    .pure (call.outcome store answer)) (Run.onStore call.toArguments world).2
  exact hrest

namespace SimpleRule

variable {allowed : Event → Prop} {run : Value → Run σ TestOutcome}

theorem firstFailing_addsOnly (adds : ∀ value, AddsOnly allowed (run value))
    (values : List Value) : AddsOnly allowed (firstFailing run values) := by
  induction values with
  | nil => exact .pure _
  | cons value rest ih =>
    rw [firstFailing]
    refine .bind (adds value) fun outcome ↦ ?_
    cases outcome with
    | ok => exact ih
    | error diagnostic => exact .pure _

theorem firstPassing_addsOnly (adds : ∀ value, AddsOnly allowed (run value))
    (candidates : List Value) (last : Diagnostic) :
    AddsOnly allowed (firstPassing run last candidates) := by
  induction candidates generalizing last with
  | nil => exact .pure _
  | cons candidate rest ih =>
    rw [firstPassing]
    refine .bind (adds candidate) fun outcome ↦ ?_
    cases outcome with
    | ok => exact .pure _
    | error diagnostic => exact ih diagnostic

/-- Whatever its operator, a simple rule does nothing but calls with arguments. -/
theorem evaluate_addsOnly (host : Host σ) (caller : Option String) (rule : SimpleRule) :
    AddsOnly Event.IsArgumentCall (rule.evaluate host caller) := by
  have hrun (subject target : Value) (each of : Option Value) :
      AddsOnly Event.IsArgumentCall
        (rule.testFunction.runTest host (rule.callOf caller subject target each of)) :=
    rule.testFunction.runTest_addsOnly host _
  rw [evaluate]
  refine .bind .store fun store ↦ ?_
  cases hoperator : rule.operator with
  | none => exact hrun _ _ _ _
  | some operator =>
    cases operator with
    | each => exact firstFailing_addsOnly (fun item ↦ hrun _ _ _ _) _
    | oneOf =>
      dsimp only
      split
      · exact .pure _
      · exact firstPassing_addsOnly (fun candidate ↦ hrun _ _ _ _) _ _
    | eachOf =>
      dsimp only
      split
      · exact .pure _
      · split
        · exact .pure _
        · exact firstFailing_addsOnly (fun item ↦
            firstPassing_addsOnly (fun candidate ↦ hrun _ _ _ _) _ _) _

end SimpleRule

end RuleCheck
