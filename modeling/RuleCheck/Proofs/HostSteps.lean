import RuleCheck.Proofs.Copies
import RuleCheck.Proofs.NamesIndifferent

/-!
# What the host does during a run

The host's functions may do what they like to the store. To say what the library does besides, the
host is watched: it notes at every call the store that it finds and the store that it leaves. A run
takes the same course under a watched host, and from one call to the next the store only grows. So
cells that none of the calls writes to keep their contents through the whole run.
-/

namespace RuleCheck

variable {σ α β : Type}

structure HostStep where
  before : Store
  after : Store

/-- Lets the host work and notes what it does to the store. -/
def HostStep.watch (action : StateM (Store × σ) α) : StateM (Store × σ × List HostStep) α :=
  fun ⟨store, state, steps⟩ ↦
    let (result, after, state) := action (store, state)
    (result, after, state, steps ++ [⟨store, after⟩])

def Host.watched (host : Host σ) : Host (σ × List HostStep) where
  call code arguments := HostStep.watch (host.call code arguments)
  judge code subject target := HostStep.watch (host.judge code subject target)
  test code call := HostStep.watch (host.test code call)
  elapsed state := host.elapsed state.1

def World.watched (world : World σ) (steps : List HostStep) : World (σ × List HostStep) :=
  ⟨world.store, (world.host, steps), world.journal⟩

/-- One store becomes another by steps of the host, before and after which it only grows. -/
inductive GrowsBetween : Store → List HostStep → Store → Prop where
  | nil {store later : Store} (le : store ≤ later) : GrowsBetween store [] later
  | cons {store later : Store} {step : HostStep} {steps : List HostStep} (le : store ≤ step.before)
      (rest : GrowsBetween step.after steps later) : GrowsBetween store (step :: steps) later

def HostStep.Spares (base : Store) (step : HostStep) : Prop :=
  base ≤ step.before → base ≤ step.after

namespace GrowsBetween

variable {base store middle later : Store} {steps more : List HostStep}

theorem of_le (le : store ≤ middle) (grows : GrowsBetween middle steps later) :
    GrowsBetween store steps later := by
  cases grows with
  | nil hle => exact .nil (le.trans hle)
  | cons hle rest => exact .cons (le.trans hle) rest

theorem trans (first : GrowsBetween store steps middle) (second : GrowsBetween middle more later) :
    GrowsBetween store (steps ++ more) later := by
  induction first with
  | nil hle => exact second.of_le hle
  | cons hle _ ih => exact .cons hle (ih second)

/-- Cells that all steps spare keep their contents. -/
theorem le_of_spares (grows : GrowsBetween store steps later) (held : base ≤ store)
    (spares : ∀ step ∈ steps, step.Spares base) : base ≤ later := by
  induction grows with
  | nil hle => exact held.trans hle
  | cons hle _ ih =>
    obtain ⟨hstep, hrest⟩ := List.forall_mem_cons.1 spares
    exact ih (hstep (held.trans hle)) hrest

end GrowsBetween

/-- A run takes the same course when the host is watched, and grows the store between the steps that
the host notes. -/
def Run.IsWatched (run : Run σ α) (watched : Run (σ × List HostStep) α) : Prop :=
  ∀ world earlier, ∃ steps,
    watched (world.watched earlier) = ((run world).1, (run world).2.watched (earlier ++ steps)) ∧
      GrowsBetween world.store steps (run world).2.store

namespace Run.IsWatched

/-- A run without the host's doing. -/
theorem of_grows {run : Run σ α} {watched : Run (σ × List HostStep) α} (grows : run.Grows)
    (same : ∀ world earlier,
      watched (world.watched earlier) = ((run world).1, (run world).2.watched earlier)) :
    run.IsWatched watched := by
  intro world earlier
  refine ⟨[], ?_, .nil (grows world)⟩
  rw [List.append_nil]
  exact same world earlier

theorem pure (value : α) : IsWatched (Pure.pure value : Run σ α) (Pure.pure value) :=
  of_grows (.pure value) fun _ _ ↦ rfl

theorem store : IsWatched (Run.store : Run σ Store) Run.store :=
  of_grows .store fun _ _ ↦ rfl

theorem record (event : Event) : IsWatched (Run.record event : Run σ Unit) (Run.record event) :=
  of_grows (.record event) fun _ _ ↦ rfl

theorem onStore {action : StateM Store α} (grows : ∀ store, store ≤ (action store).2) :
    IsWatched (Run.onStore action : Run σ α) (Run.onStore action) :=
  of_grows (.onStore grows) fun _ _ ↦ rfl

/-- The host may do anything, which is then noted. -/
theorem onHost (action : StateM (Store × σ) α) :
    IsWatched (Run.onHost action) (Run.onHost (HostStep.watch action)) := by
  intro world earlier
  exact ⟨[⟨world.store, (Run.onHost action world).2.store⟩], rfl, .cons le_rfl (.nil le_rfl)⟩

theorem bind {first : Run σ α} {first' : Run (σ × List HostStep) α} {next : α → Run σ β}
    {next' : α → Run (σ × List HostStep) β} (hfirst : first.IsWatched first')
    (hnext : ∀ value, (next value).IsWatched (next' value)) :
    (first >>= next).IsWatched (first' >>= next') := by
  intro world earlier
  obtain ⟨steps, hsame, hgrows⟩ := hfirst world earlier
  obtain ⟨more, hsame', hgrows'⟩ := hnext (first world).1 (first world).2 (earlier ++ steps)
  refine ⟨steps ++ more, ?_, hgrows.trans hgrows'⟩
  rw [bind_apply, bind_apply, hsame, hsame', List.append_assoc]

end Run.IsWatched

open Run (IsWatched)

theorem Diagnostic.le_toValue (diagnostic : Diagnostic) (store : Store) :
    store ≤ (diagnostic.toValue store).2 :=
  Store.le_newArray diagnostic.fragments store

theorem TestOutcome.le_toValue (outcome : TestOutcome) (store : Store) :
    store ≤ (outcome.toValue store).2 := by
  cases outcome with
  | ok => exact le_refl store
  | error diagnostic => exact diagnostic.le_toValue store

variable (host : Host σ)

namespace Predicate

theorem answer_isWatched (predicate : Predicate) (subject target : Value) :
    IsWatched (predicate.answer host subject target)
      (predicate.answer host.watched subject target) := by
  cases predicate with
  | kind => exact .pure _
  | equal => exact .bind .store fun _ ↦ .pure _
  | notEqual => exact .bind .store fun _ ↦ .pure _
  | range => exact .onStore (le_askRange subject target)
  | pattern => exact .onStore (le_askPattern subject target)
  | host code => exact .onHost (host.judge code subject target)

theorem ask_isWatched (predicate : Predicate) (subject target : Value) :
    IsWatched (predicate.ask host subject target) (predicate.ask host.watched subject target) :=
  .bind (.record _) fun _ ↦ predicate.answer_isWatched host subject target

end Predicate

mutual

theorem Function.answer_isWatched : (function : Function) → (arguments : List Value) →
    IsWatched (function.answer host arguments) (function.answer host.watched arguments)
  | .host code name, arguments => by
      rw [Function.answer, Function.answer]
      exact .onHost (host.call code arguments)
  | .typed code name, arguments => by
      rw [Function.answer, Function.answer]
      exact .bind .store fun store ↦ .bind (.record _) fun _ ↦
        .bind (.onHost (host.test code (TestCall.ofArguments store arguments))) fun outcome ↦
          .onStore outcome.le_toValue
  | .made serial name predicate clauses, arguments => by
      rw [Function.answer, Function.answer]
      refine .bind .store fun store ↦ .bind (predicate.ask_isWatched host _ _) fun answer ↦ ?_
      split
      · exact .pure _
      · exact .bind .store fun _ ↦ .onStore (Store.le_newArray _)
      · exact .bind (clauses.finalFragments_isWatched _ _) fun _ ↦ .onStore (Store.le_newArray _)
  | .kindName, arguments => by
      rw [Function.answer, Function.answer]
      exact .pure _

theorem Clauses.finalFragments_isWatched : (clauses : Clauses) → (subject target : Value) →
    IsWatched (clauses.finalFragments host subject target)
      (clauses.finalFragments host.watched subject target)
  | .should text, subject, target => by
      rw [Clauses.finalFragments, Clauses.finalFragments]
      exact .pure _
  | .thenText clauses text, subject, target => by
      rw [Clauses.finalFragments, Clauses.finalFragments]
      exact .bind (clauses.finalFragments_isWatched subject target) fun _ ↦ .pure _
  | .thenComputed clauses function, subject, target => by
      rw [Clauses.finalFragments, Clauses.finalFragments]
      exact .bind (clauses.finalFragments_isWatched subject target) fun _ ↦
        .bind (.record _) fun _ ↦
          .bind (function.answer_isWatched [subject, target]) fun _ ↦ .pure _

end

theorem Function.apply_isWatched (function : Function) (arguments : List Value) :
    IsWatched (function.apply host arguments) (function.apply host.watched arguments) :=
  .bind (.record _) fun _ ↦ function.answer_isWatched host arguments

theorem Function.runTest_isWatched (function : Function) (call : TestCall) :
    IsWatched (function.runTest host call) (function.runTest host.watched call) :=
  .bind (.onStore (Store.le_newArray _)) fun arguments ↦
    .bind (function.apply_isWatched host arguments) fun _ ↦ .bind .store fun _ ↦ .pure _

namespace SimpleRule

variable {run : Value → Run σ TestOutcome} {run' : Value → Run (σ × List HostStep) TestOutcome}

theorem firstFailing_isWatched (hrun : ∀ value, (run value).IsWatched (run' value))
    (values : List Value) : IsWatched (firstFailing run values) (firstFailing run' values) := by
  induction values with
  | nil => exact .pure _
  | cons value rest ih =>
    rw [firstFailing, firstFailing]
    refine .bind (hrun value) fun outcome ↦ ?_
    cases outcome with
    | ok => exact ih
    | error diagnostic => exact .pure _

theorem firstPassing_isWatched (hrun : ∀ value, (run value).IsWatched (run' value))
    (last : Diagnostic) (candidates : List Value) :
    IsWatched (firstPassing run last candidates) (firstPassing run' last candidates) := by
  induction candidates generalizing last with
  | nil => exact .pure _
  | cons candidate rest ih =>
    rw [firstPassing, firstPassing]
    refine .bind (hrun candidate) fun outcome ↦ ?_
    cases outcome with
    | ok => exact .pure _
    | error diagnostic => exact ih diagnostic

theorem evaluate_isWatched (caller : Option String) (rule : SimpleRule) :
    IsWatched (rule.evaluate host caller) (rule.evaluate host.watched caller) := by
  have hrun (subject target : Value) (each of : Option Value) :
      IsWatched (rule.testFunction.runTest host (rule.callOf caller subject target each of))
        (rule.testFunction.runTest host.watched (rule.callOf caller subject target each of)) :=
    rule.testFunction.runTest_isWatched host _
  rw [evaluate, evaluate]
  refine .bind .store fun store ↦ ?_
  dsimp only
  split
  · exact hrun _ _ _ _
  · exact firstFailing_isWatched (fun item ↦ hrun _ _ _ _) _
  · split
    · exact .pure _
    · exact firstPassing_isWatched (fun candidate ↦ hrun _ _ _ _) _ _
  · split
    · exact .pure _
    · split
      · exact .pure _
      · exact firstFailing_isWatched (fun item ↦
          firstPassing_isWatched (fun candidate ↦ hrun _ _ _ _) _ _) _

end SimpleRule

theorem Options.checkForm_isWatched (options : Options) (rule : Value) :
    IsWatched (options.checkForm rule : Run σ Outcome) (options.checkForm rule) := by
  rw [checkForm, checkForm]
  split
  · exact .pure _
  · refine .bind .store fun store ↦ ?_
    split
    · exact .pure _
    · next fault _ => exact .bind (.onStore fault.le_diagnostic) fun _ ↦ .pure _

theorem allPass_isWatched {evaluate : Value → Run σ Outcome}
    {evaluate' : Value → Run (σ × List HostStep) Outcome}
    (hevaluate : ∀ rule, (evaluate rule).IsWatched (evaluate' rule)) (rules : List Value) :
    IsWatched (allPass evaluate rules) (allPass evaluate' rules) := by
  induction rules with
  | nil => exact .pure _
  | cons rule rest ih =>
    rw [allPass, allPass]
    refine .bind (hevaluate rule) fun outcome ↦ ?_
    cases outcome with
    | ok => exact ih
    | error failure => exact .pure _

theorem Shape.evaluate_isWatched (caller : Option String) {below : Value → Run σ Outcome}
    {below' : Value → Run (σ × List HostStep) Outcome}
    (hbelow : ∀ rule, (below rule).IsWatched (below' rule)) (rule : Value) (shape : Shape) :
    IsWatched (shape.evaluate host caller below rule)
      (shape.evaluate host.watched caller below' rule) := by
  cases shape with
  | boolean outcome => cases outcome <;> exact .pure _
  | empty => exact .pure _
  | function callee => exact .bind (callee.apply_isWatched host []) hbelow
  | guard condition rules =>
    rw [evaluate, evaluate]
    split
    · exact hbelow rules
    · exact .pure _
  | list rules => exact allPass_isWatched hbelow rules
  | simple rule =>
    rw [evaluate, evaluate]
    refine .bind (rule.evaluate_isWatched host caller) fun outcome ↦ ?_
    cases outcome <;> exact .pure _
  | malformed => exact .pure _

/-- Evaluation takes the same course when the host is watched, and only adds cells between the steps
of the host. -/
theorem evaluateRule_isWatched (options : Options) (caller : Option String)
    (room depth : Nat) (rule : Value) :
    IsWatched (evaluateRule host options caller room depth rule)
      (evaluateRule host.watched options caller room depth rule) := by
  induction room generalizing depth rule with
  | zero => exact .pure _
  | succ room ih =>
    rw [evaluateRule, evaluateRule]
    refine .bind (options.checkForm_isWatched rule) fun form ↦ ?_
    cases form with
    | error failure => exact .pure _
    | ok =>
      refine .bind .store fun store ↦ .bind (.record _) fun _ ↦ ?_
      exact (Shape.ofValue store rule).evaluate_isWatched host caller (ih (depth + 1)) rule

end RuleCheck
