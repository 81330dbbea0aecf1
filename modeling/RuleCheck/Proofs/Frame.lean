import RuleCheck.Proofs.HostSteps
import RuleCheck.Test.Wording

/-!
# What the library leaves alone

Whatever the library is asked, it writes to no cell that it finds. Questions about values run no code
of the host and only add cells. Evaluations run code of the host, and what that does to the store is
noted step by step; between these steps the store only grows. So an evaluation whose calls write to
none of the cells that were there before it leaves all of them as they were. The options of an
engine stay the same in any case.
-/

namespace RuleCheck

variable {σ α : Type}

inductive Query : Type → Type where
  | kind (distinguishArguments : Bool) (value : Value) : Query Kind
  | equal (left right : Value) : Query Bool
  | copy (value : Value) : Query Value
  | render (value : Value) : Query String
  | form (rule : Value) : Query (Except Diagnostic Unit)
  | clauses (value : Value) : Query (Except Diagnostic Clauses)

def Query.answer : Query α → StateM Store α
  | .kind distinguishArguments value => return value.kindWith distinguishArguments
  | .equal left right => return (← get).equal left right
  | .copy value => value.copy
  | .render value => return (← get).render value
  | .form rule => do
      match Rule.check (← get) rule with
      | .ok () => return .ok ()
      | .error fault => return .error (← fault.diagnostic)
  | .clauses value =>
      return (Clauses.ofValue (← get) value).mapError ClauseFault.diagnostic

/-- Every question is answered without writing to a cell that was there. -/
theorem Query.le_answer (query : Query α) (store : Store) : store ≤ (query.answer store).2 := by
  cases query with
  | kind | equal | render | clauses => exact le_refl store
  | copy value => exact (store.laidOut_copy value).grows
  | form rule =>
    change store ≤ ((match Rule.check store rule with
      | .ok () => pure (.ok ())
      | .error fault => do return .error (← fault.diagnostic) :
        StateM Store (Except Diagnostic Unit)) store).2
    cases Rule.check store rule with
    | ok => exact le_refl store
    | error fault => exact fault.le_diagnostic store

open Run (IsWatched)

theorem Sink.accept_isWatched (host : Host σ) (sink : Sink) (entry : Entry) :
    IsWatched (sink.accept host entry) (sink.accept host.watched entry) := by
  cases sink with
  | memory entries => exact .pure _
  | console blocks => exact .of_grows (fun world ↦ le_refl world.store) fun _ _ ↦ rfl
  | notices => exact .bind (.record _) fun _ ↦ .pure _

namespace Engine

variable (host : Host σ) (engine : Engine) (label : Option String)

theorem check_isWatched (rule : Value) :
    IsWatched (engine.check host label rule) (engine.check host.watched label rule) := by
  refine .bind (evaluateRule_isWatched host engine.options label _ 0 rule) fun outcome ↦ ?_
  refine .bind .store fun store ↦ ?_
  cases closingEvent? store label outcome with
  | none => exact .pure _
  | some event => exact .bind (.record event) fun _ ↦ .pure _

theorem print_isWatched (diagnostic : Diagnostic) :
    IsWatched (engine.print host label diagnostic)
      (engine.print host.watched label diagnostic) :=
  .bind .store fun _ ↦ .bind (engine.sink.accept_isWatched host _) fun _ ↦ .pure _

theorem deliver_isWatched (report : Report) (failure : Failure) :
    IsWatched (engine.deliver host label report failure)
      (engine.deliver host.watched label report failure) := by
  cases failure with
  | rejected => exact .pure _
  | diagnosed diagnostic =>
    cases report with
    | print => exact .bind (engine.print_isWatched host label diagnostic) fun _ ↦ .pure _
    | text => exact .bind .store fun _ ↦ .pure _
    | callback listener =>
      exact .bind .store fun _ ↦ .bind (listener.apply_isWatched host _) fun _ ↦ .pure _

theorem evaluate_isWatched (rule : Value) (report : Report) :
    IsWatched (engine.evaluate host label rule report)
      (engine.evaluate host.watched label rule report) := by
  refine .bind (engine.check_isWatched host label rule) fun outcome ↦ ?_
  cases outcome with
  | ok => exact .pure _
  | error failure => exact engine.deliver_isWatched host label report failure

theorem evaluateWith_isWatched (rule channel : Value) :
    IsWatched (engine.evaluateWith host label rule channel)
      (engine.evaluateWith host.watched label rule channel) := by
  refine .bind .store fun store ↦ ?_
  cases Report.ofValue store channel with
  | ok report => exact engine.evaluate_isWatched host label rule report
  | error fault =>
    dsimp only
    split
    · exact engine.evaluate_isWatched host label rule .print
    · exact .bind (.record _) fun _ ↦
        .bind (engine.print_isWatched host label _) fun _ ↦ .pure _

variable (world : World σ)

theorem options_deliver (report : Report) (failure : Failure) :
    (engine.deliver host label report failure world).1.2.options = engine.options := by
  cases failure with
  | rejected => rfl
  | diagnosed => cases report <;> rfl

theorem options_evaluate (rule : Value) (report : Report) :
    (engine.evaluate host label rule report world).1.2.options = engine.options := by
  rw [evaluate_apply]
  split
  · rfl
  · next failure after _ => exact engine.options_deliver host label after report failure

theorem options_evaluateWith (rule channel : Value) :
    (engine.evaluateWith host label rule channel world).1.2.options = engine.options := by
  rw [evaluateWith, Run.bind_apply, Run.store_apply]
  dsimp only
  cases Report.ofValue world.store channel with
  | ok report => exact engine.options_evaluate host label world rule report
  | error fault =>
    dsimp only
    split
    · exact engine.options_evaluate host label world rule .print
    · rfl

end Engine

inductive Request : Type → Type where
  | check (label : Option String) (rule : Value) : Request Outcome
  | evaluate (label : Option String) (rule : Value) (report : Report) : Request Verdict
  | evaluateWith (label : Option String) (rule channel : Value) : Request Verdict
  | passes (rule : Value) : Request Bool
  | stops (label : Option String) (rule : Value) (report : Report) : Request Bool

namespace Request

def perform (host : Host σ) (engine : Engine) : Request α → Run σ (α × Engine)
  | .check label rule => return (← engine.check host label rule, engine)
  | .evaluate label rule report => engine.evaluate host label rule report
  | .evaluateWith label rule channel => engine.evaluateWith host label rule channel
  | .passes rule => engine.passes host rule
  | .stops label rule report => engine.stops host label rule report

variable (host : Host σ) (engine : Engine) (request : Request α)

theorem perform_isWatched :
    IsWatched (request.perform host engine) (request.perform host.watched engine) := by
  cases request with
  | check label rule => exact .bind (engine.check_isWatched host label rule) fun _ ↦ .pure _
  | evaluate label rule report => exact engine.evaluate_isWatched host label rule report
  | evaluateWith label rule channel => exact engine.evaluateWith_isWatched host label rule channel
  | passes rule =>
    exact .bind (engine.evaluate_isWatched host none rule .print) fun _ ↦ .pure _
  | stops label rule report =>
    exact .bind (engine.evaluate_isWatched host label rule report) fun _ ↦ .pure _

theorem options_perform (world : World σ) :
    (request.perform host engine world).1.2.options = engine.options := by
  cases request with
  | check => rfl
  | evaluate label rule report => exact engine.options_evaluate host label world rule report
  | evaluateWith label rule channel =>
    exact engine.options_evaluateWith host label world rule channel
  | passes rule => exact engine.options_evaluate host none world rule .print
  | stops label rule report => exact engine.options_evaluate host label world rule report

end Request

/-- What performing a request does to the store and the options. Before, between and after the steps
of the host, which it notes itself, cells are only added. -/
structure RequestFrame (host : Host σ) (engine : Engine) (request : Request α) (world : World σ)
    (steps : List HostStep) : Prop where
  noted : request.perform host.watched engine (world.watched []) =
    ((request.perform host engine world).1, (request.perform host engine world).2.watched steps)
  grows : GrowsBetween world.store steps (request.perform host engine world).2.store
  frame : (∀ step ∈ steps, step.Spares world.store) →
    world.store ≤ (request.perform host engine world).2.store
  options : (request.perform host engine world).1.2.options = engine.options

/-- The library writes to no cell that it finds: not to answer a question about values, and not in
the course of an evaluation, on which only the host writes to cells. -/
theorem library_frame :
    (∀ (α : Type) (query : Query α) (store : Store), store ≤ (query.answer store).2) ∧
    ∀ (σ α : Type) (host : Host σ) (engine : Engine) (request : Request α) (world : World σ),
      ∃ steps, RequestFrame host engine request world steps := by
  refine ⟨fun _ query store ↦ query.le_answer store, fun _ _ host engine request world ↦ ?_⟩
  obtain ⟨steps, hnoted, hgrows⟩ := request.perform_isWatched host engine world []
  exact ⟨steps, {
    noted := hnoted
    grows := hgrows
    frame := hgrows.le_of_spares le_rfl
    options := request.options_perform host engine world }⟩

end RuleCheck
