import RuleCheck.Rule.Shape
import RuleCheck.Test.Call

/-!
# The world of an evaluation

Evaluation reads and extends a store, calls functions of the host program, and keeps a journal of
what happened. The host is a parameter: for each code number it says what a function, a predicate
or a typed test does to the store and to the host's own state. Since these are functions, every
call returns.

The journal records every call and every notice in order. Notices are what an observer of the
engine is told; calls are recorded so that one can speak about their order.
-/

namespace RuleCheck

/-- The host program, with a state of its own: what its functions do, what its predicates and typed
tests say, and the milliseconds on its clock. -/
structure Host (σ : Type) where
  call : Nat → List Value → StateM (Store × σ) Value
  judge : Nat → Value → Value → StateM (Store × σ) Value
  test : Nat → TestCall → StateM (Store × σ) TestOutcome
  elapsed : σ → Nat

/-- Something that happened: a rule was decoded and is about to be evaluated, a function or a test
was called, or a diagnostic came out. -/
inductive Event where
  | evaluating (shape : ShapeName) (depth : Nat)
  | called (function : Function) (arguments : List Value)
  | judged (predicate : Predicate) (subject target : Value)
  | tested (code : Nat) (call : TestCall)
  | failed (label text : String)
  | rejected (label : String)
  | channelRefused (text : String)
  | delivered (label text : String)

/-- How urgent a notice is. -/
inductive NoticeLevel where
  | trace
  | debug
  | warn
deriving DecidableEq

/-- What an observer is told of an event. -/
structure Notice where
  level : NoticeLevel
  message : String
  fields : List (String × String)
deriving DecidableEq

/-- The notice of an event; calls have none. -/
def Event.notice? : Event → Option Notice
  | .evaluating shape depth =>
      some ⟨.trace, "evaluating rule", [("shape", shape.text), ("depth", toString depth)]⟩
  | .called _ _ => none
  | .judged _ _ _ => none
  | .tested _ _ => none
  | .failed label text => some ⟨.debug, "rule failed", [("label", label), ("diagnostic", text)]⟩
  | .rejected label => some ⟨.debug, "rule rejected by a literal false", [("label", label)]⟩
  | .channelRefused text => some ⟨.debug, "rejected report channel", [("error", text)]⟩
  | .delivered label text =>
      some ⟨.warn, "validation failed", [("label", label), ("diagnostic", text)]⟩

/-! ## Runs -/

/-- Everything that an evaluation can see or change. -/
structure World (σ : Type) where
  store : Store
  host : σ
  journal : Array Event

abbrev Run (σ : Type) := StateM (World σ)

namespace Run

variable {σ α : Type}

def store : Run σ Store :=
  return (← get).store

def record (event : Event) : Run σ Unit :=
  modify fun world ↦ { world with journal := world.journal.push event }

/-- Lets a computation of the library work on the store. -/
def onStore (action : StateM Store α) : Run σ α := fun ⟨store, host, journal⟩ ↦
  let (result, store) := action store
  (result, ⟨store, host, journal⟩)

/-- Lets the host work on the store and on its own state. -/
def onHost (action : StateM (Store × σ) α) : Run σ α := fun ⟨store, host, journal⟩ ↦
  let (result, store, host) := action (store, host)
  (result, ⟨store, host, journal⟩)

end Run

end RuleCheck
