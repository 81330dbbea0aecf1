import RuleCheck.World

/-!
# Sinks

A sink takes printed diagnostics, each under a label, as texts: later changes to the quoted values
do not reach it. A memory sink keeps them, a console sink writes a block for each, and a notice
sink turns each into a notice.
-/

namespace RuleCheck

structure Entry where
  label : String
  text : String
deriving DecidableEq

/-- The block that a console shows for an entry: between two lines of dashes, after an empty line,
the time in milliseconds, the label and the text. -/
def Entry.block (entry : Entry) (elapsed : Nat) : String :=
  "\n----\n(" ++ toString elapsed ++ "ms) " ++ entry.label ++ " failed: " ++ entry.text
    ++ "\n----\n"

/-- Where printed diagnostics go: into memory, out as blocks, or to whoever takes notices. -/
inductive Sink where
  | memory (entries : List Entry)
  | console (blocks : List String)
  | notices
deriving DecidableEq

namespace Sink

def entries : Sink → List Entry
  | .memory entries => entries
  | _ => []

def written : Sink → String
  | .console blocks => String.join blocks
  | _ => ""

/-- A memory sink without its entries; other sinks stay as they are. -/
def clear : Sink → Sink
  | .memory _ => .memory []
  | sink => sink

def last? (sink : Sink) : Option String :=
  sink.entries.getLast?.map (·.text)

def messages (sink : Sink) : List String :=
  sink.entries.map (·.text)

variable {σ : Type}

def accept (host : Host σ) (sink : Sink) (entry : Entry) : Run σ Sink :=
  match sink with
  | .memory entries => return .memory (entries ++ [entry])
  | .console blocks => return .console (blocks ++ [entry.block (host.elapsed (← get).host)])
  | .notices => do
      Run.record (.delivered entry.label entry.text)
      return .notices

end Sink

end RuleCheck
