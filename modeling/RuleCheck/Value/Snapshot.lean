import RuleCheck.Value.Store

/-!
# Snapshots and copies

A snapshot is the finite tree that a value unfolds to. Where a composite would occur below itself
the tree has the marker text instead, so that cycles are cut at their back edges; a composite that
occurs several times without being its own ancestor is unfolded each time. Argument lists unfold
to lists like arrays.

A copy is a snapshot laid out in new cells.
-/

namespace RuleCheck

/-- A finite tree of values. A list stands for an array or an argument list, and fields are in the
order of their keys. -/
inductive Snapshot where
  | leaf (value : Value)
  | list (items : List Snapshot)
  | record (fields : List (String × Snapshot))

namespace Snapshot

/-- What stands in place of a composite inside itself. -/
def circularText : String := "[Circular]"

def circular : Snapshot := .leaf (.text circularText)

end Snapshot

namespace Store

/-- Unfolds a list cell below the given ancestors, given how its items are unfolded. -/
def expandList (store : Store) (below : List Identity → Value → Snapshot)
    (ancestors : List Identity) (ref : ListRef) : Snapshot :=
  if ancestors.contains (.list ref) then .circular
  else .list ((store.items ref).map (below (.list ref :: ancestors)))

/-- Unfolds a record cell below the given ancestors, given how its values are unfolded. -/
def expandRecord (store : Store) (below : List Identity → Value → Snapshot)
    (ancestors : List Identity) (ref : RecordRef) : Snapshot :=
  if ancestors.contains (.record ref) then .circular
  else .record ((store.fields ref).entries.map fun entry ↦
    (entry.1, below (.record ref :: ancestors) entry.2))

/-- Unfolds a value below the given ancestors, to at most a number of levels. -/
def expand (store : Store) : Nat → List Identity → Value → Snapshot
  | 0, _, _ => .circular
  | depth + 1, ancestors, value =>
      match value with
      | .array ref => store.expandList (store.expand depth) ancestors ref
      | .arguments ref => store.expandList (store.expand depth) ancestors ref
      | .object ref => store.expandRecord (store.expand depth) ancestors ref
      | value => .leaf value

/-- The tree that a value unfolds to. Every level but the last uses up a cell, so the number of
cells bounds the depth. -/
def snapshot (store : Store) (value : Value) : Snapshot :=
  store.expand (store.size + 2) [] value

end Store

/-! ## Copies -/

mutual

/-- Lays a tree out in new cells. -/
def Snapshot.build : Snapshot → StateM Store Value
  | .leaf value => return value
  | .list items => do Value.newArray (← Snapshot.buildItems items)
  | .record fields => do Value.newObject (← Snapshot.buildFields fields)

def Snapshot.buildItems : List Snapshot → StateM Store (List Value)
  | [] => return []
  | item :: rest => return (← item.build) :: (← Snapshot.buildItems rest)

def Snapshot.buildFields : List (String × Snapshot) → StateM Store (List (String × Value))
  | [] => return []
  | (key, item) :: rest => return (key, ← item.build) :: (← Snapshot.buildFields rest)

end

/-- A deep copy: new cells, no cycles, nothing shared. -/
def Value.copy (value : Value) : StateM Store Value := do
  ((← get).snapshot value).build

end RuleCheck
