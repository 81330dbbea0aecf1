import RuleCheck.Value.Basic
import RuleCheck.Value.Fields

/-!
# Stores

A store holds the contents of composite values: list cells for arrays and argument lists, record
cells for objects. New cells go to the end and none is ever removed, so a reference stays good. A
reference past the end reads as empty.

The store also counts the tests made at run time, which gives each its serial number.
-/

namespace RuleCheck

/-- The contents of composite values: lists of items, records of fields, and how many tests have
been made at run time. -/
structure Store where
  lists : Array (List Value)
  records : Array (Fields Value)
  testsMade : Nat

namespace Store

def empty : Store := ⟨#[], #[], 0⟩

instance : Inhabited Store := ⟨empty⟩

def items (store : Store) (ref : ListRef) : List Value :=
  (store.lists[ref.index]?).getD []

def fields (store : Store) (ref : RecordRef) : Fields Value :=
  (store.records[ref.index]?).getD .empty

def size (store : Store) : Nat :=
  store.lists.size + store.records.size

/-- The keys of a value: positions for an array or argument list, field names for an object, and
none for any other value. -/
def keys (store : Store) : Value → List String
  | .array ref => (List.range (store.items ref).length).map toString
  | .arguments ref => (List.range (store.items ref).length).map toString
  | .object ref => (store.fields ref).keys
  | _ => []

/-- The members of a value, over which rules iterate: the items of an array or argument list, the
field values of an object, nothing for undefined, and otherwise the value itself. -/
def members (store : Store) : Value → List Value
  | .array ref => store.items ref
  | .arguments ref => store.items ref
  | .object ref => (store.fields ref).values
  | .undefined => []
  | value => [value]

/-! ## Writing -/

def setItems (store : Store) (ref : ListRef) (items : List Value) : Store :=
  { store with lists := store.lists.setIfInBounds ref.index items }

def setFields (store : Store) (ref : RecordRef) (fields : Fields Value) : Store :=
  { store with records := store.records.setIfInBounds ref.index fields }

def addList (items : List Value) : StateM Store ListRef :=
  fun store ↦ (⟨store.lists.size⟩, { store with lists := store.lists.push items })

def addRecord (fields : Fields Value) : StateM Store RecordRef :=
  fun store ↦ (⟨store.records.size⟩, { store with records := store.records.push fields })

/-- The serial number of the next test, which is thereby used up. -/
def nextSerial : StateM Store Nat :=
  fun store ↦ (store.testsMade, { store with testsMade := store.testsMade + 1 })

@[simp] theorem items_addList_self (store : Store) (items : List Value) :
    (addList items store).2.items (addList items store).1 = items := by
  simp [addList, Store.items]

theorem items_addList_of_lt {store : Store} {ref : ListRef} (items : List Value)
    (old : ref.index < store.lists.size) :
    (addList items store).2.items ref = store.items ref := by
  simp [addList, Store.items, Array.getElem?_push, Nat.ne_of_lt old]

@[simp] theorem fields_addRecord_self (store : Store) (fields : Fields Value) :
    (addRecord fields store).2.fields (addRecord fields store).1 = fields := by
  simp [addRecord, Store.fields]

theorem fields_addRecord_of_lt {store : Store} {ref : RecordRef} (fields : Fields Value)
    (old : ref.index < store.records.size) :
    (addRecord fields store).2.fields ref = store.fields ref := by
  simp [addRecord, Store.fields, Array.getElem?_push, Nat.ne_of_lt old]

end Store

namespace Value

def newArray (items : List Value) : StateM Store Value :=
  return .array (← Store.addList items)

def newArguments (items : List Value) : StateM Store Value :=
  return .arguments (← Store.addList items)

/-- A new object; of two entries with one key the later counts. -/
def newObject (entries : List (String × Value)) : StateM Store Value :=
  return .object (← Store.addRecord (.ofList entries))

end Value

end RuleCheck
