import Mathlib.Order.Defs.PartialOrder
import RuleCheck.Proofs.DeepEquality
import RuleCheck.Proofs.Journal

/-!
# Stores that only grow

A store grows if cells are added and the old ones keep their contents. What is read of a value stays
the same while the store grows, provided that the value was held by the store before and that no
cell refers beyond it: its members, its parts along all paths, the names that it gives, and whether
it equals another one.

A computation grows the store if it changes no cell that it found. Most of what the library does by
itself only adds new arrays.
-/

namespace RuleCheck

namespace Store

/-- A later store has all cells of the earlier one, with the same contents. -/
instance : Preorder Store where
  le store later :=
    store.lists.toList <+: later.lists.toList ∧ store.records.toList <+: later.records.toList
  le_refl _ := ⟨List.prefix_rfl, List.prefix_rfl⟩
  le_trans _ _ _ first second := ⟨first.1.trans second.1, first.2.trans second.2⟩

/-- The value stands for itself or refers to a cell of the store. -/
def Holds (store : Store) : Value → Prop
  | .array ref => ref.index < store.lists.size
  | .arguments ref => ref.index < store.lists.size
  | .object ref => ref.index < store.records.size
  | _ => True

instance (store : Store) (value : Value) : Decidable (store.Holds value) :=
  match value with
  | .array ref => inferInstanceAs (Decidable (ref.index < store.lists.size))
  | .arguments ref => inferInstanceAs (Decidable (ref.index < store.lists.size))
  | .object ref => inferInstanceAs (Decidable (ref.index < store.records.size))
  | .undefined | .null | .bool _ | .int _ | .float _ | .text _ | .function _ | .regex _ | .date _ =>
      inferInstanceAs (Decidable True)

structure Closed (store : Store) : Prop where
  lists : ∀ items ∈ store.lists.toList, ∀ value ∈ items, store.Holds value
  records : ∀ fields ∈ store.records.toList, ∀ entry ∈ fields.entries, store.Holds entry.2

instance (store : Store) : Decidable store.Closed :=
  decidable_of_iff
    ((∀ items ∈ store.lists.toList, ∀ value ∈ items, store.Holds value) ∧
      ∀ fields ∈ store.records.toList, ∀ entry ∈ fields.entries, store.Holds entry.2)
    ⟨fun closed ↦ ⟨closed.1, closed.2⟩, fun closed ↦ ⟨closed.lists, closed.records⟩⟩

variable {store later : Store} {value part node : Value} {step : PathStep} {path : List PathStep}

theorem Holds.mono (held : store.Holds value) (le : store ≤ later) : later.Holds value := by
  cases value with
  | array | arguments => exact Nat.lt_of_lt_of_le held le.1.length_le
  | object => exact Nat.lt_of_lt_of_le held le.2.length_le
  | _ => trivial

theorem items_of_le (le : store ≤ later) {ref : ListRef} (held : ref.index < store.lists.size) :
    later.items ref = store.items ref := by
  obtain ⟨added, happend⟩ := le.1
  rw [items, items, ← Array.getElem?_toList, ← Array.getElem?_toList, ← happend,
    List.getElem?_append_left held]

theorem fields_of_le (le : store ≤ later) {ref : RecordRef}
    (held : ref.index < store.records.size) : later.fields ref = store.fields ref := by
  obtain ⟨added, happend⟩ := le.2
  rw [fields, fields, ← Array.getElem?_toList, ← Array.getElem?_toList, ← happend,
    List.getElem?_append_left held]

theorem members_of_le (le : store ≤ later) (held : store.Holds value) :
    later.members value = store.members value := by
  cases value with
  | array ref => exact items_of_le le held
  | arguments ref => exact items_of_le le held
  | object ref => exact congrArg Fields.values (fields_of_le le held)
  | _ => rfl

theorem part_of_le (le : store ≤ later) (held : store.Holds value) (step : PathStep) :
    later.part? value step = store.part? value step := by
  cases value with
  | array ref | arguments ref =>
    cases step with
    | index position => exact congrArg (·[position]?) (items_of_le le held)
    | key => rfl
  | object ref =>
    cases step with
    | index => rfl
    | key name => exact congrArg (Fields.get? · name) (fields_of_le le held)
  | _ => rfl

/-- What a path leads to does not change while the store grows, if the store holds all that the value
reaches. -/
theorem follow_of_le_of_holds (le : store ≤ later)
    (held : ∀ path node, store.follow? value path = some node → store.Holds node)
    (path : List PathStep) : later.follow? value path = store.follow? value path := by
  induction path generalizing value with
  | nil => rfl
  | cons step path ih =>
    rw [follow_cons, follow_cons, part_of_le le (held [] value rfl)]
    cases hpart : store.part? value step with
    | none => rfl
    | some part =>
      refine ih fun rest node hrest ↦ held (step :: rest) node ?_
      rw [follow_cons_of_part hpart, hrest]

theorem items_mem_toList {ref : ListRef} (held : ref.index < store.lists.size) :
    store.items ref ∈ store.lists.toList := by
  rw [items, Array.getElem?_eq_getElem held, Option.getD_some]
  exact Array.getElem_mem_toList held

theorem fields_mem_toList {ref : RecordRef} (held : ref.index < store.records.size) :
    store.fields ref ∈ store.records.toList := by
  rw [fields, Array.getElem?_eq_getElem held, Option.getD_some]
  exact Array.getElem_mem_toList held

namespace Closed

/-- A closed store holds the members of what it holds. -/
theorem holds_of_mem_members (closed : store.Closed) (held : store.Holds value) {member : Value}
    (mem : member ∈ store.members value) : store.Holds member := by
  cases value with
  | array ref => exact closed.lists _ (items_mem_toList held) member mem
  | arguments ref => exact closed.lists _ (items_mem_toList held) member mem
  | object ref =>
    obtain ⟨entry, hentry, rfl⟩ := List.mem_map.1 mem
    exact closed.records _ (fields_mem_toList held) entry hentry
  | undefined => simp [members] at mem
  | _ =>
    obtain rfl := List.mem_singleton.1 mem
    trivial

theorem holds_of_part (closed : store.Closed) (held : store.Holds value)
    (leads : store.part? value step = some part) : store.Holds part := by
  refine closed.holds_of_mem_members held ?_
  unfold part? at leads
  split at leads
  · exact List.mem_of_getElem? leads
  · exact List.mem_of_getElem? leads
  · exact List.mem_map.2 ⟨_, Fields.get_eq_some_iff.1 leads, rfl⟩
  · cases leads

theorem holds_of_follow (closed : store.Closed) (held : store.Holds value)
    (leads : store.follow? value path = some node) : store.Holds node := by
  induction path generalizing value with
  | nil => exact Option.some.inj leads ▸ held
  | cons step path ih =>
    obtain ⟨part, hpart, hleads⟩ := exists_part_of_follow_cons leads
    exact ih (closed.holds_of_part held hpart) hleads

theorem follow_of_le (closed : store.Closed) (le : store ≤ later) (held : store.Holds value)
    (path : List PathStep) : later.follow? value path = store.follow? value path :=
  follow_of_le_of_holds le (fun _ _ leads ↦ closed.holds_of_follow held leads) path

theorem acyclic_of_le (closed : store.Closed) (le : store ≤ later) (held : store.Holds value) :
    later.Acyclic value ↔ store.Acyclic value := by
  refine forall_congr' fun path ↦ forall_congr' fun node ↦ forall_congr' fun loop ↦ ?_
  rw [closed.follow_of_le le held]
  refine imp_congr_right fun hleads ↦ ?_
  rw [closed.follow_of_le le (closed.holds_of_follow held hleads)]

/-- Whether values are equal does not change while the store grows. -/
theorem equal_of_le (closed : store.Closed) (le : store ≤ later) {left right : Value}
    (left_held : store.Holds left) (right_held : store.Holds right) :
    later.equal left right = store.equal left right := by
  rw [Bool.eq_iff_iff, equal_iff, equal_iff, closed.acyclic_of_le le left_held,
    funext (closed.follow_of_le le left_held), funext (closed.follow_of_le le right_held)]

/-- Stores that grew from one agree on what is equal of its values. -/
theorem equal_congr (closed : store.Closed) {other : Store} (le : store ≤ later)
    (le_other : store ≤ other) {left right : Value} (left_held : store.Holds left)
    (right_held : store.Holds right) : later.equal left right = other.equal left right :=
  (closed.equal_of_le le left_held right_held).trans
    (closed.equal_of_le le_other left_held right_held).symm

end Closed

theorem le_addList (items : List Value) (store : Store) : store ≤ (addList items store).2 :=
  ⟨⟨[items], Array.toList_push.symm⟩, List.prefix_rfl⟩

theorem le_addRecord (fields : Fields Value) (store : Store) :
    store ≤ (addRecord fields store).2 :=
  ⟨List.prefix_rfl, ⟨[fields], Array.toList_push.symm⟩⟩

theorem le_newArray (items : List Value) (store : Store) :
    store ≤ (Value.newArray items store).2 :=
  le_addList items store

end Store

namespace Names

/-- What names a value gives does not change while the store grows. -/
theorem ofValue_of_le {store later : Store} (le : store ≤ later) {value : Value} {names : Names}
    (gives : ofValue? store value = some names) : ofValue? later value = some names := by
  cases value with
  | text => exact gives
  | array ref =>
    have hheld : ref.index < store.lists.size := by
      refine Nat.lt_of_not_le fun hpast ↦ ?_
      rw [ofValue?, Store.items, Array.getElem?_eq_none hpast] at gives
      cases gives
    rw [ofValue?, Store.items_of_le le hheld]
    exact gives
  | _ => cases gives

theorem isNames_of_le {store later : Store} (le : store ≤ later) {value : Value}
    (named : isNames store value = true) : isNames later value = true := by
  obtain ⟨names, hnames⟩ := Option.isSome_iff_exists.1 named
  exact Option.isSome_iff_exists.2 ⟨names, ofValue_of_le le hnames⟩

end Names

variable {σ α β : Type}

def Run.Grows (run : Run σ α) : Prop :=
  ∀ world, world.store ≤ (run world).2.store

namespace Run.Grows

theorem of_store_eq {run : Run σ α} (same : ∀ world, (run world).2.store = world.store) :
    run.Grows :=
  fun world ↦ (same world).symm ▸ le_refl world.store

theorem pure (value : α) : Run.Grows (Pure.pure value : Run σ α) :=
  of_store_eq fun _ ↦ rfl

theorem store : Run.Grows (Run.store : Run σ Store) :=
  of_store_eq fun _ ↦ rfl

theorem record (event : Event) : Run.Grows (Run.record event : Run σ Unit) :=
  of_store_eq fun _ ↦ rfl

theorem onStore {action : StateM Store α} (grows : ∀ store, store ≤ (action store).2) :
    Run.Grows (Run.onStore action : Run σ α) :=
  fun world ↦ grows world.store

theorem bind {first : Run σ α} {next : α → Run σ β} (hfirst : first.Grows)
    (hnext : ∀ value, (next value).Grows) : (first >>= next).Grows :=
  fun world ↦ le_trans (hfirst world) (hnext (first world).1 (first world).2)

end Run.Grows

end RuleCheck
