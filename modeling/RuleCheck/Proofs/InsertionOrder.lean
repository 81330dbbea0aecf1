import Mathlib.Order.Bounds.Defs
import RuleCheck.Proofs.CopyEquality
import RuleCheck.Proofs.CopyStability
import RuleCheck.Proofs.PureTests
import RuleCheck.Engine

/-!
# Insertion order is invisible

The fields of an object are in the order of their keys. So lists of entries with distinct keys give
the same fields if one is a rearrangement of the other, and of several entries with one key the last
counts. An object that is built from either list is the same object in the same cell, and all that is
done with it takes the same course.

Two objects that are built from the lists side by side are in different cells. They still have the
same keys and members in the same order, unfold to the same tree, have the same copy and text, admit
the same values as ranges, and are equal if comparing their values comes to an end.
-/

namespace RuleCheck

namespace Fields

variable {α : Type} {entries entries' : List (String × α)} {key : String} {entry : String × α}

theorem nodup_entries (fields : Fields α) : fields.entries.Nodup :=
  List.Nodup.of_map _ fields.nodup_keys

/-- Fields with the same entries are the same. -/
theorem eq_of_mem_iff {fields fields' : Fields α}
    (same : ∀ entry, entry ∈ fields.entries ↔ entry ∈ fields'.entries) : fields = fields' := by
  have hperm : fields.entries.Perm fields'.entries :=
    (List.perm_ext_iff_of_nodup fields.nodup_entries fields'.nodup_entries).2 same
  have hentries : fields.entries = fields'.entries := by
    refine hperm.eq_of_pairwise (fun left right _ _ hless hgreater ↦ ?_) fields.ascending
      fields'.ascending
    exact absurd (String.lt_trans hless hgreater) (String.lt_irrefl _)
  cases fields
  cases fields'
  cases hentries
  rfl

/-- Entries with distinct keys give the same fields in any order. -/
theorem ofList_perm (distinct : (entries.map (·.1)).Nodup) (perm : entries.Perm entries') :
    ofList entries = ofList entries' := by
  have hdistinct' : (entries'.map (·.1)).Nodup := (perm.map _).nodup_iff.1 distinct
  refine eq_of_mem_iff fun entry ↦ ?_
  rw [mem_entries_ofList distinct, mem_entries_ofList hdistinct', perm.mem_iff]

theorem entries_ofList_perm (distinct : (entries.map (·.1)).Nodup) :
    (ofList entries).entries.Perm entries :=
  (List.perm_ext_iff_of_nodup (nodup_entries _) (.of_map _ distinct)).2 fun _ ↦
    mem_entries_ofList distinct

def lastOfEachKey : List (String × α) → List (String × α)
  | [] => []
  | entry :: rest =>
      if entry.1 ∈ rest.map (·.1) then lastOfEachKey rest else entry :: lastOfEachKey rest

/-- What is left are the entries after which none with the same key comes. -/
theorem mem_lastOfEachKey_iff : entry ∈ lastOfEachKey entries ↔
    ∃ before after, entries = before ++ entry :: after ∧ entry.1 ∉ after.map (·.1) := by
  induction entries with
  | nil => simp [lastOfEachKey]
  | cons head rest ih =>
    have hcons : (∃ before after, head :: rest = before ++ entry :: after ∧
          entry.1 ∉ after.map (·.1)) ↔ head = entry ∧ entry.1 ∉ rest.map (·.1) ∨
        ∃ before after, rest = before ++ entry :: after ∧ entry.1 ∉ after.map (·.1) := by
      constructor
      · rintro ⟨before, after, heq, hlast⟩
        cases before with
        | nil =>
          obtain ⟨rfl, rfl⟩ := List.cons.inj heq
          exact .inl ⟨rfl, hlast⟩
        | cons first before =>
          obtain ⟨rfl, rfl⟩ := List.cons.inj heq
          exact .inr ⟨before, after, rfl, hlast⟩
      · rintro (⟨rfl, hlast⟩ | ⟨before, after, rfl, hlast⟩)
        · exact ⟨[], rest, rfl, hlast⟩
        · exact ⟨head :: before, after, rfl, hlast⟩
    rw [hcons, ← ih, lastOfEachKey]
    split
    · next hagain =>
      refine (or_iff_right ?_).symm
      rintro ⟨rfl, hlast⟩
      exact hlast hagain
    · next hnew =>
      rw [List.mem_cons, eq_comm]
      refine or_congr_left (and_iff_left_of_imp ?_).symm
      rintro rfl
      exact hnew

theorem sublist_lastOfEachKey (entries : List (String × α)) :
    (lastOfEachKey entries).Sublist entries := by
  induction entries with
  | nil => exact .slnil
  | cons head rest ih =>
    rw [lastOfEachKey]
    split
    · exact ih.cons head
    · exact ih.cons_cons head

theorem nodup_keys_lastOfEachKey (entries : List (String × α)) :
    ((lastOfEachKey entries).map (·.1)).Nodup := by
  induction entries with
  | nil => exact .nil
  | cons head rest ih =>
    rw [lastOfEachKey]
    split
    · exact ih
    · next hnew =>
      refine List.nodup_cons.2 ⟨fun mem ↦ hnew ?_, ih⟩
      exact ((sublist_lastOfEachKey rest).map _).subset mem

/-- The entries that are left are those of the fields that all of them give. -/
theorem mem_entries_ofList_iff :
    entry ∈ (ofList entries).entries ↔ entry ∈ lastOfEachKey entries := by
  have hfold (fields : Fields α) :
      entry ∈ (entries.foldl (fun fields entry ↦ fields.insert entry.1 entry.2) fields).entries ↔
        entry ∈ lastOfEachKey entries ∨
          entry ∈ fields.entries ∧ entry.1 ∉ entries.map (·.1) := by
    induction entries generalizing fields with
    | nil => simp [lastOfEachKey]
    | cons head rest ih =>
      rw [List.foldl_cons, ih, mem_entries_insert, lastOfEachKey, List.map_cons, List.mem_cons]
      split
      · next hagain =>
        have hreplaced : entry = head → entry.1 ∈ rest.map (·.1) := by
          rintro rfl
          exact hagain
        tauto
      · next hnew =>
        have hkept : entry = head → entry.1 ∉ rest.map (·.1) := by
          rintro rfl
          exact hnew
        rw [List.mem_cons]
        tauto
  rw [ofList, hfold]
  simp

/-- Of several entries with one key the last counts. -/
theorem ofList_lastOfEachKey (entries : List (String × α)) :
    ofList (lastOfEachKey entries) = ofList entries := by
  refine eq_of_mem_iff fun entry ↦ ?_
  rw [mem_entries_ofList (nodup_keys_lastOfEachKey entries), mem_entries_ofList_iff]

/-- Of the keys that are no bounds the least is complained about. -/
theorem unknownBound_eq_some_iff {fields : Fields Value} :
    fields.unknownBound? = some key ↔ IsLeast {key | key ∈ fields.keys ∧ key ∉ Bound.keys} key := by
  have hleast {key : String} (found : fields.unknownBound? = some key) :
      IsLeast {key | key ∈ fields.keys ∧ key ∉ Bound.keys} key := by
    obtain ⟨hunknown, before, after, hkeys, hbefore⟩ := List.find?_eq_some_iff_append.1 found
    have hascending : fields.keys.Pairwise (· < ·) := List.pairwise_map.2 fields.ascending
    rw [hkeys] at hascending ⊢
    refine ⟨⟨by simp, by simpa using hunknown⟩, ?_⟩
    rintro other ⟨mem, hother⟩
    rcases List.mem_append.1 mem with mem | mem
    · exact absurd (hbefore other mem) (by simpa using hother)
    · rcases List.mem_cons.1 mem with rfl | mem
      · exact String.le_refl _
      · obtain ⟨-, hafter, -⟩ := List.pairwise_append.1 hascending
        exact Std.le_of_lt ((List.pairwise_cons.1 hafter).1 other mem)
  refine ⟨hleast, fun least ↦ ?_⟩
  cases hfound : fields.unknownBound? with
  | none =>
    have hnone := List.find?_eq_none.1 hfound key least.1.1
    exact absurd least.1.2 (by simpa using hnone)
  | some found =>
    have hfirst := hleast hfound
    rw [String.le_antisymm (hfirst.2 least.1) (least.2 hfirst.1)]

end Fields

namespace Store

variable {store : Store} {value : Value} {left right : RecordRef}

/-- A value equals itself exactly if it has no cycle and nothing that is not a number below it. -/
theorem equal_self_iff : store.equal value value = true ↔
    store.Acyclic value ∧ ∀ path, store.follow? value path ≠ some (.float .nan) := by
  rw [equal_iff]
  refine and_congr_right fun _ ↦ ?_
  constructor
  · intro halike path hnan
    have htop := halike path
    rw [hnan, Option.rel_some_some, Value.topEq_self_iff] at htop
    exact htop rfl
  · intro hnumbers path
    cases hnode : store.follow? value path with
    | none => exact .none
    | some node => exact .some (Value.topEq_self_iff.2 fun hnan ↦ hnumbers path (hnan ▸ hnode))

/-- Two objects with the same fields are equal exactly if the value of each field equals itself. -/
theorem equal_objects_iff (same : store.fields left = store.fields right) :
    store.equal (.object left) (.object right) = true ↔
      ∀ entry ∈ (store.fields left).entries, store.equal entry.2 entry.2 = true := by
  constructor
  · intro hequal entry mem
    have hacyclic := (acyclic_of_equal hequal).1
    rw [equal_eq_compareParts (.inl hacyclic), compareParts, ← same, fieldsAgree_iff] at hequal
    have hentry := hequal entry.1
    rw [Fields.get_eq_some_iff.2 mem] at hentry
    cases hentry with
    | some hself => exact hself
  · intro hall
    have hacyclic : store.Acyclic (.object left) := acyclic_of_parts fun step part hpart ↦ by
      obtain ⟨name, mem⟩ := isPart_object_iff.1 ⟨step, hpart⟩
      exact (acyclic_of_equal (hall (name, part) mem)).1
    rw [equal_eq_compareParts (.inl hacyclic), compareParts, ← same, fieldsAgree_iff]
    intro name
    cases hvalue : (store.fields left).get? name with
    | none => exact .none
    | some value => exact .some (hall (name, value) (Fields.get_eq_some_iff.1 hvalue))

/-- Two objects with the same fields unfold to one tree if no value of a field reaches them. -/
theorem snapshot_objects_eq (same : store.fields left = store.fields right)
    (apart : ∀ entry ∈ (store.fields left).entries, .record left ∉ store.composites entry.2 ∧
      .record right ∉ store.composites entry.2) :
    store.snapshot (.object left) = store.snapshot (.object right) := by
  have hleft : store.snapshot (.object left) =
      store.unfoldParts store.snapshot (.object left) := by
    refine snapshot_eq_unfoldParts rfl fun part hpart ↦ ?_
    obtain ⟨name, mem⟩ := isPart_object_iff.1 hpart
    exact (apart (name, part) mem).1
  have hright : store.snapshot (.object right) =
      store.unfoldParts store.snapshot (.object right) := by
    refine snapshot_eq_unfoldParts rfl fun part hpart ↦ ?_
    obtain ⟨name, mem⟩ := isPart_object_iff.1 hpart
    exact (apart (name, part) (same ▸ mem)).2
  rw [hleft, hright, unfoldParts, unfoldParts, same]

end Store

/-! ## Objects side by side -/

/-- Two objects show what they were built from, the one like the other. They are equal exactly if no
value has a cycle or what is not a number below it. -/
structure ShowAlike (entries : List (String × Value)) (store : Store) (left right : RecordRef) :
    Prop where
  entries_perm : (store.fields left).entries.Perm entries
  keys_ascending : (store.keys (.object left)).Pairwise (· < ·)
  keys_eq : store.keys (.object left) = store.keys (.object right)
  members_eq : store.members (.object left) = store.members (.object right)
  copy_eq : Value.copy (.object left) store = Value.copy (.object right) store
  renderNested_eq : store.renderNested (.object left) = store.renderNested (.object right)
  render_eq : store.render (.object left) = store.render (.object right)
  equal_iff : store.equal (.object left) (.object right) = true ↔
    ∀ entry ∈ entries,
      store.Acyclic entry.2 ∧ ∀ path, store.follow? entry.2 path ≠ some (.float .nan)
  askRange_eq : ∀ subject, Predicate.askRange subject (.object left) store =
    Predicate.askRange subject (.object right) store
  unknownBound_iff : ∀ key, (store.fields right).unknownBound? = some key ↔
    IsLeast {key | key ∈ entries.map (·.1) ∧ key ∉ Bound.keys} key

section SideBySide

variable {entries : List (String × Value)} {store : Store} {left right : RecordRef}

theorem showAlike_of_fields (same : store.fields left = store.fields right)
    (perm : (store.fields left).entries.Perm entries)
    (apart : ∀ entry ∈ entries, .record left ∉ store.composites entry.2 ∧
      .record right ∉ store.composites entry.2) : ShowAlike entries store left right := by
  have hsnapshot : store.snapshot (.object left) = store.snapshot (.object right) :=
    Store.snapshot_objects_eq same fun entry mem ↦ apart entry (perm.mem_iff.1 mem)
  have hnested : store.renderNested (.object left) = store.renderNested (.object right) :=
    congrArg Snapshot.text hsnapshot
  have hkeys : (store.fields left).keys.Perm (entries.map (·.1)) := perm.map _
  exact {
    entries_perm := perm
    keys_ascending := List.pairwise_map.2 (store.fields left).ascending
    keys_eq := congrArg Fields.keys same
    members_eq := congrArg Fields.values same
    copy_eq := congrArg (fun tree : Snapshot ↦ tree.build store) hsnapshot
    renderNested_eq := hnested
    render_eq := hnested
    equal_iff := (Store.equal_objects_iff same).trans (forall_congr' fun entry ↦ by
      rw [perm.mem_iff, Store.equal_self_iff])
    askRange_eq := fun subject ↦ by
      rw [Predicate.askRange_object, Predicate.askRange_object, same]
    unknownBound_iff := fun key ↦ by
      rw [← same, Fields.unknownBound_eq_some_iff]
      simp only [hkeys.mem_iff] }

variable {entries' : List (String × Value)}

/-- Objects that are built one after the other from entries in different orders show alike. -/
theorem exists_showAlike (closed : store.Closed) (held : ∀ entry ∈ entries, store.Holds entry.2)
    (distinct : (entries.map (·.1)).Nodup) (perm : entries.Perm entries') :
    ∃ left right middle later, Value.newObject entries store = (.object left, middle) ∧
      Value.newObject entries' middle = (.object right, later) ∧ left ≠ right ∧
      ShowAlike entries later left right := by
  let first := Store.addRecord (.ofList entries) store
  let second := Store.addRecord (.ofList entries') first.2
  have hkept : second.2.fields first.1 = .ofList entries := by
    have hold : first.1.index < first.2.records.size := by simp [first, Store.addRecord]
    rw [Store.fields_addRecord_of_lt _ hold]
    exact Store.fields_addRecord_self store _
  have hmade : second.2.fields second.1 = .ofList entries' := Store.fields_addRecord_self first.2 _
  have hfields : second.2.fields first.1 = second.2.fields second.1 := by
    rw [hkept, hmade, Fields.ofList_perm distinct perm]
  have hperm : (second.2.fields first.1).entries.Perm entries := by
    rw [hkept]
    exact Fields.entries_ofList_perm distinct
  have hle : store ≤ second.2 := le_trans (Store.le_addRecord _ store) (Store.le_addRecord _ first.2)
  have hnew : store.records.size < first.2.records.size := by simp [first, Store.addRecord]
  refine ⟨first.1, second.1, first.2, second.2, rfl, rfl, ?_, showAlike_of_fields hfields hperm ?_⟩
  · intro hsame
    exact Nat.ne_of_lt hnew (congrArg RecordRef.index hsame)
  · intro entry mem
    -- The values reach only what was there before the objects.
    have hwithin := closed.composites_subset (held entry mem)
    rw [Store.composites_of_le hle hwithin]
    refine ⟨fun hreached ↦ ?_, fun hreached ↦ ?_⟩
    · exact Nat.lt_irrefl _ (Store.mem_identities_record_iff.1 (hwithin hreached))
    · exact Nat.lt_asymm hnew (Store.mem_identities_record_iff.1 (hwithin hreached))

end SideBySide

def Engine.evaluateBuilt {σ : Type} (host : Host σ) (engine : Engine) (label : Option String)
    (channel : Value) (rule : Value → StateM Store Value) (entries : List (String × Value)) :
    Run σ (Verdict × Engine) := do
  let object ← Run.onStore (Value.newObject entries)
  let built ← Run.onStore (rule object)
  engine.evaluateWith host label built channel

/-- What is left of entries if all but the last of each key are dropped. -/
structure Fields.KeepsLast (entries kept : List (String × Value)) : Prop where
  sublist : kept.Sublist entries
  distinct : (kept.map (·.1)).Nodup
  mem_iff : ∀ entry, entry ∈ kept ↔
    ∃ before after, entries = before ++ entry :: after ∧ entry.1 ∉ after.map (·.1)

/-- The order in which entries are given does not matter, nor do entries that later ones replace. -/
theorem insertion_order_invisible (entries : List (String × Value)) :
    Fields.KeepsLast entries (Fields.lastOfEachKey entries) ∧
    Value.newObject (Fields.lastOfEachKey entries) = Value.newObject entries ∧
    ∀ entries', (entries.map (·.1)).Nodup → entries.Perm entries' →
      (∀ (σ : Type) (host : Host σ) (engine : Engine) (label : Option String) (channel : Value)
        (rule : Value → StateM Store Value),
        engine.evaluateBuilt host label channel rule entries =
          engine.evaluateBuilt host label channel rule entries') ∧
      ∀ store : Store, store.Closed → (∀ entry ∈ entries, store.Holds entry.2) →
        ∃ left right middle later, Value.newObject entries store = (.object left, middle) ∧
          Value.newObject entries' middle = (.object right, later) ∧ left ≠ right ∧
          ShowAlike entries later left right := by
  refine ⟨⟨Fields.sublist_lastOfEachKey entries, Fields.nodup_keys_lastOfEachKey entries,
    fun entry ↦ Fields.mem_lastOfEachKey_iff⟩, ?_, fun entries' distinct perm ↦ ⟨?_, ?_⟩⟩
  · rw [Value.newObject, Value.newObject, Fields.ofList_lastOfEachKey]
  · intro σ host engine label channel rule
    rw [Engine.evaluateBuilt, Engine.evaluateBuilt, Value.newObject, Value.newObject,
      Fields.ofList_perm distinct perm]
  · intro store closed held
    exact exists_showAlike closed held distinct perm

/-- Keys are in the order of their code points, and an array that holds itself is shown the same in
both objects. -/
theorem insertion_order_invisible_cycle :
    let entries : List (String × Value) := [("\u00e9", .null), ("max", .array ⟨0⟩), ("Max", .null)]
    let entries' : List (String × Value) := [("Max", .null), ("\u00e9", .null), ("max", .array ⟨0⟩)]
    let left := Value.newObject entries ⟨#[[.array ⟨0⟩]], #[], 0⟩
    let right := Value.newObject entries' left.2
    right.2.keys left.1 = ["Max", "max", "\u00e9"] ∧
      right.2.keys right.1 = ["Max", "max", "\u00e9"] ∧
      right.2.render left.1 = right.2.render right.1 ∧
      Predicate.askRange .null left.1 right.2 = Predicate.askRange .null right.1 right.2 := by
  intro entries entries' left right
  have hperm : entries.Perm entries' :=
    List.perm_append_singleton ("Max", Value.null) [("\u00e9", .null), ("max", .array ⟨0⟩)]
  obtain ⟨-, -, hinvisible⟩ := insertion_order_invisible entries
  obtain ⟨-, hside⟩ := hinvisible entries' (by decide) hperm
  obtain ⟨first, second, middle, later, hleft, hright, -, halike⟩ :=
    hside ⟨#[[.array ⟨0⟩]], #[], 0⟩ (by decide) (by decide)
  have hmiddle : left.2 = middle := congrArg Prod.snd hleft
  have hobject : left.1 = .object first := congrArg Prod.fst hleft
  have hobject' : right = (.object second, later) := by
    rw [← hright, ← hmiddle]
  have hkeys : right.2.keys left.1 = ["Max", "max", "\u00e9"] := by decide
  rw [hobject, hobject'] at hkeys ⊢
  exact ⟨hkeys, halike.keys_eq.symm.trans hkeys, halike.render_eq, halike.askRange_eq .null⟩

end RuleCheck
