import RuleCheck.Proofs.Copies

/-!
# Unfolding acyclic values

What lies above a value matters only where the value reaches it. Below an acyclic value no cell is
entered twice on the way down, so nothing is marked: the value unfolds by unfolding its parts. Two acyclic values therefore unfold to one
tree as soon as the same paths lead to the same things in both, an argument list passing for an
array; in which cells those are, and how many paths share one, is not seen.

Conversely, whatever shows a tree unfolds to it, and two values that show one tree are the same as
far as any path can tell.
-/

namespace RuleCheck

/-- Values that look the same without their parts, an argument list passing for an array. -/
inductive Value.LooksLike : Value → Value → Prop where
  | list {value other : Value} {ref ref' : ListRef} (isList : value.listRef? = some ref)
      (isList' : other.listRef? = some ref') : LooksLike value other
  | object (ref ref' : RecordRef) : LooksLike (.object ref) (.object ref')
  | leaf {value : Value} (simple : value.isComposite = false) : LooksLike value value

theorem Value.SameTop.looksLike {value other : Value} (same : SameTop value other) :
    LooksLike value other := by
  cases same with
  | array => exact .list rfl rfl
  | arguments => exact .list rfl rfl
  | object => exact .object _ _
  | leaf simple => exact .leaf simple

/-- What is in no cell is a leaf. -/
theorem Value.isComposite_of_identity_eq_none {value : Value} (outside : value.identity? = none) :
    value.isComposite = false := by
  cases value with
  | array | arguments | object => cases outside
  | _ => rfl

/-- Fields with the same keys, in which the same is made of the values under one key. -/
theorem Fields.map_entries_eq {α β γ : Type} {lefts : Fields α} {rights : Fields β} {left : α → γ}
    {right : β → γ} (keys : lefts.keys = rights.keys)
    (each : ∀ name value value', lefts.get? name = some value → rights.get? name = some value' →
      left value = right value') :
    (lefts.entries.map fun entry ↦ (entry.1, left entry.2)) =
      rights.entries.map fun entry ↦ (entry.1, right entry.2) := by
  have hlength := congrArg List.length keys
  rw [Fields.keys, Fields.keys, List.length_map, List.length_map] at hlength
  refine List.ext_getElem (by rw [List.length_map, List.length_map, hlength]) fun position h h' ↦ ?_
  rw [List.length_map] at h h'
  have hkey : lefts.entries[position].1 = rights.entries[position].1 := by
    have hkeys := List.getElem_of_eq keys (i := position) (by rwa [Fields.keys, List.length_map])
    simpa only [Fields.keys, List.getElem_map] using hkeys
  have hleft : lefts.get? lefts.entries[position].1 = some lefts.entries[position].2 :=
    get_eq_some_iff.2 (List.getElem_mem h)
  have hright : rights.get? lefts.entries[position].1 = some rights.entries[position].2 :=
    get_eq_some_iff.2 (hkey ▸ List.getElem_mem h')
  rw [List.getElem_map, List.getElem_map, each _ _ _ hleft hright, hkey]

namespace Store

variable {store other : Store} {value value' part : Value} {ancestors ancestors' : List Identity}
  {cell : Identity} {step : PathStep} {tree : Snapshot}

theorem part_index_of_listRef {ref : ListRef} (isList : value.listRef? = some ref)
    (position : Nat) : store.part? value (.index position) = (store.items ref)[position]? := by
  cases value with
  | array | arguments => obtain rfl := Option.some.inj isList; rfl
  | _ => cases isList

/-- To go over the outer value the inner one has to be gone over: it is a part of it. -/
def IsPart (store : Store) (inner outer : Value) : Prop :=
  ∃ step, store.part? outer step = some inner

theorem isPart_iff_of_listRef {ref : ListRef} (isList : value.listRef? = some ref) :
    store.IsPart part value ↔ part ∈ store.items ref := by
  constructor
  · rintro ⟨step, hpart⟩
    cases step with
    | index position =>
      exact List.mem_of_getElem? ((part_index_of_listRef isList position).symm.trans hpart)
    | key name =>
      cases value with
      | array | arguments => cases hpart
      | _ => cases isList
  · intro hitem
    obtain ⟨position, hposition⟩ := List.mem_iff_getElem?.1 hitem
    exact ⟨.index position, (part_index_of_listRef isList position).trans hposition⟩

theorem isPart_object_iff {ref : RecordRef} :
    store.IsPart part (.object ref) ↔ ∃ name, (name, part) ∈ (store.fields ref).entries := by
  constructor
  · rintro ⟨step, hpart⟩
    cases step with
    | index => cases hpart
    | key name => exact ⟨name, Fields.get_eq_some_iff.1 hpart⟩
  · rintro ⟨name, hentry⟩
    exact ⟨.key name, Fields.get_eq_some_iff.2 hentry⟩

/-- Going from an acyclic value to its parts, and to theirs, comes to an end. -/
theorem Acyclic.acc_isPart (acyclic : store.Acyclic value) : Acc store.IsPart value := by
  obtain ⟨bound, hshallow⟩ : ∃ bound, store.Shallow bound value :=
    ⟨_, acyclic.shallow (Nat.lt_succ_self _)⟩
  induction bound generalizing value with
  | zero => exact absurd (hshallow [] value rfl) (Nat.not_lt_zero _)
  | succ bound ih =>
    exact .intro _ fun _ ⟨_, hpart⟩ ↦ ih (acyclic.at_part hpart) (hshallow.at_part hpart)

def unfoldParts (store : Store) (below : Value → Snapshot) : Value → Snapshot
  | .array ref => .list ((store.items ref).map below)
  | .arguments ref => .list ((store.items ref).map below)
  | .object ref => .record ((store.fields ref).entries.map fun entry ↦ (entry.1, below entry.2))
  | value => .leaf value

theorem unfoldParts_of_listRef {ref : ListRef} (isList : value.listRef? = some ref)
    (below : Value → Snapshot) :
    store.unfoldParts below value = .list ((store.items ref).map below) := by
  cases value with
  | array | arguments => obtain rfl := Option.some.inj isList; rfl
  | _ => cases isList

theorem unfoldParts_of_simple (simple : value.isComposite = false) (below : Value → Snapshot) :
    store.unfoldParts below value = .leaf value := by
  cases value with
  | array | arguments | object => cases simple
  | _ => rfl

/-- A value that is not entered yet is unfolded with its own cell above its parts. -/
theorem expandValue_of_fresh (within : value.identity? = some cell) (fresh : cell ∉ ancestors)
    (below : List Identity → Value → Snapshot) :
    store.expandValue below ancestors value =
      store.unfoldParts (below (cell :: ancestors)) value := by
  have hfresh : ¬ ancestors.contains cell = true := by simpa using fresh
  cases value with
  | array | arguments | object =>
    obtain rfl := Option.some.inj within
    exact if_neg hfresh
  | _ => cases within

/-- What a value unfolds to depends only on what its parts unfold to. -/
theorem unfoldParts_congr {below below' : Value → Snapshot}
    (same : ∀ part, store.IsPart part value → below part = below' part) :
    store.unfoldParts below value = store.unfoldParts below' value := by
  have hlist {ref : ListRef} (isList : value.listRef? = some ref) :
      (store.items ref).map below = (store.items ref).map below' :=
    List.map_congr_left fun item hitem ↦ same item ((isPart_iff_of_listRef isList).2 hitem)
  cases value with
  | array ref => exact congrArg Snapshot.list (hlist rfl)
  | arguments ref => exact congrArg Snapshot.list (hlist rfl)
  | object ref =>
    refine congrArg Snapshot.record (List.map_congr_left fun entry hentry ↦ ?_)
    rw [same entry.2 (isPart_object_iff.2 ⟨entry.1, hentry⟩)]
  | _ => rfl

/-- Only ancestors that are reached make a difference to what a value unfolds to. -/
theorem expand_congr_ancestors (depth : Nat)
    (same : ∀ cell ∈ store.composites value, cell ∈ ancestors ↔ cell ∈ ancestors') :
    store.expand depth ancestors value = store.expand depth ancestors' value := by
  induction depth generalizing ancestors ancestors' value with
  | zero => rfl
  | succ depth ih =>
    rw [expand_succ, expand_succ]
    cases hcell : value.identity? with
    | none =>
      have hsimple := Value.isComposite_of_identity_eq_none hcell
      rw [expandValue_of_simple hsimple, expandValue_of_simple hsimple]
    | some cell =>
      have hself := same cell (mem_composites_self hcell)
      by_cases hmem : cell ∈ ancestors
      · rw [expandValue_of_entered hcell hmem, expandValue_of_entered hcell (hself.1 hmem)]
      · rw [expandValue_of_fresh hcell hmem, expandValue_of_fresh hcell (mt hself.2 hmem)]
        refine unfoldParts_congr fun part ⟨step, hpart⟩ ↦ ih fun reached hreached ↦ ?_
        rw [List.mem_cons, List.mem_cons, same reached (composites_part_subset hpart hreached)]

/-- A composite that none of its parts reaches is unfolded by unfolding its parts. -/
theorem snapshot_eq_unfoldParts (within : value.identity? = some cell)
    (apart : ∀ part, store.IsPart part value → cell ∉ store.composites part) :
    store.snapshot value = store.unfoldParts store.snapshot value := by
  rw [snapshot, expand_succ, expandValue_of_fresh within List.not_mem_nil]
  refine unfoldParts_congr fun part hpart ↦ ?_
  calc
    store.expand (store.size + 1) [cell] part = store.expand (store.size + 1) [] part := by
      refine expand_congr_ancestors _ fun reached hreached ↦ ?_
      refine iff_of_false (fun hmem ↦ apart part hpart ?_) List.not_mem_nil
      rwa [List.mem_singleton.1 hmem] at hreached
    _ = store.snapshot part :=
      expand_eq_expand (distinctCells_nil store) (by rw [List.length_nil]; omega)
        (by rw [List.length_nil]; omega)

/-- An acyclic value is unfolded by unfolding its parts. -/
theorem Acyclic.snapshot_eq (acyclic : store.Acyclic value) :
    store.snapshot value = store.unfoldParts store.snapshot value := by
  cases hcell : value.identity? with
  | none =>
    have hsimple := Value.isComposite_of_identity_eq_none hcell
    rw [snapshot, expand_succ, expandValue_of_simple hsimple, unfoldParts_of_simple hsimple]
  | some cell =>
    refine snapshot_eq_unfoldParts hcell fun part ⟨step, hpart⟩ ⟨path, node, hpath, hnode⟩ ↦ ?_
    -- a part that reaches the cell of the value again closes a loop there
    have hreturns : store.follow? value (step :: path) = some node := by
      rw [follow_cons_of_part hpart, hpath]
    have hloop : store.follow? node (step :: path) = some node := by
      rw [← hreturns, follow_cons, follow_cons, part_eq_of_identity hnode hcell]
    exact List.cons_ne_nil _ _ (acyclic _ node _ hreturns hloop)

/-- Acyclic values in which the same paths lead to what looks the same unfold to one tree. -/
theorem snapshot_eq_of_alike (acyclic : store.Acyclic value) (acyclic' : other.Acyclic value')
    (alike : Alike Value.LooksLike (store.follow? value) (other.follow? value')) :
    store.snapshot value = other.snapshot value' := by
  induction acyclic.acc_isPart generalizing value' with
  | intro value _ ih =>
    obtain ⟨htop, hparts⟩ := alike_iff.1 alike
    have hsame (step : PathStep) :
        Option.Rel (fun part part' ↦ store.snapshot part = other.snapshot part')
          (store.part? value step) (other.part? value' step) :=
      rel_mono (hparts step) fun part part' hpart hpart' halike ↦
        ih part ⟨step, hpart⟩ (acyclic.at_part hpart) (acyclic'.at_part hpart') halike
    rw [acyclic.snapshot_eq, acyclic'.snapshot_eq]
    cases htop with
    | leaf simple => rw [unfoldParts_of_simple simple, unfoldParts_of_simple simple]
    | @list _ _ ref ref' isList isList' =>
      rw [unfoldParts_of_listRef isList, unfoldParts_of_listRef isList']
      refine congrArg Snapshot.list (List.ext_getElem? fun position ↦ ?_)
      have hitem := hsame (.index position)
      rw [part_index_of_listRef isList, part_index_of_listRef isList'] at hitem
      rw [List.getElem?_map, List.getElem?_map]
      exact map_eq_map_of_rel hitem
    | object ref ref' =>
      refine congrArg Snapshot.record ?_
      refine Fields.map_entries_eq ?_ fun name field field' hleft hright ↦ ?_
      · refine Fields.keys_eq_of_mem fun name ↦ ?_
        rw [← Fields.isSome_get_iff, ← Fields.isSome_get_iff]
        exact isSome_iff_of_rel (hsame (.key name))
      · have hfield := hsame (.key name)
        rw [part?, part?, hleft, hright] at hfield
        cases hfield with
        | some hfield => exact hfield

/-! ## Values that show a tree -/

/-- What shows a tree and is acyclic unfolds to it. -/
theorem Shows.snapshot_eq (shows : store.Shows tree value) (acyclic : store.Acyclic value) :
    store.snapshot value = tree := by
  induction shows with
  | leaf simple => rw [acyclic.snapshot_eq, unfoldParts_of_simple simple]
  | @list items ref length each ih =>
    rw [acyclic.snapshot_eq]
    refine congrArg Snapshot.list (List.ext_getElem (by rw [List.length_map, length]) ?_)
    intro position h h'
    rw [List.length_map] at h
    have hpart : store.part? (.array ref) (.index position) = some (store.items ref)[position] :=
      List.getElem?_eq_getElem h
    rw [List.getElem_map]
    exact ih position _ _ (List.getElem?_eq_getElem h') hpart (acyclic.at_part hpart)
  | @record fields ref keys each ih =>
    rw [acyclic.snapshot_eq]
    have hkeys : (store.fields ref).keys.Pairwise (· < ·) :=
      List.pairwise_map.2 (store.fields ref).ascending
    rw [keys] at hkeys
    let shown : Fields Snapshot := ⟨fields, List.pairwise_map.1 hkeys⟩
    have hentries : (shown.entries.map fun entry ↦ (entry.1, id entry.2)) = fields :=
      List.map_id fields
    rw [← hentries]
    refine congrArg Snapshot.record ?_
    refine Fields.map_entries_eq keys fun name value field hvalue hfield ↦ ?_
    have hpart : store.part? (.object ref) (.key name) = some value := hvalue
    exact ih name field value (Fields.get_eq_some_iff.1 hfield) hvalue (acyclic.at_part hpart)

/-- Values that show one tree are the same on top at the end of all paths. -/
theorem Shows.alike (shows : store.Shows tree value) (shows' : other.Shows tree value') :
    Alike Value.SameTop (store.follow? value) (other.follow? value') := by
  induction shows generalizing value' with
  | @leaf value simple =>
    cases shows' with
    | leaf =>
      refine alike_iff.2 ⟨.leaf simple, fun step ↦ ?_⟩
      rw [part_eq_none_of_simple simple, part_eq_none_of_simple simple]
      exact .none
  | @list items ref length each ih =>
    cases shows' with
    | @list _ ref' length' each' =>
      refine alike_iff.2 ⟨.array ref ref', fun step ↦ ?_⟩
      cases step with
      | key => exact .none
      | index position =>
        refine rel_of_isSome ?_ fun part part' hpart hpart' ↦ ?_
        · rw [part?, part?, isSome_getElem?, isSome_getElem?, length, length']
        · obtain ⟨item, hitem⟩ : ∃ item, items[position]? = some item :=
            ⟨_, List.getElem?_eq_getElem
              (length ▸ (List.getElem?_eq_some_iff.1 hpart).1)⟩
          exact ih position item part hitem hpart (each' position item part' hitem hpart')
  | @record fields ref keys each ih =>
    cases shows' with
    | @record _ ref' keys' each' =>
      refine alike_iff.2 ⟨.object ref ref', fun step ↦ ?_⟩
      cases step with
      | index => exact .none
      | key name =>
        refine rel_of_isSome ?_ fun part part' hpart hpart' ↦ ?_
        · rw [part?, part?, Fields.isSome_get_iff, Fields.isSome_get_iff, keys, keys']
        · have hname : name ∈ fields.map (·.1) := keys ▸ Fields.mem_keys_iff.2 ⟨part, hpart⟩
          obtain ⟨⟨_, field⟩, hfield, rfl⟩ := List.mem_map.1 hname
          exact ih _ field part hfield hpart (each' _ field part' hfield hpart')

/-- An acyclic value without argument lists below it shows the tree that it unfolds to. -/
theorem Acyclic.shows_snapshot (acyclic : store.Acyclic value)
    (noArguments : ∀ path ref, store.follow? value path ≠ some (.arguments ref)) :
    store.Shows (store.snapshot value) value := by
  induction acyclic.acc_isPart with
  | intro value _ ih =>
    have hshows (step : PathStep) {part : Value} (hpart : store.part? value step = some part) :
        store.Shows (store.snapshot part) part := by
      refine ih part ⟨step, hpart⟩ (acyclic.at_part hpart) fun path ref hpath ↦ ?_
      exact noArguments (step :: path) ref (by rw [follow_cons_of_part hpart, hpath])
    rw [acyclic.snapshot_eq]
    cases value with
    | arguments ref => exact absurd rfl (noArguments [] ref)
    | array ref =>
      refine .list (List.length_map _).symm fun position item value hitem hvalue ↦ ?_
      rw [List.getElem?_map, hvalue] at hitem
      obtain rfl := Option.some.inj hitem
      exact hshows (.index position) hvalue
    | object ref =>
      refine .record ?_ fun name field value hfield hvalue ↦ ?_
      · rw [List.map_map]
        rfl
      · obtain ⟨entry, hentry, hsame⟩ := List.mem_map.1 hfield
        obtain ⟨rfl, rfl⟩ := Prod.mk.inj hsame
        obtain rfl : entry.2 = value :=
          Option.some.inj ((Fields.get_eq_some_iff.2 hentry).symm.trans hvalue)
        exact hshows (.key entry.1) hvalue
    | _ => exact .leaf rfl

end Store

end RuleCheck
