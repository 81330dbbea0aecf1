import Mathlib.Data.Set.Card
import Mathlib.Logic.Relation
import RuleCheck.Proofs.Growth
import RuleCheck.Value.Snapshot

/-!
# Unfolding below ancestors

To unfold a value, the parts of it are unfolded below the cells that were entered on the way to
them, and a cell that was entered already is not entered again. So the entered cells are always
different cells that hold composites reachable from the value, and since there are only finitely many
the recursion comes to an end on every graph, whatever cycles and shared parts it has. The bound on
the number of levels in the definition is never felt.
-/

namespace RuleCheck.Store

variable {store later : Store} {value node part : Value} {ancestors : List Identity}
  {cell : Identity} {step : PathStep}

def expandValue (store : Store) (below : List Identity → Value → Snapshot)
    (ancestors : List Identity) : Value → Snapshot
  | .array ref => store.expandList below ancestors ref
  | .arguments ref => store.expandList below ancestors ref
  | .object ref => store.expandRecord below ancestors ref
  | value => .leaf value

theorem expand_succ (store : Store) (depth : Nat) (ancestors : List Identity) (value : Value) :
    store.expand (depth + 1) ancestors value =
      store.expandValue (store.expand depth) ancestors value := by
  cases value <;> rfl

theorem expandValue_of_simple (simple : value.isComposite = false)
    (below : List Identity → Value → Snapshot) (ancestors : List Identity) :
    store.expandValue below ancestors value = .leaf value := by
  cases value with
  | array | arguments | object => cases simple
  | _ => rfl

/-- A value in a cell that is entered already shows as the marker. -/
theorem expandValue_of_entered (within : value.identity? = some cell) (mem : cell ∈ ancestors)
    (below : List Identity → Value → Snapshot) :
    store.expandValue below ancestors value = .circular := by
  cases value with
  | array | arguments | object =>
    obtain rfl := Option.some.inj within
    exact if_pos (List.contains_iff_mem.2 mem)
  | _ => cases within

/-- To unfold the first value below its ancestors, the second has to be unfolded below its own: it is
a part of the first, in a cell that is entered only now. -/
inductive Descends (store : Store) : List Identity × Value → List Identity × Value → Prop where
  | intro {ancestors : List Identity} {value part : Value} {cell : Identity} {step : PathStep}
      (within : value.identity? = some cell) (fresh : cell ∉ ancestors)
      (leads : store.part? value step = some part) :
      Descends store (ancestors, value) (cell :: ancestors, part)

/-- What a value unfolds to depends only on the parts that are descended to. -/
theorem expandValue_congr {below below' : List Identity → Value → Snapshot}
    (same : ∀ inner, store.Descends (ancestors, value) inner →
      below inner.1 inner.2 = below' inner.1 inner.2) :
    store.expandValue below ancestors value = store.expandValue below' ancestors value := by
  have hlist (ref : ListRef) (hwithin : value.identity? = some (.list ref))
      (hpart : ∀ position, store.part? value (.index position) = (store.items ref)[position]?) :
      store.expandList below ancestors ref = store.expandList below' ancestors ref := by
    unfold expandList
    split
    · rfl
    · next hfresh =>
      refine congrArg Snapshot.list (List.map_congr_left fun item hitem ↦ ?_)
      obtain ⟨position, hposition⟩ := List.mem_iff_getElem?.1 hitem
      exact same _ (.intro hwithin (by simpa using hfresh) ((hpart position).trans hposition))
  cases value with
  | array ref => exact hlist ref rfl fun _ ↦ rfl
  | arguments ref => exact hlist ref rfl fun _ ↦ rfl
  | object ref =>
    simp only [expandValue, expandRecord]
    split
    · rfl
    · next hfresh =>
      refine congrArg Snapshot.record (List.map_congr_left fun entry hentry ↦ ?_)
      have hpart : store.part? (.object ref) (.key entry.1) = some entry.2 :=
        Fields.get_eq_some_iff.2 hentry
      exact congrArg (entry.1, ·) (same _ (.intro rfl (by simpa using hfresh) hpart))
  | _ => rfl

structure DistinctCells (store : Store) (cells : List Identity) : Prop where
  nodup : cells.Nodup
  within : cells ⊆ store.identities

theorem distinctCells_nil (store : Store) : store.DistinctCells [] :=
  ⟨List.nodup_nil, List.nil_subset _⟩

theorem DistinctCells.length_le (distinct : store.DistinctCells ancestors) :
    ancestors.length ≤ store.size :=
  length_le_size_of_nodup distinct.nodup distinct.within

theorem Descends.distinctCells {inner : List Identity × Value}
    (descends : store.Descends (ancestors, value) inner) (distinct : store.DistinctCells ancestors) :
    store.DistinctCells inner.1 := by
  cases descends with
  | intro within fresh leads =>
    obtain ⟨cell', hcell, hmem⟩ := exists_identity_of_part leads
    obtain rfl := Option.some.inj (within.symm.trans hcell)
    exact ⟨List.nodup_cons.2 ⟨fresh, distinct.nodup⟩, List.cons_subset.2 ⟨hmem, distinct.within⟩⟩

theorem Descends.length_eq {inner : List Identity × Value}
    (descends : store.Descends (ancestors, value) inner) :
    inner.1.length = ancestors.length + 1 := by
  cases descends with
  | intro => rfl

/-- Numbers of levels that exceed the number of cells not yet entered make no difference. -/
theorem expand_eq_expand {depth depth' : Nat} (distinct : store.DistinctCells ancestors)
    (enough : store.size < ancestors.length + depth)
    (enough' : store.size < ancestors.length + depth') :
    store.expand depth ancestors value = store.expand depth' ancestors value := by
  -- with no level left there would be more entered cells than cells
  induction depth generalizing depth' ancestors value with
  | zero => exact absurd distinct.length_le (Nat.not_le_of_lt enough)
  | succ depth ih =>
    cases depth' with
    | zero => exact absurd distinct.length_le (Nat.not_le_of_lt enough')
    | succ depth' =>
      rw [expand_succ, expand_succ]
      refine expandValue_congr fun inner hdescends ↦ ?_
      have hlength := hdescends.length_eq
      exact ih (hdescends.distinctCells distinct) (by omega) (by omega)

/-- The tree that a value unfolds to below ancestors, with as many levels as may be needed. -/
def unfolding (store : Store) (ancestors : List Identity) (value : Value) : Snapshot :=
  store.expand (store.size + 2 - ancestors.length) ancestors value

/-- A value is unfolded by unfolding its parts, without a bound. -/
theorem unfolding_eq_expandValue (distinct : store.DistinctCells ancestors) (value : Value) :
    store.unfolding ancestors value =
      store.expandValue store.unfolding ancestors value := by
  obtain ⟨depth, hdepth⟩ : ∃ depth, store.size + 2 - ancestors.length = depth + 1 :=
    Nat.exists_eq_add_of_le' (by have := distinct.length_le; omega)
  rw [unfolding, hdepth, expand_succ]
  refine expandValue_congr fun inner hdescends ↦ ?_
  have hlength := hdescends.length_eq
  have hdistinct := hdescends.distinctCells distinct
  have hbound := hdistinct.length_le
  exact expand_eq_expand hdistinct (by omega) (by omega)

/-- Descending comes to an end: each time another cell of the store is entered. -/
theorem acc_descends (distinct : store.DistinctCells ancestors) (value : Value) :
    Acc (fun inner outer ↦ store.Descends outer inner) (ancestors, value) := by
  obtain ⟨room, hroom⟩ : ∃ room, store.size ≤ ancestors.length + room :=
    ⟨store.size, Nat.le_add_left _ _⟩
  -- on the number of cells that are left to be entered
  induction room generalizing ancestors value with
  | zero =>
    refine Acc.intro _ fun inner hdescends ↦ ?_
    have hbound := (hdescends.distinctCells distinct).length_le
    have hlength := hdescends.length_eq
    exact absurd hbound (by omega)
  | succ room ih =>
    refine Acc.intro _ fun inner hdescends ↦ ?_
    have hlength := hdescends.length_eq
    exact ih (hdescends.distinctCells distinct) inner.2 (by omega)

/-- Whatever unfolds values by unfolding their parts gives the same trees. -/
theorem eq_unfolding_of_forall {below : List Identity → Value → Snapshot}
    (distinct : store.DistinctCells ancestors)
    (recursion : ∀ reached, Relation.ReflTransGen store.Descends (ancestors, value) reached →
      below reached.1 reached.2 = store.expandValue below reached.1 reached.2) :
    below ancestors value = store.unfolding ancestors value := by
  have hacc := acc_descends distinct value
  generalize hcall : (ancestors, value) = call at hacc
  induction hacc generalizing ancestors value with
  | intro call _ ih =>
    subst hcall
    rw [recursion _ .refl, unfolding_eq_expandValue distinct]
    refine expandValue_congr fun inner hdescends ↦ ?_
    exact ih inner hdescends (hdescends.distinctCells distinct)
      (fun reached hreached ↦ recursion reached (.head hdescends hreached)) rfl

theorem expandValue_of_le (le : store ≤ later) (held : store.Holds value)
    (below : List Identity → Value → Snapshot) (ancestors : List Identity) :
    later.expandValue below ancestors value = store.expandValue below ancestors value := by
  cases value with
  | array ref | arguments ref => simp only [expandValue, expandList, items_of_le le held]
  | object ref => simp only [expandValue, expandRecord, fields_of_le le held]
  | _ => rfl

theorem Closed.expand_of_le (closed : store.Closed) (le : store ≤ later) (held : store.Holds value)
    (depth : Nat) (ancestors : List Identity) :
    later.expand depth ancestors value = store.expand depth ancestors value := by
  induction depth generalizing ancestors value with
  | zero => rfl
  | succ depth ih =>
    rw [expand_succ, expand_succ, expandValue_of_le le held]
    refine expandValue_congr fun inner hdescends ↦ ?_
    cases hdescends with
    | intro _ _ hleads => exact ih (closed.holds_of_part held hleads) _

/-- What a value unfolds to does not change while the store grows. -/
theorem Closed.snapshot_of_le (closed : store.Closed) (le : store ≤ later)
    (held : store.Holds value) : later.snapshot value = store.snapshot value := by
  have hsize : store.size ≤ later.size := Nat.add_le_add le.1.length_le le.2.length_le
  calc
    later.snapshot value = store.expand (later.size + 2) [] value :=
      closed.expand_of_le le held (later.size + 2) []
    _ = store.snapshot value :=
      expand_eq_expand (distinctCells_nil store) (by rw [List.length_nil]; omega)
        (by rw [List.length_nil]; omega)

def contents (store : Store) : List Value :=
  store.lists.toList.flatten ++ store.records.toList.flatMap Fields.values

theorem mem_contents_of_part (leads : store.part? value step = some part) :
    part ∈ store.contents := by
  have hitems (ref : ListRef) (position : Nat)
      (hposition : (store.items ref)[position]? = some part) : part ∈ store.contents := by
    have hmem : part ∈ store.items ref := List.mem_of_getElem? hposition
    have hcell := items_mem_toList (index_lt_of_mem_items hmem)
    exact List.mem_append_left _ (List.mem_flatten.2 ⟨_, hcell, hmem⟩)
  unfold part? at leads
  split at leads
  · exact hitems _ _ leads
  · exact hitems _ _ leads
  · next ref name =>
    have hvalue : part ∈ (store.fields ref).values :=
      List.mem_map.2 ⟨_, Fields.get_eq_some_iff.1 leads, rfl⟩
    have hcell := fields_mem_toList (index_lt_of_get leads)
    exact List.mem_append_right _ (List.mem_flatMap.2 ⟨_, hcell, hvalue⟩)
  · cases leads

/-- A path leads back to the value or to what a cell contains. -/
theorem mem_contents_of_follow {path : List PathStep}
    (leads : store.follow? value path = some node) : node ∈ value :: store.contents := by
  induction path generalizing value with
  | nil =>
    obtain rfl := Option.some.inj leads
    exact List.mem_cons_self
  | cons step path ih =>
    obtain ⟨part, hpart, hpath⟩ := exists_part_of_follow_cons leads
    rcases List.mem_cons.1 (ih hpath) with rfl | hmem
    · exact List.mem_cons_of_mem _ (mem_contents_of_part hpart)
    · exact List.mem_cons_of_mem _ hmem

def composites (store : Store) (value : Value) : Set Identity :=
  {cell | ∃ path node, store.follow? value path = some node ∧ node.identity? = some cell}

theorem finite_composites (store : Store) (value : Value) : (store.composites value).Finite := by
  refine (List.finite_toSet ((value :: store.contents).filterMap Value.identity?)).subset ?_
  rintro cell ⟨path, node, hpath, hcell⟩
  exact List.mem_filterMap.2 ⟨node, mem_contents_of_follow hpath, hcell⟩

/-! ## The entered cells -/

/-- The cells that are entered and not left again while a value is unfolded below its ancestors. -/
def entered (ancestors : List Identity) (value : Value) : List Identity :=
  match value.identity? with
  | some cell => if cell ∈ ancestors then ancestors else cell :: ancestors
  | none => ancestors

theorem nodup_entered (distinct : ancestors.Nodup) (value : Value) :
    (entered ancestors value).Nodup := by
  unfold entered
  split
  · split
    · exact distinct
    · next hfresh => exact List.nodup_cons.2 ⟨hfresh, distinct⟩
  · exact distinct

theorem mem_entered_iff :
    cell ∈ entered ancestors value ↔ cell ∈ ancestors ∨ value.identity? = some cell := by
  unfold entered
  split
  · next cell' hcell =>
    rw [hcell, Option.some_inj]
    split
    · next hmem => exact ⟨.inl, fun h ↦ h.elim id fun hsame ↦ hsame ▸ hmem⟩
    · rw [List.mem_cons, or_comm, eq_comm]
  · next hnone => simp [hnone]

def Reaches (store : Store) (value : Value) (ancestors : List Identity) (node : Value) : Prop :=
  Relation.ReflTransGen store.Descends ([], value) (ancestors, node)

/-- Everything that is descended to is reached by a path, and its ancestors are different cells of
composites reached before. -/
theorem Reaches.spec (reaches : store.Reaches value ancestors node) :
    store.DistinctCells ancestors ∧ (∀ cell ∈ ancestors, cell ∈ store.composites value) ∧
      ∃ path, store.follow? value path = some node ∧ path.length = ancestors.length := by
  unfold Reaches at reaches
  generalize hcall : (ancestors, node) = call at reaches
  induction reaches generalizing ancestors node with
  | refl =>
    cases hcall
    exact ⟨distinctCells_nil store, nofun, [], rfl, rfl⟩
  | tail hreaches hdescends ih =>
    subst hcall
    cases hdescends with
    | @intro above whole _ cell step hwithin hfresh hleads =>
      obtain ⟨hdistinct, hcomposites, path, hpath, hlength⟩ := ih rfl
      refine ⟨(Descends.intro hwithin hfresh hleads).distinctCells hdistinct, ?_, ?_⟩
      · intro other hmem
        rcases List.mem_cons.1 hmem with rfl | hmem
        · exact ⟨path, whole, hpath, hwithin⟩
        · exact hcomposites other hmem
      · refine ⟨path ++ [step], ?_, ?_⟩
        · rw [follow_append_of_follow hpath, follow_cons_of_part hleads, follow_nil]
        · rw [List.length_append, hlength]
          rfl

/-- The cells that are entered when a value is unfolded are composites that it reaches. -/
theorem Reaches.entered_subset (reaches : store.Reaches value ancestors node)
    (mem : cell ∈ entered ancestors node) : cell ∈ store.composites value := by
  obtain ⟨-, hcomposites, path, hpath, -⟩ := reaches.spec
  rcases mem_entered_iff.1 mem with hmem | hcell
  · exact hcomposites cell hmem
  · exact ⟨path, node, hpath, hcell⟩

/-- There are never more cells entered than composites that the value reaches. -/
theorem Reaches.length_entered_le (reaches : store.Reaches value ancestors node) :
    (entered ancestors node).length ≤ (store.composites value).ncard := by
  have hnodup : (entered ancestors node).Nodup := nodup_entered reaches.spec.1.nodup node
  calc
    (entered ancestors node).length = (entered ancestors node).toFinset.card :=
      (List.toFinset_card_of_nodup hnodup).symm
    _ = ((entered ancestors node).toFinset : Set Identity).ncard := (Set.ncard_coe_finset _).symm
    _ ≤ (store.composites value).ncard := by
      refine Set.ncard_le_ncard (fun cell hmem ↦ ?_) (store.finite_composites value)
      exact reaches.entered_subset (List.mem_toFinset.1 hmem)

end RuleCheck.Store
