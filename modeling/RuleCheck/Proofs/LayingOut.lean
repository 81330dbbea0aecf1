import Mathlib.Data.List.Forall2
import RuleCheck.Proofs.Unfolding

/-!
# Laying trees out

A tree is laid out from its leaves up: the parts of a composite first, one after another, then the
composite in a cell that is added for it. The stores in between only grow, so what is laid out stays
as it is. The cells of a part are those that were added while it was laid out, therefore no two parts
share one, and the last cell is in none of them. So every composite of the tree gets a new cell of
its own, and the value shows the tree.
-/

namespace RuleCheck

/-- A tree whose leaves have no parts and whose records are fields. -/
inductive Snapshot.Sound : Snapshot → Prop where
  | leaf {value : Value} (simple : value.isComposite = false) : Sound (.leaf value)
  | list {items : List Snapshot} (each : ∀ item ∈ items, item.Sound) : Sound (.list items)
  | record (fields : Fields Snapshot) (each : ∀ entry ∈ fields.entries, entry.2.Sound) :
      Sound (.record fields.entries)

theorem Snapshot.Sound.of_ascending {fields : List (String × Snapshot)}
    (ascending : fields.Pairwise fun left right ↦ left.1 < right.1)
    (each : ∀ entry ∈ fields, entry.2.Sound) : Sound (.record fields) :=
  .record ⟨fields, ascending⟩ each

namespace Fields

variable {α β : Type}

/-- Entries in the order of their keys are the entries of the fields that they give. -/
theorem entries_ofList {entries : List (String × α)}
    (ascending : entries.Pairwise fun left right ↦ left.1 < right.1) :
    (ofList entries).entries = entries := by
  have hdistinct : (entries.map (·.1)).Nodup := nodup_keys ⟨entries, ascending⟩
  have hentries := List.Nodup.of_map _ hdistinct
  have hbuilt := List.Nodup.of_map _ (nodup_keys (ofList entries))
  have hperm : (ofList entries).entries.Perm entries :=
    (List.perm_ext_iff_of_nodup hbuilt hentries).2 fun _ ↦ mem_entries_ofList hdistinct
  refine hperm.eq_of_pairwise (fun left right _ _ hless hgreater ↦ ?_) (ofList entries).ascending
    ascending
  exact absurd (String.lt_trans hless hgreater) (String.lt_irrefl _)

/-- The keys of fields stay in order when other values are put with them. -/
theorem ascending_zip (fields : Fields α) {values : List β}
    (enough : fields.keys.length ≤ values.length) :
    (fields.keys.zip values).Pairwise fun left right ↦ left.1 < right.1 := by
  have hkeys : fields.keys.Pairwise (· < ·) := List.pairwise_map.2 fields.ascending
  rw [← List.map_fst_zip enough] at hkeys
  exact List.pairwise_map.1 hkeys

end Fields

namespace Store

variable {store earlier mid later : Store} {value whole part : Value} {values : List Value}
  {cell : Identity} {step : PathStep} {path : List PathStep} {tree : Snapshot}
  {trees : List Snapshot}

theorem holds_iff_identity :
    store.Holds value ↔ ∀ cell, value.identity? = some cell → cell ∈ store.identities := by
  constructor
  · intro held cell within
    cases value with
    | array | arguments =>
      obtain rfl := Option.some.inj within
      exact mem_identities_list_iff.2 held
    | object =>
      obtain rfl := Option.some.inj within
      exact mem_identities_record_iff.2 held
    | _ => cases within
  · intro within
    cases value with
    | array | arguments => exact mem_identities_list_iff.1 (within _ rfl)
    | object => exact mem_identities_record_iff.1 (within _ rfl)
    | _ => trivial

theorem identities_subset_of_le (le : store ≤ later) : store.identities ⊆ later.identities := by
  intro cell mem
  cases cell with
  | list =>
    exact mem_identities_list_iff.2
      (Nat.lt_of_lt_of_le (mem_identities_list_iff.1 mem) le.1.length_le)
  | record =>
    exact mem_identities_record_iff.2
      (Nat.lt_of_lt_of_le (mem_identities_record_iff.1 mem) le.2.length_le)

theorem mem_composites_self (within : value.identity? = some cell) :
    cell ∈ store.composites value :=
  ⟨[], value, rfl, within⟩

theorem composites_part_subset (leads : store.part? value step = some part) :
    store.composites part ⊆ store.composites value := by
  rintro cell ⟨path, node, hpath, hcell⟩
  exact ⟨step :: path, node, by rw [follow_cons_of_part leads, hpath], hcell⟩

/-- Composites that a value reaches are its own cell and those that its parts reach. -/
theorem mem_composites_cases (mem : cell ∈ store.composites value) :
    value.identity? = some cell ∨
      ∃ step part, store.part? value step = some part ∧ cell ∈ store.composites part := by
  obtain ⟨path, node, hpath, hcell⟩ := mem
  cases path with
  | nil =>
    obtain rfl := Option.some.inj hpath
    exact .inl hcell
  | cons step path =>
    obtain ⟨part, hpart, hrest⟩ := exists_part_of_follow_cons hpath
    exact .inr ⟨step, part, hpart, path, node, hrest, hcell⟩

theorem follow_of_le_of_subset (le : store ≤ later)
    (within : store.composites value ⊆ {cell | cell ∈ store.identities}) (path : List PathStep) :
    later.follow? value path = store.follow? value path := by
  refine follow_of_le_of_holds le (fun path node hpath ↦ ?_) path
  exact holds_iff_identity.2 fun cell hcell ↦ within ⟨path, node, hpath, hcell⟩

/-- What a closed store holds reaches nothing outside. -/
theorem Closed.composites_subset (closed : store.Closed) (held : store.Holds value) :
    store.composites value ⊆ {cell | cell ∈ store.identities} := by
  rintro cell ⟨path, node, hpath, hcell⟩
  exact holds_iff_identity.1 (closed.holds_of_follow held hpath) cell hcell

/-- Composites that are all in the store are still the same when it has grown. -/
theorem composites_of_le (le : store ≤ later)
    (within : store.composites value ⊆ {cell | cell ∈ store.identities}) :
    later.composites value = store.composites value := by
  ext cell
  simp only [composites, follow_of_le_of_subset le within]

/-- In the later store the composites below the value are in new cells, and no two paths lead to
the same cell. -/
structure FreshTree (earlier later : Store) (value : Value) : Prop where
  within : later.composites value ⊆ {cell | cell ∈ later.identities}
  new : ∀ cell ∈ later.composites value, cell ∉ earlier.identities
  apart : ∀ path path' node node' cell, later.follow? value path = some node →
    later.follow? value path' = some node' → node.identity? = some cell →
    node'.identity? = some cell → path = path'

namespace FreshTree

theorem of_le_right (fresh : FreshTree earlier mid value) (le : mid ≤ later) :
    FreshTree earlier later value := by
  have hfollow := funext (follow_of_le_of_subset le fresh.within)
  have hcomposites := composites_of_le le fresh.within
  refine ⟨?_, hcomposites ▸ fresh.new, hfollow ▸ fresh.apart⟩
  rw [hcomposites]
  exact fresh.within.trans fun _ mem ↦ identities_subset_of_le le mem

theorem of_le_left (fresh : FreshTree mid later value) (le : earlier ≤ mid) :
    FreshTree earlier later value where
  within := fresh.within
  new cell mem old := fresh.new cell mem (identities_subset_of_le le old)
  apart := fresh.apart

/-- A composite in a new cell, of which the parts are trees in new cells that share none, is such a
tree itself if its cell is in none of them. -/
theorem of_parts (own : whole.identity? = some cell) (held : cell ∈ later.identities)
    (new : cell ∉ earlier.identities)
    (parts : ∀ step part, later.part? whole step = some part → FreshTree earlier later part)
    (alone : ∀ step part, later.part? whole step = some part → cell ∉ later.composites part)
    (separate : ∀ step step' part part' other, later.part? whole step = some part →
      later.part? whole step' = some part' → other ∈ later.composites part →
      other ∈ later.composites part' → step = step') :
    FreshTree earlier later whole where
  within other mem := by
    rcases mem_composites_cases mem with hown | ⟨step, part, hpart, hmem⟩
    · exact Option.some.inj (own.symm.trans hown) ▸ held
    · exact (parts step part hpart).within hmem
  new other mem := by
    rcases mem_composites_cases mem with hown | ⟨step, part, hpart, hmem⟩
    · exact Option.some.inj (own.symm.trans hown) ▸ new
    · exact (parts step part hpart).new other hmem
  apart path path' node node' other hpath hpath' hother hother' := by
    -- a path into a part does not come back to the cell of the whole
    have hback {step : PathStep} {rest : List PathStep} {node : Value}
        (hrest : later.follow? whole (step :: rest) = some node)
        (hnode : node.identity? = some cell) : False := by
      obtain ⟨part, hpart, hleads⟩ := exists_part_of_follow_cons hrest
      exact alone step part hpart ⟨rest, node, hleads, hnode⟩
    cases path with
    | nil =>
      obtain rfl := Option.some.inj hpath
      obtain rfl := Option.some.inj (own.symm.trans hother)
      cases path' with
      | nil => rfl
      | cons => exact (hback hpath' hother').elim
    | cons step rest =>
      cases path' with
      | nil =>
        obtain rfl := Option.some.inj hpath'
        obtain rfl := Option.some.inj (own.symm.trans hother')
        exact (hback hpath hother).elim
      | cons step' rest' =>
        obtain ⟨part, hpart, hrest⟩ := exists_part_of_follow_cons hpath
        obtain ⟨part', hpart', hrest'⟩ := exists_part_of_follow_cons hpath'
        obtain rfl := separate step step' part part' other hpart hpart'
          ⟨rest, node, hrest, hother⟩ ⟨rest', node', hrest', hother'⟩
        obtain rfl := Option.some.inj (hpart.symm.trans hpart')
        have hsame := (parts step part hpart).apart rest rest' node node' other hrest hrest'
          hother hother'
        rw [hsame]

theorem of_simple (simple : value.isComposite = false) : FreshTree earlier later value := by
  have hparts (step : PathStep) : later.part? value step = none :=
    part_eq_none_of_simple simple step
  have hnone (cell : Identity) : value.identity? ≠ some cell := by
    intro hcell
    cases value <;> simp [Value.isComposite, Value.identity?] at simple hcell
  have hempty (cell : Identity) (mem : cell ∈ later.composites value) : False := by
    rcases mem_composites_cases mem with hown | ⟨step, part, hpart, -⟩
    · exact hnone cell hown
    · exact absurd ((hparts step).symm.trans hpart) (by simp)
  refine ⟨fun cell mem ↦ (hempty cell mem).elim, fun cell mem ↦ (hempty cell mem).elim, ?_⟩
  intro path _ node _ cell hpath _ hcell _
  exact (hempty cell ⟨path, node, hpath, hcell⟩).elim

/-- A tree in new cells has no cycle: no path leads to a cell twice. -/
theorem acyclic (fresh : FreshTree earlier later value) : later.Acyclic value := by
  intro path node loop hpath hloop
  cases loop with
  | nil => rfl
  | cons step rest =>
    obtain ⟨part, hpart, -⟩ := exists_part_of_follow_cons hloop
    obtain ⟨cell, hcell, -⟩ := exists_identity_of_part hpart
    have hround : later.follow? value (path ++ step :: rest) = some node := by
      rw [follow_append_of_follow hpath, hloop]
    exact List.self_eq_append_right.1 (fresh.apart _ _ _ _ cell hpath hround hcell hcell)

end FreshTree

structure FreshRow (earlier later : Store) (values : List Value) : Prop where
  trees : ∀ value ∈ values, FreshTree earlier later value
  disjoint : values.Pairwise fun left right ↦
    ∀ cell ∈ later.composites left, cell ∉ later.composites right

namespace FreshRow

theorem nil (earlier later : Store) : FreshRow earlier later [] :=
  ⟨nofun, .nil⟩

/-- Values that come after another one are in cells that were added later. -/
theorem cons (first : FreshTree earlier mid value) (rest : FreshRow mid later values)
    (le : earlier ≤ mid) (le' : mid ≤ later) : FreshRow earlier later (value :: values) where
  trees other mem := by
    rcases List.mem_cons.1 mem with rfl | mem
    · exact first.of_le_right le'
    · exact (rest.trees other mem).of_le_left le
  disjoint := by
    refine List.pairwise_cons.2 ⟨fun other mem cell hfirst hother ↦ ?_, rest.disjoint⟩
    -- the first value was laid out before any cell of the others was added
    rw [composites_of_le le' first.within] at hfirst
    exact (rest.trees other mem).new cell hother (first.within hfirst)

/-- Of a row, only a value itself has cells of it. -/
theorem position_eq (row : FreshRow earlier later values) {position position' : Nat}
    {left right : Value} (hleft : values[position]? = some left)
    (hright : values[position']? = some right) (memLeft : cell ∈ later.composites left)
    (memRight : cell ∈ later.composites right) : position = position' := by
  have hbelow {first second : Nat} {low high : Value} (hless : first < second)
      (hlow : values[first]? = some low) (hhigh : values[second]? = some high)
      (memLow : cell ∈ later.composites low) : cell ∉ later.composites high := by
    obtain ⟨_, rfl⟩ := List.getElem?_eq_some_iff.1 hlow
    obtain ⟨_, rfl⟩ := List.getElem?_eq_some_iff.1 hhigh
    exact List.pairwise_iff_getElem.1 row.disjoint _ _ _ _ hless cell memLow
  rcases Nat.lt_trichotomy position position' with hless | hsame | hgreater
  · exact (hbelow hless hleft hright memLeft memRight).elim
  · exact hsame
  · exact (hbelow hgreater hright hleft memRight memLeft).elim

/-- A composite in a cell that is added for it, of which the parts are a row laid out before. -/
theorem composite (row : FreshRow earlier mid values) (le : earlier ≤ mid) (le' : mid ≤ later)
    (own : whole.identity? = some cell) (held : cell ∈ later.identities)
    (added : cell ∉ mid.identities) (steps : Nat → PathStep)
    (parts : ∀ step part, later.part? whole step = some part →
      ∃ position, step = steps position ∧ values[position]? = some part) :
    FreshTree earlier later whole := by
  have hfresh {step : PathStep} {part : Value} (hpart : later.part? whole step = some part) :
      FreshTree earlier mid part := by
    obtain ⟨position, -, hposition⟩ := parts step part hpart
    exact row.trees part (List.mem_of_getElem? hposition)
  have hcells {step : PathStep} {part : Value} (hpart : later.part? whole step = some part) :
      later.composites part = mid.composites part := composites_of_le le' (hfresh hpart).within
  refine .of_parts own held (fun old ↦ added (identities_subset_of_le le old))
    (fun step part hpart ↦ (hfresh hpart).of_le_right le') (fun step part hpart mem ↦ ?_) ?_
  · exact added ((hfresh hpart).within (hcells hpart ▸ mem))
  · intro step step' part part' other hpart hpart' mem mem'
    obtain ⟨position, rfl, hposition⟩ := parts step part hpart
    obtain ⟨position', rfl, hposition'⟩ := parts step' part' hpart'
    rw [hcells hpart] at mem
    rw [hcells hpart'] at mem'
    rw [row.position_eq hposition hposition' mem mem']

end FreshRow

/-- The value shows the tree: arrays for lists, objects for records, with the same positions and keys
and with parts that show the parts. -/
inductive Shows (store : Store) : Snapshot → Value → Prop where
  | leaf {value : Value} (simple : value.isComposite = false) : Shows store (.leaf value) value
  | list {items : List Snapshot} {ref : ListRef}
      (length : (store.items ref).length = items.length)
      (each : ∀ (position : Nat) item value, items[position]? = some item →
        (store.items ref)[position]? = some value → Shows store item value) :
      Shows store (.list items) (.array ref)
  | record {fields : List (String × Snapshot)} {ref : RecordRef}
      (keys : (store.fields ref).keys = fields.map (·.1))
      (each : ∀ name field value, (name, field) ∈ fields →
        (store.fields ref).get? name = some value → Shows store field value) :
      Shows store (.record fields) (.object ref)

theorem Shows.of_le (shows : store.Shows tree value) (le : store ≤ later)
    (within : store.composites value ⊆ {cell | cell ∈ store.identities}) :
    later.Shows tree value := by
  induction shows with
  | leaf simple => exact .leaf simple
  | @list items ref length each ih =>
    have hitems : later.items ref = store.items ref :=
      items_of_le le (mem_identities_list_iff.1 (within (mem_composites_self rfl)))
    refine .list (hitems ▸ length) fun position item value hitem hvalue ↦ ?_
    rw [hitems] at hvalue
    have hpart : store.part? (.array ref) (.index position) = some value := hvalue
    exact ih position item value hitem hvalue ((composites_part_subset hpart).trans within)
  | @record fields ref keys each ih =>
    have hfields : later.fields ref = store.fields ref :=
      fields_of_le le (mem_identities_record_iff.1 (within (mem_composites_self rfl)))
    refine .record (hfields ▸ keys) fun name field value hfield hvalue ↦ ?_
    rw [hfields] at hvalue
    have hpart : store.part? (.object ref) (.key name) = some value := hvalue
    exact ih name field value hfield hvalue ((composites_part_subset hpart).trans within)

/-! ## Laying out -/

structure LaidOut (earlier later : Store) (tree : Snapshot) (value : Value) : Prop where
  grows : earlier ≤ later
  fresh : FreshTree earlier later value
  shows : later.Shows tree value

structure LaidOutRow (earlier later : Store) (trees : List Snapshot) (values : List Value) :
    Prop where
  grows : earlier ≤ later
  fresh : FreshRow earlier later values
  shows : List.Forall₂ later.Shows trees values

theorem LaidOutRow.cons (first : LaidOut earlier mid tree value)
    (rest : LaidOutRow mid later trees values) :
    LaidOutRow earlier later (tree :: trees) (value :: values) where
  grows := le_trans first.grows rest.grows
  fresh := .cons first.fresh rest.fresh first.grows rest.grows
  shows := .cons (first.shows.of_le rest.grows first.fresh.within) rest.shows

/-- What is laid out in a row is still shown when the row is put into a composite. -/
theorem LaidOutRow.shows_of_le (row : LaidOutRow earlier mid trees values) (le : mid ≤ later)
    {position : Nat} (htree : trees[position]? = some tree)
    (hvalue : values[position]? = some value) : later.Shows tree value := by
  have hmem : (tree, value) ∈ trees.zip values :=
    List.mem_of_getElem? (List.getElem?_zip_eq_some.2 ⟨htree, hvalue⟩)
  have hshows := (List.forall₂_iff_zip.1 row.shows).2 hmem
  exact hshows.of_le le (row.fresh.trees value (List.of_mem_zip hmem).2).within

/-- A row that is put into a new array. -/
theorem LaidOutRow.list (row : LaidOutRow earlier mid trees values) :
    LaidOut earlier (addList values mid).2 (.list trees) (.array (addList values mid).1) := by
  have hitems := items_addList_self mid values
  have hle : mid ≤ (addList values mid).2 := le_addList values mid
  refine ⟨le_trans row.grows hle, ?_, .list ?_ ?_⟩
  · refine row.fresh.composite row.grows hle rfl ?_ ?_ .index fun step part hpart ↦ ?_
    · exact mem_identities_list_iff.2 (by simp [addList])
    · exact mt mem_identities_list_iff.1 (Nat.lt_irrefl _)
    · cases step with
      | index position => exact ⟨position, rfl, by rw [← hitems]; exact hpart⟩
      | key => cases hpart
  · rw [hitems, row.shows.length_eq]
  · intro position item value hitem hvalue
    rw [hitems] at hvalue
    exact row.shows_of_le hle hitem hvalue

/-- A row that is put into a new object, under the keys of its trees. -/
theorem LaidOutRow.record {fields : Fields Snapshot}
    (row : LaidOutRow earlier mid fields.values values) :
    LaidOut earlier (addRecord (.ofList (fields.keys.zip values)) mid).2 (.record fields.entries)
      (.object (addRecord (.ofList (fields.keys.zip values)) mid).1) := by
  have hlength : fields.keys.length = values.length := by
    rw [← row.shows.length_eq, Fields.keys, Fields.values, List.length_map, List.length_map]
  have hentries := Fields.entries_ofList (fields.ascending_zip (Nat.le_of_eq hlength))
  have hfields := fields_addRecord_self mid (.ofList (fields.keys.zip values))
  have hle : mid ≤ (addRecord (.ofList (fields.keys.zip values)) mid).2 := le_addRecord _ mid
  have hposition {name : String} {value : Value}
      (hvalue : (Fields.ofList (fields.keys.zip values)).get? name = some value) :
      ∃ position : Nat, fields.keys[position]? = some name ∧ values[position]? = some value := by
    rw [Fields.get_eq_some_iff, hentries] at hvalue
    obtain ⟨position, hposition⟩ := List.mem_iff_getElem?.1 hvalue
    exact ⟨position, List.getElem?_zip_eq_some.1 hposition⟩
  refine ⟨le_trans row.grows hle, ?_, .record ?_ ?_⟩
  · refine row.fresh.composite row.grows hle rfl ?_ ?_
      (fun position ↦ .key (fields.keys[position]?.getD "")) fun step part hpart ↦ ?_
    · exact mem_identities_record_iff.2 (by simp [addRecord])
    · exact mt mem_identities_record_iff.1 (Nat.lt_irrefl _)
    · cases step with
      | index => cases hpart
      | key name =>
        rw [part?, hfields] at hpart
        obtain ⟨position, hname, hvalue⟩ := hposition hpart
        exact ⟨position, by rw [hname, Option.getD_some], hvalue⟩
  · rw [hfields, Fields.keys, hentries]
    exact List.map_fst_zip (Nat.le_of_eq hlength)
  · intro name field value hfield hget
    rw [hfields] at hget
    obtain ⟨position, hname, hvalue⟩ := hposition hget
    -- the key is that of one field only, so this is the field in the same position
    rw [Fields.keys, List.getElem?_map] at hname
    obtain ⟨entry, hentry, rfl⟩ := Option.map_eq_some_iff.1 hname
    have hfound : fields.get? entry.1 = some entry.2 :=
      Fields.get_eq_some_iff.2 (List.mem_of_getElem? hentry)
    obtain rfl := Option.some.inj (hfound.symm.trans (Fields.get_eq_some_iff.2 hfield))
    have hvalues : fields.values[position]? = some entry.2 := by
      rw [Fields.values, List.getElem?_map, hentry, Option.map_some]
    exact row.shows_of_le hle hvalues hvalue

/-- Keys stand beside what is laid out, and do not matter to it. -/
theorem buildFields_eq (fields : List (String × Snapshot)) (store : Store) :
    Snapshot.buildFields fields store =
      ((fields.map (·.1)).zip (Snapshot.buildItems (fields.map (·.2)) store).1,
        (Snapshot.buildItems (fields.map (·.2)) store).2) := by
  induction fields generalizing store with
  | nil => rfl
  | cons field rest ih =>
    have hstep : Snapshot.buildFields (field :: rest) store =
        ((field.1, (field.2.build store).1) ::
            (Snapshot.buildFields rest (field.2.build store).2).1,
          (Snapshot.buildFields rest (field.2.build store).2).2) := rfl
    rw [hstep, ih]
    rfl

theorem build_record (fields : Fields Snapshot) (store : Store) :
    (Snapshot.record fields.entries).build store =
      Value.newObject (fields.keys.zip (Snapshot.buildItems fields.values store).1)
        (Snapshot.buildItems fields.values store).2 := by
  have hstep : (Snapshot.record fields.entries).build store =
      Value.newObject (Snapshot.buildFields fields.entries store).1
        (Snapshot.buildFields fields.entries store).2 := rfl
  rw [hstep, buildFields_eq]
  rfl

theorem laidOutRow_buildItems
    (each : ∀ tree ∈ trees, ∀ store, LaidOut store (tree.build store).2 tree (tree.build store).1)
    (store : Store) : LaidOutRow store (Snapshot.buildItems trees store).2 trees
      (Snapshot.buildItems trees store).1 := by
  induction trees generalizing store with
  | nil => exact ⟨le_refl store, .nil store store, .nil⟩
  | cons tree trees ih =>
    have hfirst := each tree List.mem_cons_self store
    exact .cons hfirst (ih (fun _ mem ↦ each _ (List.mem_cons_of_mem _ mem)) _)

/-- A tree is laid out in new cells, one for each of its composites. -/
theorem laidOut_build (sound : tree.Sound) (store : Store) :
    LaidOut store (tree.build store).2 tree (tree.build store).1 := by
  induction sound generalizing store with
  | leaf simple => exact ⟨le_refl store, .of_simple simple, .leaf simple⟩
  | list _ ih => exact (laidOutRow_buildItems ih store).list
  | record fields _ ih =>
    rw [build_record]
    refine (laidOutRow_buildItems (fun tree mem ↦ ?_) store).record
    obtain ⟨entry, hentry, rfl⟩ := List.mem_map.1 mem
    exact ih entry hentry

end Store

end RuleCheck
