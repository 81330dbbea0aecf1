import RuleCheck.Proofs.LayingOut

/-!
# Deep copies

A copy is the tree that a value unfolds to, laid out in new cells. Copying ends on every graph: below
the cells entered so far another one is entered each time, and the marker text is put where a cell
would be entered again.

A path therefore leads somewhere in the copy exactly if it does so in the value and no part of it
that stops short comes back to a cell entered before. At its end stands the marker if the whole path
comes back, and otherwise a copy of what stands there in the value: sharing by itself leaves no mark.
-/

namespace RuleCheck

/-- A value shows what another one does apart from its parts: an array with as many items for an
array or an argument list, an object with the same keys for an object, and any other value for itself. -/
inductive Value.CopiedAs (store later : Store) : Value → Value → Prop where
  | array {ref copy : ListRef} (length : (later.items copy).length = (store.items ref).length) :
      CopiedAs store later (.array ref) (.array copy)
  | arguments {ref copy : ListRef} (length : (later.items copy).length = (store.items ref).length) :
      CopiedAs store later (.arguments ref) (.array copy)
  | object {ref copy : RecordRef} (keys : (later.fields copy).keys = (store.fields ref).keys) :
      CopiedAs store later (.object ref) (.object copy)
  | leaf {value : Value} (simple : value.isComposite = false) : CopiedAs store later value value

theorem Value.CopiedAs.isComposite_eq {store later : Store} {value copied : Value}
    (copiedAs : CopiedAs store later value copied) : value.isComposite = copied.isComposite := by
  cases copiedAs <;> rfl

namespace Store

variable {store later : Store} {value copied node part : Value} {ancestors : List Identity}
  {cell : Identity} {step : PathStep} {path : List PathStep}

theorem sound_expand (store : Store) (depth : Nat) (ancestors : List Identity) (value : Value) :
    (store.expand depth ancestors value).Sound := by
  induction depth generalizing ancestors value with
  | zero => exact .leaf rfl
  | succ depth ih =>
    have hlist (ref : ListRef) : (store.expandList (store.expand depth) ancestors ref).Sound := by
      unfold expandList
      split
      · exact .leaf rfl
      · refine .list fun item hitem ↦ ?_
        obtain ⟨value, -, rfl⟩ := List.mem_map.1 hitem
        exact ih _ value
    rw [expand_succ]
    cases value with
    | array ref => exact hlist ref
    | arguments ref => exact hlist ref
    | object ref =>
      simp only [expandValue, expandRecord]
      split
      · exact .leaf rfl
      · refine .of_ascending (List.pairwise_map.2 (store.fields ref).ascending) fun entry hentry ↦ ?_
        obtain ⟨field, -, rfl⟩ := List.mem_map.1 hentry
        exact ih _ field.2
    | _ => exact .leaf rfl

theorem laidOut_copy (store : Store) (value : Value) :
    LaidOut store (value.copy store).2 (store.unfolding [] value) (value.copy store).1 :=
  laidOut_build (store.sound_expand _ _ value) store

def StopsShort (earlier path : List PathStep) : Prop :=
  earlier <+: path ∧ earlier ≠ path

theorem not_stopsShort_nil (earlier : List PathStep) : ¬ StopsShort earlier [] :=
  fun ⟨hbegins, hproper⟩ ↦ hproper (List.prefix_nil.1 hbegins)

theorem stopsShort_nil_cons (step : PathStep) (path : List PathStep) :
    StopsShort [] (step :: path) :=
  ⟨List.nil_prefix, (List.cons_ne_nil step path).symm⟩

theorem stopsShort_cons_cons_iff {earlier : List PathStep} :
    StopsShort (step :: earlier) (step :: path) ↔ StopsShort earlier path := by
  simp [StopsShort, List.cons_prefix_cons]

/-- What stops short of a path has not begun yet or makes the first step of it. -/
theorem StopsShort.cases {earlier : List PathStep} (short : StopsShort earlier (step :: path)) :
    earlier = [] ∨ ∃ rest, earlier = step :: rest ∧ StopsShort rest path := by
  rcases List.prefix_cons_iff.1 short.1 with rfl | ⟨rest, rfl, -⟩
  · exact .inl rfl
  · exact .inr ⟨rest, rfl, stopsShort_cons_cons_iff.1 short⟩

/-- The path leads to a composite whose cell is one of the given ones, or that of a composite met
earlier on the path. -/
def Returns (store : Store) (ancestors : List Identity) (value : Value) (path : List PathStep) :
    Prop :=
  ∃ node cell, store.follow? value path = some node ∧ node.identity? = some cell ∧
    (cell ∈ ancestors ∨ ∃ earlier whole, StopsShort earlier path ∧
      store.follow? value earlier = some whole ∧ whole.identity? = some cell)

def Unbroken (store : Store) (ancestors : List Identity) (value : Value) (path : List PathStep) :
    Prop :=
  ∀ earlier, StopsShort earlier path → ¬ store.Returns ancestors value earlier

theorem returns_nil_iff : store.Returns ancestors value [] ↔
    ∃ cell, value.identity? = some cell ∧ cell ∈ ancestors := by
  constructor
  · rintro ⟨node, cell, hnode, hcell, hmem | ⟨earlier, _, hshort, -⟩⟩
    · exact ⟨cell, Option.some.inj hnode ▸ hcell, hmem⟩
    · exact absurd hshort (not_stopsShort_nil earlier)
  · rintro ⟨cell, hcell, hmem⟩
    exact ⟨value, cell, rfl, hcell, .inl hmem⟩

/-- After a step, the cell of the value counts as one of those above. -/
theorem returns_cons_iff (within : value.identity? = some cell)
    (leads : store.part? value step = some part) :
    store.Returns ancestors value (step :: path) ↔ store.Returns (cell :: ancestors) part path := by
  have hpart (rest : List PathStep) := follow_cons_of_part leads rest
  constructor
  · rintro ⟨node, other, hnode, hother, habove⟩
    refine ⟨node, other, (hpart path).symm.trans hnode, hother, ?_⟩
    rcases habove with hmem | ⟨earlier, whole, hshort, hwhole, hsame⟩
    · exact .inl (List.mem_cons_of_mem _ hmem)
    · rcases hshort.cases with rfl | ⟨rest, rfl, hrest⟩
      · obtain rfl := Option.some.inj hwhole
        obtain rfl := Option.some.inj (within.symm.trans hsame)
        exact .inl List.mem_cons_self
      · exact .inr ⟨rest, whole, hrest, (hpart rest).symm.trans hwhole, hsame⟩
  · rintro ⟨node, other, hnode, hother, habove⟩
    refine ⟨node, other, (hpart path).trans hnode, hother, ?_⟩
    rcases habove with hmem | ⟨earlier, whole, hshort, hwhole, hsame⟩
    · rcases List.mem_cons.1 hmem with rfl | hmem
      · exact .inr ⟨[], value, stopsShort_nil_cons step path, rfl, within⟩
      · exact .inl hmem
    · exact .inr ⟨step :: earlier, whole, stopsShort_cons_cons_iff.2 hshort,
        (hpart earlier).trans hwhole, hsame⟩

theorem unbroken_nil (store : Store) (ancestors : List Identity) (value : Value) :
    store.Unbroken ancestors value [] :=
  fun earlier hshort ↦ absurd hshort (not_stopsShort_nil earlier)

theorem unbroken_cons_iff (within : value.identity? = some cell)
    (leads : store.part? value step = some part) :
    store.Unbroken ancestors value (step :: path) ↔
      cell ∉ ancestors ∧ store.Unbroken (cell :: ancestors) part path := by
  constructor
  · intro hunbroken
    refine ⟨fun hmem ↦ ?_, fun earlier hshort hreturns ↦ ?_⟩
    · exact hunbroken [] (stopsShort_nil_cons step path) (returns_nil_iff.2 ⟨cell, within, hmem⟩)
    · exact hunbroken (step :: earlier) (stopsShort_cons_cons_iff.2 hshort)
        ((returns_cons_iff within leads).2 hreturns)
  · rintro ⟨hfresh, hunbroken⟩ earlier hshort hreturns
    rcases hshort.cases with rfl | ⟨rest, rfl, hrest⟩
    · obtain ⟨other, hother, hmem⟩ := returns_nil_iff.1 hreturns
      exact hfresh (Option.some.inj (within.symm.trans hother) ▸ hmem)
    · exact hunbroken rest hrest ((returns_cons_iff within leads).1 hreturns)

/-- What shows the unfolding of a value that is entered already is the marker. -/
theorem Shows.eq_circular (shows : later.Shows (store.unfolding ancestors value) copied)
    (distinct : store.DistinctCells ancestors) (within : value.identity? = some cell)
    (mem : cell ∈ ancestors) : copied = .text Snapshot.circularText := by
  have hcircular : store.unfolding ancestors value = .circular := by
    rw [unfolding_eq_expandValue distinct, expandValue_of_entered within mem]
  rw [hcircular] at shows
  cases shows
  rfl

/-- What shows a list cell that is entered is an array with as many items. -/
theorem Shows.expandList {below : List Identity → Value → Snapshot} {ref : ListRef}
    (shows : later.Shows (store.expandList below ancestors ref) copied)
    (fresh : .list ref ∉ ancestors) :
    ∃ copy, copied = .array copy ∧ (later.items copy).length = (store.items ref).length ∧
      ∀ step, Option.Rel (fun part part' ↦ later.Shows (below (.list ref :: ancestors) part) part')
        (store.part? (.array ref) step) (later.part? (.array copy) step) := by
  rw [Store.expandList, if_neg (by simpa using fresh)] at shows
  cases shows with
  | @list _ copy hlength heach =>
    rw [List.length_map] at hlength
    refine ⟨copy, rfl, hlength, fun step ↦ ?_⟩
    cases step with
    | key => exact .none
    | index position =>
      refine rel_of_isSome ?_ fun item item' hitem hitem' ↦ heach position _ item' ?_ hitem'
      · rw [part?, part?, isSome_getElem?, isSome_getElem?, hlength]
      · exact List.getElem?_map.trans (congrArg (Option.map _) hitem)

/-- What shows a record cell that is entered is an object with the same keys. -/
theorem Shows.expandRecord {below : List Identity → Value → Snapshot} {ref : RecordRef}
    (shows : later.Shows (store.expandRecord below ancestors ref) copied)
    (fresh : .record ref ∉ ancestors) :
    ∃ copy, copied = .object copy ∧ (later.fields copy).keys = (store.fields ref).keys ∧
      ∀ step, Option.Rel (fun part part' ↦ later.Shows (below (.record ref :: ancestors) part) part')
        (store.part? (.object ref) step) (later.part? (.object copy) step) := by
  rw [Store.expandRecord, if_neg (by simpa using fresh)] at shows
  cases shows with
  | @record _ copy hkeys heach =>
    have hsame : (later.fields copy).keys = (store.fields ref).keys := by
      rw [hkeys, List.map_map]
      rfl
    refine ⟨copy, rfl, hsame, fun step ↦ ?_⟩
    cases step with
    | index => exact .none
    | key name =>
      refine rel_of_isSome ?_ fun field field' hfield hfield' ↦ heach name _ field' ?_ hfield'
      · rw [part?, part?, Fields.isSome_get_iff, Fields.isSome_get_iff, hsame]
      · exact List.mem_map.2 ⟨(name, field), Fields.get_eq_some_iff.1 hfield, rfl⟩

/-- What shows the unfolding of a value that is not entered yet is a copy of it, and a step leads
into both or into neither. -/
theorem Shows.one_level (shows : later.Shows (store.unfolding ancestors value) copied)
    (distinct : store.DistinctCells ancestors)
    (fresh : ∀ cell, value.identity? = some cell → cell ∉ ancestors) :
    Value.CopiedAs store later value copied ∧
      ∀ step, Option.Rel (fun part part' ↦ ∃ cell, value.identity? = some cell ∧
          later.Shows (store.unfolding (cell :: ancestors) part) part')
        (store.part? value step) (later.part? copied step) := by
  rw [unfolding_eq_expandValue distinct] at shows
  cases value with
  | array ref =>
    obtain ⟨copy, rfl, hlength, hparts⟩ := Shows.expandList shows (fresh _ rfl)
    exact ⟨.array hlength, fun step ↦ rel_mono (hparts step) fun _ _ _ _ hshows ↦ ⟨_, rfl, hshows⟩⟩
  | arguments ref =>
    obtain ⟨copy, rfl, hlength, hparts⟩ := Shows.expandList shows (fresh _ rfl)
    refine ⟨.arguments hlength, fun step ↦ ?_⟩
    rw [part_eq_of_identity rfl (rfl : (Value.array ref).identity? = _) step]
    exact rel_mono (hparts step) fun _ _ _ _ hshows ↦ ⟨_, rfl, hshows⟩
  | object ref =>
    obtain ⟨copy, rfl, hkeys, hparts⟩ := Shows.expandRecord shows (fresh _ rfl)
    exact ⟨.object hkeys, fun step ↦ rel_mono (hparts step) fun _ _ _ _ hshows ↦ ⟨_, rfl, hshows⟩⟩
  | _ =>
    cases shows
    exact ⟨.leaf rfl, fun _ ↦ .none⟩

structure CopyAlong (store later : Store) (ancestors : List Identity) (value copied : Value)
    (path : List PathStep) : Prop where
  resolves : (later.follow? copied path).isSome = true ↔
    (store.follow? value path).isSome = true ∧ store.Unbroken ancestors value path
  marked : ∀ node', later.follow? copied path = some node' →
    store.Returns ancestors value path → node' = .text Snapshot.circularText
  kept : ∀ node node', store.follow? value path = some node →
    later.follow? copied path = some node' → ¬ store.Returns ancestors value path →
    Value.CopiedAs store later node node'

/-- At the top stands the marker or a copy. -/
theorem Shows.copyAlong_nil (shows : later.Shows (store.unfolding ancestors value) copied)
    (distinct : store.DistinctCells ancestors) :
    store.CopyAlong later ancestors value copied [] where
  resolves := iff_of_true rfl ⟨rfl, unbroken_nil store ancestors value⟩
  marked node' hnode' hreturns := by
    obtain rfl := Option.some.inj hnode'
    obtain ⟨cell, hcell, hmem⟩ := returns_nil_iff.1 hreturns
    exact shows.eq_circular distinct hcell hmem
  kept node node' hnode hnode' hreturns := by
    obtain rfl := Option.some.inj hnode
    obtain rfl := Option.some.inj hnode'
    refine (shows.one_level distinct fun cell hcell hmem ↦ ?_).1
    exact hreturns (returns_nil_iff.2 ⟨cell, hcell, hmem⟩)

/-- A path into nothing on both sides. -/
theorem copyAlong_of_none (hvalue : store.follow? value path = none)
    (hcopied : later.follow? copied path = none) :
    store.CopyAlong later ancestors value copied path where
  resolves := by rw [hvalue, hcopied]; simp
  marked node' hnode' := absurd (hcopied.symm.trans hnode') (by simp)
  kept node node' hnode := absurd (hvalue.symm.trans hnode) (by simp)

/-- A step further into the value and into its copy. -/
theorem CopyAlong.cons {part' : Value}
    (along : store.CopyAlong later (cell :: ancestors) part part' path)
    (within : value.identity? = some cell) (fresh : cell ∉ ancestors)
    (hpart : store.part? value step = some part) (hpart' : later.part? copied step = some part') :
    store.CopyAlong later ancestors value copied (step :: path) where
  resolves := by
    rw [follow_cons_of_part hpart, follow_cons_of_part hpart', along.resolves,
      unbroken_cons_iff within hpart, and_iff_right fresh]
  marked node' hnode' hreturns :=
    along.marked node' (follow_cons_of_part hpart' path ▸ hnode')
      ((returns_cons_iff within hpart).1 hreturns)
  kept node node' hnode hnode' hreturns :=
    along.kept node node' (follow_cons_of_part hpart path ▸ hnode)
      (follow_cons_of_part hpart' path ▸ hnode') (mt (returns_cons_iff within hpart).2 hreturns)

/-- Below a marker there is nothing, and every path there is broken off. -/
theorem copyAlong_circular (within : value.identity? = some cell) (mem : cell ∈ ancestors) :
    store.CopyAlong later ancestors value (.text Snapshot.circularText) (step :: path) where
  resolves := by
    refine iff_of_false (by simp [follow_cons, part?]) fun ⟨_, hunbroken⟩ ↦ ?_
    exact hunbroken [] (stopsShort_nil_cons step path) (returns_nil_iff.2 ⟨cell, within, mem⟩)
  marked node' hnode' := by simp [follow_cons, part?] at hnode'
  kept node node' _ hnode' := by simp [follow_cons, part?] at hnode'

theorem Shows.copyAlong (shows : later.Shows (store.unfolding ancestors value) copied)
    (distinct : store.DistinctCells ancestors) (path : List PathStep) :
    store.CopyAlong later ancestors value copied path := by
  -- each step puts another cell above, so the ancestors are arbitrary
  induction path generalizing ancestors value copied with
  | nil => exact shows.copyAlong_nil distinct
  | cons step path ih =>
    by_cases hentered : ∃ cell, value.identity? = some cell ∧ cell ∈ ancestors
    · obtain ⟨cell, hcell, hmem⟩ := hentered
      obtain rfl := shows.eq_circular distinct hcell hmem
      exact copyAlong_circular hcell hmem
    · have hfresh (cell : Identity) (hcell : value.identity? = some cell) : cell ∉ ancestors :=
        fun hmem ↦ hentered ⟨cell, hcell, hmem⟩
      have hstep := (shows.one_level distinct hfresh).2 step
      generalize hpart : store.part? value step = left at hstep
      generalize hpart' : later.part? copied step = right at hstep
      cases hstep with
      | none =>
        exact copyAlong_of_none (by rw [follow_cons, hpart, Option.bind_none])
          (by rw [follow_cons, hpart', Option.bind_none])
      | some hshows =>
        obtain ⟨cell, hcell, hshows⟩ := hshows
        have hdistinct := (Descends.intro hcell (hfresh cell hcell) hpart).distinctCells distinct
        exact (ih hshows hdistinct).cons hcell (hfresh cell hcell) hpart hpart'

end Store

/-! ## Copying ends in a fresh tree -/

/-- What copying a value does: the copy is in the later store. The tree that is laid out comes of
unfolding each value that is descended to by unfolding its parts, without a bound on the depth, and
of nothing else; what is laid out meanwhile makes no difference to it. -/
structure FreshCopy (store : Store) (value copied : Value) (later : Store) : Prop where
  terminates : Acc (fun inner outer ↦ store.Descends outer inner) ([], value)
  recursion : ∃ below : List Identity → Value → Snapshot, below [] value = store.snapshot value ∧
    ∀ ancestors node, store.Reaches value ancestors node →
      below ancestors node = store.expandValue below ancestors node
  determined : ∀ below : List Identity → Value → Snapshot,
    (∀ ancestors node, store.Reaches value ancestors node →
      below ancestors node = store.expandValue below ancestors node) →
    below [] value = store.snapshot value
  entered : ∀ ancestors node, store.Reaches value ancestors node →
    (Store.entered ancestors node).Nodup ∧
      ∀ cell ∈ Store.entered ancestors node, cell ∈ store.composites value
  finite : (store.composites value).Finite
  depth : ∀ ancestors node, store.Reaches value ancestors node →
    (Store.entered ancestors node).length ≤ (store.composites value).ncard
  grows : store ≤ later
  steady : store.Closed → store.Holds value → ∀ between, store ≤ between →
    between.snapshot value = store.snapshot value
  acyclic : later.Acyclic copied
  apart : ∀ path path' node node' cell, later.follow? copied path = some node →
    later.follow? copied path' = some node' → node.identity? = some cell →
    node'.identity? = some cell → path = path'
  new : ∀ cell ∈ later.composites copied, cell ∈ later.identities ∧ cell ∉ store.identities

/-- Every value of every store has a copy that is a tree in new cells. -/
theorem copy_fresh (store : Store) (value : Value) :
    FreshCopy store value (value.copy store).1 (value.copy store).2 where
  terminates := Store.acc_descends (Store.distinctCells_nil store) value
  recursion := ⟨store.unfolding, rfl, fun _ node reaches ↦
    Store.unfolding_eq_expandValue reaches.spec.1 node⟩
  determined _ recursion := Store.eq_unfolding_of_forall (Store.distinctCells_nil store)
    fun reached reaches ↦ recursion reached.1 reached.2 reaches
  entered _ node reaches :=
    ⟨Store.nodup_entered reaches.spec.1.nodup node, fun _ mem ↦ reaches.entered_subset mem⟩
  finite := store.finite_composites value
  depth _ _ reaches := reaches.length_entered_le
  grows := (store.laidOut_copy value).grows
  steady closed held _ le := closed.snapshot_of_le le held
  acyclic := (store.laidOut_copy value).fresh.acyclic
  apart := (store.laidOut_copy value).fresh.apart
  new cell mem :=
    ⟨(store.laidOut_copy value).fresh.within mem, (store.laidOut_copy value).fresh.new cell mem⟩

/-! ## Cycles are cut at their back edges -/

/-- Where a copy differs from the value that it was made of. At the end of a path that comes to a
composite for the second time stands the marker, and no path goes on from there. A composite is
copied on every other path, however many lead to it. -/
structure CutAtBackEdges (store : Store) (value copied : Value) (later : Store) : Prop where
  resolves : ∀ path node, store.follow? value path = some node →
    ((later.follow? copied path).isSome = true ↔ ∀ earlier, Store.StopsShort earlier path →
      ¬ store.Returns [] value earlier)
  marked : ∀ path node', later.follow? copied path = some node' →
    store.Returns [] value path → node' = .text "[Circular]"
  kept : ∀ path node node', store.follow? value path = some node →
    later.follow? copied path = some node' → ¬ store.Returns [] value path →
    Value.CopiedAs store later node node'
  only : ∀ path, store.follow? value path = none → later.follow? copied path = none
  shared : ∀ path node, store.follow? value path = some node → node.isComposite = true →
    (∀ earlier, earlier <+: path → ¬ store.Returns [] value earlier) →
    ∃ node', later.follow? copied path = some node' ∧ node'.isComposite = true ∧
      Value.CopiedAs store later node node'

/-- A copy has the paths of its value up to where they come back, and the marker there. -/
theorem copy_cuts_back_edges (store : Store) (value : Value) :
    CutAtBackEdges store value (value.copy store).1 (value.copy store).2 := by
  have halong := (store.laidOut_copy value).shows.copyAlong (Store.distinctCells_nil store)
  refine ⟨fun path node hnode ↦ ?_, fun path ↦ (halong path).marked, fun path ↦ (halong path).kept,
    fun path hnone ↦ ?_, fun path node hnode hcomposite hclear ↦ ?_⟩
  · rw [(halong path).resolves, hnode, Option.isSome_some, and_iff_right rfl]
    exact Iff.rfl
  · rw [← Option.not_isSome_iff_eq_none, (halong path).resolves, hnone]
    simp
  · obtain ⟨node', hnode'⟩ := Option.isSome_iff_exists.1
      ((halong path).resolves.2 ⟨by rw [hnode]; rfl, fun earlier hshort ↦ hclear earlier hshort.1⟩)
    have hcopied := (halong path).kept node node' hnode hnode' (hclear path List.prefix_rfl)
    exact ⟨node', hnode', hcopied.isComposite_eq.symm.trans hcomposite, hcopied⟩

/-- An array that holds itself once and another one twice: its copy holds the marker and two arrays.
-/
example :
    let store : Store := ⟨#[[.array ⟨0⟩, .array ⟨1⟩, .array ⟨1⟩], [.bool true]], #[], 0⟩
    let copied := (Value.array ⟨0⟩).copy store
    copied.1 = .array ⟨4⟩ ∧ copied.2.lists = store.lists ++
      #[[.bool true], [.bool true], [.text "[Circular]", .array ⟨2⟩, .array ⟨3⟩]] :=
  ⟨rfl, rfl⟩

end RuleCheck
