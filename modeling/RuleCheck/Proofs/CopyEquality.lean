import RuleCheck.Proofs.Copies

/-!
# A value beside its copy

A copy is made to be shown, not to be compared. Comparing a value with its copy always ends, since
the copy has no cycles, but the two are equal only if the copy lost nothing on the way: a cycle is
cut, an argument list becomes an array, and a float that is not a number equals nothing, not even
itself. Where none of these is below the value, the copy is equal to it.
-/

namespace RuleCheck

/-- A number equals itself unless it is not a number. -/
theorem Binary64.numEq_self_iff {number : Binary64} :
    number.numEq number = true ↔ number ≠ .nan := by
  cases number with
  | nan => simp [numEq, compare?]
  | infinity negative => simp [numEq, compare?]
  | finite negative magnitude => simp [numEq, compare?]

namespace Value

/-- A leaf equals itself unless it is not a number. -/
theorem leafEq_self_iff {value : Value} (simple : value.isComposite = false) :
    LeafEq value value ↔ value ≠ .float .nan := by
  cases value with
  | array | arguments | object => cases simple
  | float number =>
    have hfloat : LeafEq (.float number) (.float number) ↔ number.numEq number = true := by
      constructor
      · intro same
        cases same with
        | float same => exact same
      · exact .float
    rw [hfloat, Binary64.numEq_self_iff, ne_eq, ne_eq, Value.float.injEq]
  | undefined => exact iff_of_true .undefined nofun
  | null => exact iff_of_true .null nofun
  | bool value => exact iff_of_true (.bool value) nofun
  | int value => exact iff_of_true (.int value) nofun
  | text value => exact iff_of_true (.text value) nofun
  | function value => exact iff_of_true (.function value) nofun
  | regex => exact iff_of_true (.regex rfl) nofun
  | date => exact iff_of_true (.date rfl rfl) nofun

/-- A value equals itself on top unless it is not a number. -/
theorem topEq_self_iff {value : Value} : TopEq value value ↔ value ≠ .float .nan := by
  cases value with
  | array ref => exact iff_of_true (.array ref ref) nofun
  | arguments ref => exact iff_of_true (.arguments ref ref) nofun
  | object ref => exact iff_of_true (.object ref ref) nofun
  | _ =>
    rw [← leafEq_self_iff rfl]
    refine ⟨fun same ↦ ?_, .leaf⟩
    cases same with
    | leaf same => exact same

/-- What a value is copied as equals it on top, but for argument lists and what is not a number. -/
theorem CopiedAs.topEq_iff {store later : Store} {value copied : Value}
    (copiedAs : CopiedAs store later value copied) :
    TopEq value copied ↔ (∀ ref, value ≠ .arguments ref) ∧ value ≠ .float .nan := by
  cases copiedAs with
  | array => exact iff_of_true (.array _ _) ⟨nofun, nofun⟩
  | object => exact iff_of_true (.object _ _) ⟨nofun, nofun⟩
  | @arguments ref =>
    refine iff_of_false (fun same ↦ ?_) fun hdiffer ↦ hdiffer.1 ref rfl
    cases same with
    | leaf same => cases same
  | leaf simple =>
    rw [topEq_self_iff]
    refine (and_iff_right fun ref hsame ↦ ?_).symm
    rw [hsame] at simple
    cases simple

end Value

namespace Store

variable {store later : Store} {value copied : Value} {path : List PathStep}

/-- No path in an acyclic value comes to a composite for the second time. -/
theorem Acyclic.not_returns (acyclic : store.Acyclic value) (path : List PathStep) :
    ¬ store.Returns [] value path := by
  rintro ⟨node, cell, hnode, hcell, hmem | ⟨earlier, whole, hshort, hwhole, hsame⟩⟩
  · exact List.not_mem_nil hmem
  · obtain ⟨rest, rfl⟩ := hshort.1
    cases rest with
    | nil => exact hshort.2 (List.append_nil earlier).symm
    | cons step rest =>
      -- the way on from the first time is a loop at the second
      have hloop : store.follow? node (step :: rest) = some node := by
        rw [follow_append_of_follow hwhole] at hnode
        rw [← hnode, follow_cons, follow_cons, part_eq_of_identity hcell hsame]
      exact List.cons_ne_nil _ _ (acyclic _ node _ hnode hloop)

/-- The copy of an acyclic value has all its paths, and what the value holds is copied at each. -/
theorem Shows.alike_copiedAs (shows : later.Shows (store.unfolding [] value) copied)
    (acyclic : store.Acyclic value) :
    Alike (Value.CopiedAs store later) (store.follow? value) (later.follow? copied) := by
  intro path
  have halong := shows.copyAlong (distinctCells_nil store) path
  refine rel_of_isSome ?_ fun node node' hnode hnode' ↦
    halong.kept node node' hnode hnode' (acyclic.not_returns path)
  rw [halong.resolves]
  exact (and_iff_left fun earlier _ ↦ acyclic.not_returns earlier).symm

/-- The copy of an acyclic value is equal to it at the end of all paths exactly if no path leads to an
argument list or to what is not a number. -/
theorem Shows.alike_topEq_iff (shows : later.Shows (store.unfolding [] value) copied)
    (acyclic : store.Acyclic value) :
    Alike Value.TopEq (store.follow? value) (later.follow? copied) ↔
      ∀ path node, store.follow? value path = some node →
        (∀ ref, node ≠ .arguments ref) ∧ node ≠ .float .nan := by
  have halike := shows.alike_copiedAs acyclic
  constructor
  · intro hequal path node hnode
    obtain ⟨node', hnode', hcopiedAs⟩ := exists_of_rel_some (halike path) hnode
    have hpath := hequal path
    rw [hnode, hnode'] at hpath
    exact hcopiedAs.topEq_iff.1 (Option.rel_some_some.1 hpath)
  · intro hall path
    exact rel_mono (halike path) fun node _ hnode _ hcopiedAs ↦
      hcopiedAs.topEq_iff.2 (hall path node hnode)

end Store

/-- How a value compares with its copy: on top and part by part, without a bound on the depth. -/
structure ComparedToCopy (store : Store) (value copied : Value) (later : Store) : Prop where
  terminates : Acc later.Compares (value, copied)
  recursion : ∀ path node node', later.follow? value path = some node →
    later.follow? copied path = some node' →
    later.equal node node' = later.compareParts later.equal node node'
  equal_iff : later.equal value copied = true ↔
    store.Acyclic value ∧
      (∀ path ref, store.follow? value path ≠ some (.arguments ref)) ∧
      ∀ path, store.follow? value path ≠ some (.float .nan)

/-- Every value is compared with its copy in finitely many steps, and is equal to it exactly if
nothing below it is lost in a copy or unequal to itself. -/
theorem copy_compared (store : Store) (value : Value) (closed : store.Closed)
    (held : store.Holds value) :
    ComparedToCopy store value (value.copy store).1 (value.copy store).2 := by
  have hlaid := store.laidOut_copy value
  have hcopied : (value.copy store).2.Acyclic (value.copy store).1 := hlaid.fresh.acyclic
  refine ⟨Store.acc_compares (.inr (hcopied.shallow (Nat.lt_succ_self _))), ?_, ?_⟩
  · intro path node node' _ hnode'
    exact Store.equal_eq_compareParts (.inr (hcopied.at_node hnode'))
  · rw [Store.equal_iff, closed.acyclic_of_le hlaid.grows held,
      funext (closed.follow_of_le hlaid.grows held)]
    refine and_congr_right fun hacyclic ↦ (hlaid.shows.alike_topEq_iff hacyclic).trans ?_
    constructor
    · exact fun hall ↦ ⟨fun path ref hpath ↦ (hall path _ hpath).1 ref rfl,
        fun path hpath ↦ (hall path _ hpath).2 rfl⟩
    · rintro ⟨harguments, hnan⟩ path node hnode
      exact ⟨fun ref hsame ↦ harguments path ref (hsame ▸ hnode),
        fun hsame ↦ hnan path (hsame ▸ hnode)⟩

/-- An array that holds another one twice and a function is equal to its copy. An array that holds
itself is not, nor is one that holds an argument list or what is not a number. -/
theorem copy_compared_lost :
    let store : Store :=
      ⟨#[[.int 1, .text "a"], [.array ⟨0⟩, .array ⟨0⟩, .function .kindName], [.array ⟨2⟩],
        [.arguments ⟨0⟩], [.float .nan]], #[], 0⟩
    let shared := Value.array ⟨1⟩
    let lossy := [Value.array ⟨2⟩, .array ⟨3⟩, .array ⟨4⟩]
    store.Closed ∧ store.Holds shared ∧
      ComparedToCopy store shared (shared.copy store).1 (shared.copy store).2 ∧
      (shared.copy store).2.equal shared (shared.copy store).1 = true ∧
      ∀ value ∈ lossy, (value.copy store).2.equal value (value.copy store).1 = false := by
  intro store shared lossy
  have hclosed : store.Closed := by decide
  have hheld : store.Holds shared := by decide
  exact ⟨hclosed, hheld, copy_compared store shared hclosed hheld, by decide +kernel,
    by decide +kernel⟩

end RuleCheck
