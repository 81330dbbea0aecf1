import Mathlib.Data.List.Perm.Subperm
import RuleCheck.Value.Store

/-!
# Paths through values

A path leads into a value step by step, by positions in arrays and argument lists and by keys of
objects. It may go through shared parts and round cycles. What lies at the ends of all paths is what
the value unfolds to; the identities of composites do not show in it.

A value is acyclic if no path from it comes to a value and then leads back to that value. On the way
along a path through an acyclic value every composite is in a cell of its own, so no path is longer
than there are cells. Conversely, if all paths from a value are bounded, it is acyclic.
-/

namespace RuleCheck

inductive PathStep where
  | index (position : Nat)
  | key (name : String)

namespace Store

def part? (store : Store) : Value → PathStep → Option Value
  | .array ref, .index position => (store.items ref)[position]?
  | .arguments ref, .index position => (store.items ref)[position]?
  | .object ref, .key name => (store.fields ref).get? name
  | _, _ => none

def follow? (store : Store) (value : Value) : List PathStep → Option Value
  | [] => some value
  | step :: path => (store.part? value step).bind fun part ↦ store.follow? part path

variable {store : Store} {value part node : Value} {path rest : List PathStep} {step : PathStep}

@[simp] theorem follow_nil (store : Store) (value : Value) : store.follow? value [] = some value :=
  rfl

theorem follow_cons (store : Store) (value : Value) (step : PathStep) (path : List PathStep) :
    store.follow? value (step :: path) =
      (store.part? value step).bind fun part ↦ store.follow? part path := rfl

theorem follow_cons_of_part (leads : store.part? value step = some part) (path : List PathStep) :
    store.follow? value (step :: path) = store.follow? part path := by
  rw [follow_cons, leads, Option.bind_some]

/-- A path that leads somewhere leads to a part first. -/
theorem exists_part_of_follow_cons (leads : store.follow? value (step :: path) = some node) :
    ∃ part, store.part? value step = some part ∧ store.follow? part path = some node := by
  rw [follow_cons] at leads
  exact Option.bind_eq_some_iff.1 leads

theorem follow_append (store : Store) (value : Value) (path rest : List PathStep) :
    store.follow? value (path ++ rest) =
      (store.follow? value path).bind fun node ↦ store.follow? node rest := by
  induction path generalizing value with
  | nil => rfl
  | cons step path ih =>
    rw [List.cons_append, follow_cons, follow_cons]
    cases store.part? value step with
    | none => rfl
    | some part => exact ih part

theorem follow_append_of_follow (leads : store.follow? value path = some node)
    (rest : List PathStep) :
    store.follow? value (path ++ rest) = store.follow? node rest := by
  rw [follow_append, leads, Option.bind_some]

section Related

variable {related weaker further : Value → Value → Prop} {left middle right : Option Value}

theorem rel_mono (rel : Option.Rel related left right)
    (weaken : ∀ value other, left = some value → right = some other → related value other →
      weaker value other) : Option.Rel weaker left right := by
  cases rel with
  | none => exact .none
  | some hrelated => exact .some (weaken _ _ rfl rfl hrelated)

theorem rel_of_isSome (same : left.isSome = true ↔ right.isSome = true)
    (each : ∀ value other, left = some value → right = some other → related value other) :
    Option.Rel related left right := by
  cases left with
  | none =>
    cases right with
    | none => exact .none
    | some => cases same.2 rfl
  | some value =>
    cases right with
    | none => cases same.1 rfl
    | some other => exact .some (each value other rfl rfl)

theorem rel_symm (rel : Option.Rel related left right)
    (converse : ∀ value other, related value other → weaker other value) :
    Option.Rel weaker right left := by
  cases rel with
  | none => exact .none
  | some hrelated => exact .some (converse _ _ hrelated)

theorem rel_trans (rel : Option.Rel related left middle) (rel' : Option.Rel further middle right)
    (compose : ∀ value between other, related value between → further between other →
      weaker value other) : Option.Rel weaker left right := by
  cases rel with
  | none => cases rel'; exact .none
  | some hrelated =>
    cases rel' with
    | some hfurther => exact .some (compose _ _ _ hrelated hfurther)

theorem exists_of_rel_some (rel : Option.Rel related left right) {value : Value}
    (hleft : left = some value) : ∃ other, right = some other ∧ related value other := by
  cases rel with
  | none => cases hleft
  | some hrelated => exact ⟨_, rfl, Option.some.inj hleft ▸ hrelated⟩

theorem isSome_iff_of_rel (rel : Option.Rel related left right) :
    left.isSome = true ↔ right.isSome = true := by
  cases rel <;> exact Iff.rfl

theorem map_eq_map_of_rel {β : Type} {first second : Value → β}
    (rel : Option.Rel (fun value other ↦ first value = second other) left right) :
    left.map first = right.map second := by
  cases rel with
  | none => rfl
  | some hsame => exact congrArg some hsame

end Related

/-- Two unfoldings have the same paths, and related values at their ends. -/
def Alike (related : Value → Value → Prop) (left right : List PathStep → Option Value) : Prop :=
  ∀ path, Option.Rel related (left path) (right path)

/-- Values unfold alike if they are related themselves and so do the parts that each step leads to.
-/
theorem alike_iff {related : Value → Value → Prop} {other : Store} {left right : Value} :
    Alike related (store.follow? left) (other.follow? right) ↔
      related left right ∧
      ∀ step, Option.Rel (fun part part' ↦ Alike related (store.follow? part) (other.follow? part'))
        (store.part? left step) (other.part? right step) := by
  constructor
  · intro alike
    refine ⟨Option.rel_some_some.1 (alike []), fun step ↦ ?_⟩
    have hstep : Option.Rel related (store.part? left step) (other.part? right step) := by
      have hpath := alike [step]
      rw [follow_cons, follow_cons] at hpath
      simpa using hpath
    refine rel_mono hstep fun part part' hpart hpart' _ path ↦ ?_
    rw [← follow_cons_of_part hpart, ← follow_cons_of_part hpart']
    exact alike (step :: path)
  · rintro ⟨htop, hparts⟩ path
    cases path with
    | nil => exact .some htop
    | cons step path =>
      rw [follow_cons, follow_cons]
      generalize hleft : store.part? left step = part
      generalize hright : other.part? right step = part'
      have hstep := hparts step
      rw [hleft, hright] at hstep
      cases hstep with
      | none => exact .none
      | some halike => exact halike path

/-- Unfoldings are alike the other way round, under the converse relation. -/
theorem Alike.symm {related : Value → Value → Prop} {left right : List PathStep → Option Value}
    (alike : Alike related left right)
    (converse : ∀ value other, related value other → related other value) :
    Alike related right left :=
  fun path ↦ rel_symm (alike path) converse

def identities (store : Store) : List Identity :=
  (List.range store.lists.size).map (fun index ↦ .list ⟨index⟩) ++
    (List.range store.records.size).map fun index ↦ .record ⟨index⟩

@[simp] theorem length_identities (store : Store) : store.identities.length = store.size := by
  simp [identities, size]

theorem mem_identities_list_iff {ref : ListRef} :
    .list ref ∈ store.identities ↔ ref.index < store.lists.size := by
  cases ref
  simp [identities]

theorem mem_identities_record_iff {ref : RecordRef} :
    .record ref ∈ store.identities ↔ ref.index < store.records.size := by
  cases ref
  simp [identities]

/-- Only cells of the store have items. -/
theorem index_lt_of_mem_items {ref : ListRef} (mem : value ∈ store.items ref) :
    ref.index < store.lists.size := by
  refine Nat.lt_of_not_le fun hpast ↦ ?_
  rw [items, Array.getElem?_eq_none hpast] at mem
  simp at mem

theorem index_lt_of_get {ref : RecordRef} {name : String}
    (found : (store.fields ref).get? name = some value) : ref.index < store.records.size := by
  refine Nat.lt_of_not_le fun hpast ↦ ?_
  rw [fields, Array.getElem?_eq_none hpast] at found
  simp [Fields.get?, Fields.empty] at found

/-- Only composites in cells of the store have parts. -/
theorem exists_identity_of_part (leads : store.part? value step = some part) :
    ∃ identity, value.identity? = some identity ∧ identity ∈ store.identities := by
  unfold part? at leads
  split at leads
  · have hbound := index_lt_of_mem_items (List.mem_of_getElem? leads)
    exact ⟨_, rfl, mem_identities_list_iff.2 hbound⟩
  · have hbound := index_lt_of_mem_items (List.mem_of_getElem? leads)
    exact ⟨_, rfl, mem_identities_list_iff.2 hbound⟩
  · exact ⟨_, rfl, mem_identities_record_iff.2 (index_lt_of_get leads)⟩
  · cases leads

/-- Composites in the same cell have the same parts. -/
theorem part_eq_of_identity {other : Value} {identity : Identity}
    (hvalue : value.identity? = some identity) (hother : other.identity? = some identity)
    (step : PathStep) : store.part? value step = store.part? other step := by
  have hsame := hvalue.trans hother.symm
  cases value with
  | array | arguments =>
    cases other with
    | array | arguments => cases hsame; cases step <;> rfl
    | _ => cases hsame
  | object =>
    cases other with
    | object => cases hsame; rfl
    | _ => cases hsame
  | _ => cases hvalue

/-- Different cells of a store are at most as many as there are cells. -/
theorem length_le_size_of_nodup {cells : List Identity} (distinct : cells.Nodup)
    (within : cells ⊆ store.identities) : cells.length ≤ store.size := by
  rw [← length_identities]
  exact (distinct.subperm within).length_le

/-! ## Acyclic values -/

/-- No path comes to a value from which another path leads back to it. -/
def Acyclic (store : Store) (value : Value) : Prop :=
  ∀ path node loop, store.follow? value path = some node →
    store.follow? node loop = some node → loop = []

theorem Acyclic.at_node (acyclic : store.Acyclic value)
    (leads : store.follow? value path = some node) : store.Acyclic node := by
  intro rest node' loop hrest hloop
  refine acyclic (path ++ rest) node' loop ?_ hloop
  rw [follow_append_of_follow leads, hrest]

theorem Acyclic.at_part (acyclic : store.Acyclic value)
    (leads : store.part? value step = some part) : store.Acyclic part := by
  have hpath : store.follow? value [step] = some part := follow_cons_of_part leads []
  exact acyclic.at_node hpath

/-- A value with acyclic parts is acyclic: a path from it back to it would lead from a part back to
that part. -/
theorem acyclic_of_parts
    (parts : ∀ step part, store.part? value step = some part → store.Acyclic part) :
    store.Acyclic value := by
  intro path node loop hpath hloop
  cases path with
  | cons step path =>
    obtain ⟨part, hpart, hrest⟩ := exists_part_of_follow_cons hpath
    exact parts step part hpart path node loop hrest hloop
  | nil =>
    obtain rfl := Option.some.inj hpath
    cases loop with
    | nil => rfl
    | cons step loop =>
      obtain ⟨part, hpart, hrest⟩ := exists_part_of_follow_cons hloop
      have hback : store.follow? part (loop ++ [step]) = some part := by
        rw [follow_append_of_follow hrest, follow_cons_of_part hpart, follow_nil]
      exact absurd (parts step part hpart [] part _ rfl hback) (by simp)

/-- From a composite in each of the given cells some path leads on to the value. -/
def LieAbove (store : Store) (cells : List Identity) (value : Value) : Prop :=
  ∀ cell ∈ cells, ∃ whole step path, whole.identity? = some cell ∧
    store.follow? whole (step :: path) = some value

/-- An acyclic value is in none of the cells above it. -/
theorem Acyclic.not_mem_of_lieAbove (acyclic : store.Acyclic value) {cells : List Identity}
    (above : store.LieAbove cells value) {cell : Identity} (within : value.identity? = some cell) :
    cell ∉ cells := by
  intro mem
  obtain ⟨whole, step, path, hwhole, hleads⟩ := above cell mem
  have hloop : store.follow? value (step :: path) = some value := by
    rw [← hleads, follow_cons, follow_cons, part_eq_of_identity within hwhole]
  exact List.cons_ne_nil _ _ (acyclic [] value _ rfl hloop)

theorem LieAbove.at_part {cells : List Identity} (above : store.LieAbove cells value)
    {cell : Identity} (within : value.identity? = some cell)
    (leads : store.part? value step = some part) :
    store.LieAbove (cell :: cells) part := by
  intro other mem
  rcases List.mem_cons.1 mem with rfl | mem
  · exact ⟨value, step, [], within, follow_cons_of_part leads []⟩
  · obtain ⟨whole, first, path, hwhole, hpath⟩ := above other mem
    refine ⟨whole, first, path ++ [step], hwhole, ?_⟩
    rw [← List.cons_append, follow_append_of_follow hpath, follow_cons_of_part leads, follow_nil]

/-- The cells above an acyclic value and the steps of a path from it together are no more than there
are cells: with each step another cell comes to lie above. -/
theorem Acyclic.length_add_length_le (acyclic : store.Acyclic value) {cells : List Identity}
    (distinct : cells.Nodup) (within : cells ⊆ store.identities)
    (above : store.LieAbove cells value) (leads : store.follow? value path = some node) :
    cells.length + path.length ≤ store.size := by
  induction path generalizing value cells with
  | nil => exact length_le_size_of_nodup distinct within
  | cons step path ih =>
    obtain ⟨part, hpart, hleads⟩ := exists_part_of_follow_cons leads
    obtain ⟨cell, hcell, hmem⟩ := exists_identity_of_part hpart
    have hdistinct : (cell :: cells).Nodup :=
      List.nodup_cons.2 ⟨acyclic.not_mem_of_lieAbove above hcell, distinct⟩
    have hwithin : cell :: cells ⊆ store.identities := List.cons_subset.2 ⟨hmem, within⟩
    have hbound := ih (acyclic.at_part hpart) hdistinct hwithin (above.at_part hcell hpart) hleads
    rw [List.length_cons] at hbound ⊢
    omega

/-- No path from an acyclic value is longer than there are cells. -/
theorem Acyclic.length_le_size (acyclic : store.Acyclic value)
    (leads : store.follow? value path = some node) : path.length ≤ store.size := by
  have hbound := acyclic.length_add_length_le List.nodup_nil (List.nil_subset _)
    (fun _ mem ↦ absurd mem List.not_mem_nil) leads
  rwa [List.length_nil, Nat.zero_add] at hbound

/-- Round a cycle there are paths of any length. -/
theorem exists_long_of_loop {loop : List PathStep} (nonempty : loop ≠ [])
    (leads : store.follow? node loop = some node) (length : Nat) :
    ∃ path, length ≤ path.length ∧ store.follow? node path = some node := by
  induction length with
  | zero => exact ⟨[], Nat.le_refl _, rfl⟩
  | succ length ih =>
    obtain ⟨path, hlength, hpath⟩ := ih
    refine ⟨loop ++ path, ?_, ?_⟩
    · have hloop := List.length_pos_iff.2 nonempty
      rw [List.length_append]
      omega
    · rw [follow_append_of_follow leads, hpath]

/-- A value all of whose paths are bounded is acyclic. -/
theorem acyclic_of_bounded {bound : Nat}
    (bounded : ∀ path node, store.follow? value path = some node → path.length ≤ bound) :
    store.Acyclic value := by
  intro path node loop hpath hloop
  refine Decidable.byContradiction fun hnonempty ↦ ?_
  obtain ⟨long, hlength, hlong⟩ := exists_long_of_loop hnonempty hloop (bound + 1)
  have hbound := bounded (path ++ long) node (by rw [follow_append_of_follow hpath, hlong])
  rw [List.length_append] at hbound
  omega

/-- What unfolds like an acyclic value is acyclic. -/
theorem Alike.acyclic {related : Value → Value → Prop} {other : Store} {left right : Value}
    (alike : Alike related (store.follow? left) (other.follow? right))
    (acyclic : other.Acyclic right) : store.Acyclic left := by
  have hbounded : ∀ path node, store.follow? left path = some node → path.length ≤ other.size := by
    intro path node hleads
    obtain ⟨node', hleads', -⟩ := exists_of_rel_some (alike path) hleads
    exact acyclic.length_le_size hleads'
  exact acyclic_of_bounded hbounded

end Store

end RuleCheck
