/-!
# Fields

The fields of an object are kept in strictly ascending order of their keys, which compare by code
points. A key occurs at most once; inserting it again replaces its value.
-/

namespace RuleCheck

/-- Keys with values, keys strictly ascending. -/
structure Fields (α : Type) where
  entries : List (String × α)
  ascending : entries.Pairwise fun left right ↦ left.1 < right.1

namespace Fields

variable {α : Type}

def empty : Fields α := ⟨[], .nil⟩

/-- Puts an entry in its place, replacing an entry with the same key. -/
def insertEntry (key : String) (value : α) : List (String × α) → List (String × α)
  | [] => [(key, value)]
  | entry :: rest =>
      if key < entry.1 then (key, value) :: entry :: rest
      else if key = entry.1 then (key, value) :: rest
      else entry :: insertEntry key value rest

/-- The keys after an insertion are the new key and the old ones. -/
theorem mem_insertEntry {key : String} {value : α} {entries : List (String × α)}
    {entry : String × α} (mem : entry ∈ insertEntry key value entries) :
    entry = (key, value) ∨ entry ∈ entries := by
  induction entries with
  | nil => simpa [insertEntry] using mem
  | cons head rest ih =>
    unfold insertEntry at mem
    split at mem
    · simpa using mem
    · split at mem
      · rcases List.mem_cons.1 mem with eq | mem
        · exact .inl eq
        · exact .inr (List.mem_cons_of_mem _ mem)
      · rcases List.mem_cons.1 mem with eq | mem
        · exact .inr (eq ▸ List.mem_cons_self)
        · exact (ih mem).imp_right (List.mem_cons_of_mem _)

theorem mem_insertEntry_self (key : String) (value : α) (entries : List (String × α)) :
    (key, value) ∈ insertEntry key value entries := by
  induction entries with
  | nil => exact List.mem_cons_self
  | cons head rest ih =>
    unfold insertEntry
    split
    · exact List.mem_cons_self
    · split
      · exact List.mem_cons_self
      · exact List.mem_cons_of_mem _ ih

/-- An insertion keeps the entries with other keys. -/
theorem mem_insertEntry_of_ne {key : String} {value : α} {entries : List (String × α)}
    {entry : String × α} (mem : entry ∈ entries) (different : entry.1 ≠ key) :
    entry ∈ insertEntry key value entries := by
  induction entries with
  | nil => simp at mem
  | cons head rest ih =>
    unfold insertEntry
    split
    · exact List.mem_cons_of_mem _ mem
    · split
      · next same =>
        rcases List.mem_cons.1 mem with rfl | mem
        · exact absurd same.symm different
        · exact List.mem_cons_of_mem _ mem
      · rcases List.mem_cons.1 mem with rfl | mem
        · exact List.mem_cons_self
        · exact List.mem_cons_of_mem _ (ih mem)

/-- Insertion keeps the keys ascending. -/
theorem ascending_insertEntry (key : String) (value : α) {entries : List (String × α)}
    (ascending : entries.Pairwise fun left right ↦ left.1 < right.1) :
    (insertEntry key value entries).Pairwise fun left right ↦ left.1 < right.1 := by
  induction entries with
  | nil => exact List.pairwise_singleton _ _
  | cons head rest ih =>
    obtain ⟨above, restAscending⟩ := List.pairwise_cons.1 ascending
    unfold insertEntry
    split
    · next below =>
      refine List.pairwise_cons.2 ⟨fun entry mem ↦ ?_, ascending⟩
      rcases List.mem_cons.1 mem with eq | mem
      · exact eq ▸ below
      · exact String.lt_trans below (above entry mem)
    · next notBelow =>
      split
      · next same =>
        exact List.pairwise_cons.2 ⟨fun entry mem ↦ same ▸ above entry mem, restAscending⟩
      · next different =>
        have headBelow : head.1 < key :=
          Std.lt_of_le_of_ne (String.not_lt.1 notBelow) (Ne.symm different)
        refine List.pairwise_cons.2 ⟨fun entry mem ↦ ?_, ih restAscending⟩
        rcases mem_insertEntry mem with eq | mem
        · exact eq ▸ headBelow
        · exact above entry mem

def insert (fields : Fields α) (key : String) (value : α) : Fields α :=
  ⟨insertEntry key value fields.entries, ascending_insertEntry key value fields.ascending⟩

def erase (fields : Fields α) (key : String) : Fields α :=
  ⟨fields.entries.filter fun entry ↦ entry.1 != key, fields.ascending.filter _⟩

/-- The fields given by entries in any order; of two entries with one key the later counts. -/
def ofList (entries : List (String × α)) : Fields α :=
  entries.foldl (fun fields entry ↦ fields.insert entry.1 entry.2) empty

/-! ## Reading -/

def size (fields : Fields α) : Nat :=
  fields.entries.length

def keys (fields : Fields α) : List String :=
  fields.entries.map (·.1)

def values (fields : Fields α) : List α :=
  fields.entries.map (·.2)

def get? (fields : Fields α) (key : String) : Option α :=
  (fields.entries.find? fun entry ↦ entry.1 == key).map (·.2)

@[simp] theorem entries_empty : (empty : Fields α).entries = [] := rfl

@[simp] theorem entries_insert (fields : Fields α) (key : String) (value : α) :
    (fields.insert key value).entries = insertEntry key value fields.entries := rfl

/-- No key occurs twice. -/
theorem nodup_keys (fields : Fields α) : fields.keys.Nodup :=
  List.pairwise_map.2 (fields.ascending.imp Std.ne_of_lt)

theorem find_of_mem {key : String} {value : α} {entries : List (String × α)}
    (ascending : entries.Pairwise fun left right ↦ left.1 < right.1)
    (mem : (key, value) ∈ entries) :
    (entries.find? fun entry ↦ entry.1 == key) = some (key, value) := by
  induction entries with
  | nil => simp at mem
  | cons head rest ih =>
    obtain ⟨above, hrest⟩ := List.pairwise_cons.1 ascending
    rcases List.mem_cons.1 mem with rfl | mem
    · simp
    · have hdifferent : head.1 ≠ key := Std.ne_of_lt (above _ mem)
      rw [List.find?_cons_of_neg (by simpa using hdifferent), ih hrest mem]

/-- A key is looked up to the value of its entry. -/
theorem get_eq_some_iff {fields : Fields α} {key : String} {value : α} :
    fields.get? key = some value ↔ (key, value) ∈ fields.entries := by
  constructor
  · intro found
    obtain ⟨entry, hentry, rfl⟩ := Option.map_eq_some_iff.1 found
    have hkey : entry.1 = key := by simpa using List.find?_some hentry
    exact hkey ▸ List.mem_of_find?_eq_some hentry
  · intro mem
    rw [get?, find_of_mem fields.ascending mem, Option.map_some]

/-- After an insertion there are the new entry and the old ones with other keys. -/
theorem mem_entries_insert {fields : Fields α} {key : String} {value : α} {entry : String × α} :
    entry ∈ (fields.insert key value).entries ↔
      entry = (key, value) ∨ entry ∈ fields.entries ∧ entry.1 ≠ key := by
  have hself : (key, value) ∈ (fields.insert key value).entries :=
    mem_insertEntry_self key value fields.entries
  constructor
  · intro mem
    by_cases hkey : entry.1 = key
    · have hvalue : (fields.insert key value).get? key = some entry.2 :=
        get_eq_some_iff.2 (hkey ▸ mem)
      have hsame : entry.2 = value :=
        Option.some.inj (hvalue.symm.trans (get_eq_some_iff.2 hself))
      exact .inl (Prod.ext hkey hsame)
    · rcases mem_insertEntry mem with rfl | mem
      · exact absurd rfl hkey
      · exact .inr ⟨mem, hkey⟩
  · rintro (rfl | ⟨mem, hkey⟩)
    · exact hself
    · exact mem_insertEntry_of_ne mem hkey

/-- Entries with distinct keys are the entries of the fields that they give. -/
theorem mem_entries_ofList {entries : List (String × α)}
    (distinct : (entries.map (·.1)).Nodup) {entry : String × α} :
    entry ∈ (ofList entries).entries ↔ entry ∈ entries := by
  have hfold (fields : Fields α) :
      entry ∈ (entries.foldl (fun fields entry ↦ fields.insert entry.1 entry.2) fields).entries ↔
        entry ∈ entries ∨ entry ∈ fields.entries ∧ entry.1 ∉ entries.map (·.1) := by
    induction entries generalizing fields with
    | nil => simp
    | cons head rest ih =>
      obtain ⟨hnew, hrest⟩ := List.nodup_cons.1 distinct
      rw [List.foldl_cons, ih hrest, mem_entries_insert]
      constructor
      · rintro (mem | ⟨rfl | ⟨mem, hother⟩, habsent⟩)
        · exact .inl (List.mem_cons_of_mem _ mem)
        · exact .inl List.mem_cons_self
        · exact .inr ⟨mem, List.not_mem_cons_of_ne_of_not_mem hother habsent⟩
      · rintro (mem | ⟨mem, habsent⟩)
        · rcases List.mem_cons.1 mem with rfl | mem
          · exact .inr ⟨.inl rfl, hnew⟩
          · exact .inl mem
        · obtain ⟨hother, habsent⟩ := not_or.1 (mt List.mem_cons.2 habsent)
          exact .inr ⟨.inr ⟨mem, hother⟩, habsent⟩
  rw [ofList, hfold]
  simp

theorem mem_keys_iff {fields : Fields α} {key : String} :
    key ∈ fields.keys ↔ ∃ value, fields.get? key = some value := by
  simp [keys, get_eq_some_iff]

theorem isSome_get_iff {fields : Fields α} {key : String} :
    (fields.get? key).isSome = true ↔ key ∈ fields.keys := by
  rw [Option.isSome_iff_exists, mem_keys_iff]

end Fields

end RuleCheck
