import RuleCheck.Diagnostic
import RuleCheck.Proofs.ReadableText

/-!
# Control characters in diagnostics

Quoting writes control characters as escapes, and numbers, timestamps and constants have none. But
keys, names of functions and sources of patterns are written as they are, and so is a text that is a
fragment of its own. A diagnostic is therefore written with a control character exactly if one of
its fragments has it in such a text, however deep; a line break is one of them.

In cyclic values a path to such a text may come back to a composite, where the marker stands
instead. But what lies between the two visits can be left out of the path, so the text is shown all
the same.
-/

namespace RuleCheck

theorem le_toNat_of_isDigit {character : Char} (digit : character.isDigit = true) :
    32 ≤ character.toNat := by
  have hdigit : 48 ≤ character.toNat ∧ character.toNat ≤ 57 := by
    simpa [Char.isDigit, UInt32.le_iff_toNat_le] using digit
  omega

@[simp] theorem visible_toDigits (value : Nat) : Visible (Nat.toDigits 10 value) :=
  fun _ mem ↦ le_toNat_of_isDigit (Nat.isDigit_of_mem_toDigits (by decide) (by decide) mem)

@[simp] theorem visible_replicate_zero (count : Nat) : Visible (List.replicate count '0') :=
  fun _ mem ↦ (List.eq_of_mem_replicate mem) ▸ by decide

@[simp] theorem visible_zeroPadded (width value : Nat) : Visible (Digits.zeroPadded width value) :=
  visible_append.2 ⟨visible_replicate_zero _, visible_toDigits value⟩

namespace Binary64

theorem dropTrailingZeros_subset (digits : List Char) : dropTrailingZeros digits ⊆ digits := by
  intro character mem
  rw [dropTrailingZeros, List.mem_reverse] at mem
  exact List.mem_reverse.1 ((List.dropWhile_sublist _).subset mem)

theorem visible_positional (decimal : Decimal) : Visible decimal.positional.toList := by
  unfold Decimal.positional
  split
  · simp
  · have hpadded (places : Nat) :
        Visible (List.replicate places '0' ++ Nat.toDigits 10 decimal.digits) := by simp
    dsimp only
    split
    · rw [String.toList_ofList]
      exact (hpadded _).of_subset (List.take_subset _ _)
    · rw [String.toList_ofList, visible_append, visible_cons]
      refine ⟨(hpadded _).of_subset (List.take_subset _ _), by decide, ?_⟩
      refine Visible.of_subset ?_ (dropTrailingZeros_subset _)
      exact (hpadded _).of_subset (List.drop_subset _ _)

theorem visible_text (number : Binary64) : Visible number.text.toList := by
  cases number with
  | nan => decide
  | infinity negative => cases negative <;> decide
  | finite negative magnitude =>
    have hbody : Visible (if magnitude.val = 0 then "0" else
        (shortest magnitude).positional).toList := by
      split
      · decide
      · exact visible_positional _
    cases negative with
    | false => exact hbody
    | true =>
      have htext : (finite true magnitude).text.toList = '-' :: (if magnitude.val = 0 then "0" else
          (shortest magnitude).positional).toList := by
        rw [text, if_pos rfl, String.toList_append]
        rfl
      exact htext ▸ visible_cons.2 ⟨by decide, hbody⟩

end Binary64

namespace Timestamp

theorem visible_fractionDigits (timestamp : Timestamp) : Visible timestamp.fractionDigits := by
  refine (visible_zeroPadded 9 timestamp.nanos).of_subset fun character mem ↦ ?_
  rw [fractionDigits, List.mem_reverse] at mem
  exact List.mem_reverse.1 ((List.dropWhile_sublist _).subset mem)

@[simp] theorem visible_dateText (timestamp : Timestamp) : Visible timestamp.dateText := by
  have hyear : Visible (yearText timestamp.localDate.year) := by
    unfold yearText
    split <;> simp
  simp [dateText, twoDigits, hyear]

@[simp] theorem visible_offsetText (timestamp : Timestamp) : Visible timestamp.offsetText := by
  have hsign : 32 ≤ timestamp.offsetSign.toNat := by
    unfold offsetSign
    split <;> decide
  simp [offsetText, twoDigits, hsign]

@[simp] theorem visible_minuteText (timestamp : Timestamp) : Visible timestamp.minuteText := by
  simp [minuteText, twoDigits]

theorem visible_interchangeText (timestamp : Timestamp) : Visible timestamp.interchangeText := by
  have hfraction := timestamp.visible_fractionDigits
  unfold interchangeText
  dsimp only
  split <;> split <;> simp_all [twoDigits]

theorem visible_longText (timestamp : Timestamp) : Visible timestamp.longText := by
  have hfraction := timestamp.visible_fractionDigits
  unfold longText
  dsimp only
  split <;> simp_all [twoDigits]

theorem visible_text (timestamp : Timestamp) : Visible timestamp.text.toList := by
  rw [text, String.toList_ofList]
  split
  · exact timestamp.visible_interchangeText
  · exact timestamp.visible_longText

end Timestamp

/-- The texts that a value is written with as they are, its parts apart. -/
def Value.bareTexts (store : Store) : Value → List String
  | .object ref => (store.fields ref).keys
  | .function value => value.name?.toList
  | .regex value => [value.source]
  | _ => []

def Value.HasBare (store : Store) (character : Char) (value : Value) : Prop :=
  ∃ text ∈ value.bareTexts store, character ∈ text.toList

section Characters

variable {store later : Store} {value node copied : Value} {character : Char} {path : List PathStep}

/-- A value without parts shows a control character only as part of a text that is not quoted. -/
theorem Value.mem_leafText_iff (simple : value.isComposite = false)
    (control : character.toNat < 32) :
    character ∈ value.leafText.toList ↔ value.HasBare store character := by
  have hvisible (visible : Visible value.leafText.toList) (hbare : value.bareTexts store = []) :
      character ∈ value.leafText.toList ↔ value.HasBare store character := by
    refine iff_of_false (visible.not_mem control) fun ⟨bare, hmem, _⟩ ↦ ?_
    rw [hbare] at hmem
    cases hmem
  cases value with
  | array | arguments | object => cases simple
  | undefined | null => exact hvisible (by decide) rfl
  | bool value => exact hvisible (by cases value <;> decide) rfl
  | int value =>
    refine hvisible (fun digit hdigit ↦ ?_) rfl
    rcases mem_repr hdigit with hdigit | rfl
    · exact le_toNat_of_isDigit hdigit
    · decide
  | float value => exact hvisible value.visible_text rfl
  | text content => exact hvisible (Quoted.visible_quote content) rfl
  | date value => exact hvisible value.visible_text rfl
  | function value =>
    cases hname : value.name? with
    | none => exact hvisible (by simp [leafText, hname]) (by rw [bareTexts, hname]; rfl)
    | some name =>
      have hword : character ∉ "function ".toList := Visible.not_mem (by decide) control
      simp [leafText, HasBare, bareTexts, hname, -String.reduceToList, hword]
  | regex value =>
    have hslash : character ∉ "/".toList := Visible.not_mem (by decide) control
    simp [leafText, HasBare, bareTexts, -String.reduceToList, hslash]

/-- A character that is not in the separator is in one of the parts. -/
theorem mem_joinWith_iff {α : Type} {separator : String} (other : character ∉ separator.toList)
    (write : α → String) (items : List α) :
    character ∈ (joinWith separator (items.map write)).toList ↔
      ∃ item ∈ items, character ∈ (write item).toList := by
  induction items with
  | nil => simp [joinWith]
  | cons item items ih =>
    cases items with
    | nil => simp [joinWith]
    | cons next items =>
      have hjoin : joinWith separator ((item :: next :: items).map write) =
          write item ++ separator ++ joinWith separator ((next :: items).map write) := rfl
      rw [hjoin, String.toList_append, String.toList_append, List.mem_append, List.mem_append, ih,
        or_iff_left other]
      exact (List.exists_mem_cons_iff (fun item ↦ character ∈ (write item).toList) item _).symm

/-- A control character in a row between signs is in one of the parts. -/
theorem mem_row_iff {α : Type} {opening closing : String} (control : character.toNat < 32)
    (opens : Visible opening.toList) (closes : Visible closing.toList) (write : α → String)
    (items : List α) :
    character ∈ (opening ++ joinWith ", " (items.map write) ++ closing).toList ↔
      ∃ item ∈ items, character ∈ (write item).toList := by
  have hcomma : character ∉ ", ".toList := Visible.not_mem (by decide) control
  rw [String.toList_append, String.toList_append, List.mem_append, List.mem_append,
    mem_joinWith_iff hcomma, or_iff_left (closes.not_mem control),
    or_iff_right (opens.not_mem control)]

namespace Store

theorem mem_writeParts_list_iff (control : character.toNat < 32) (write : Value → String)
    {ref : ListRef} (isList : value.listRef? = some ref) :
    character ∈ ("[" ++ joinWith ", " ((store.items ref).map write) ++ "]").toList ↔
      ∃ part, store.IsPart part value ∧ character ∈ (write part).toList := by
  rw [mem_row_iff control (by decide) (by decide)]
  exact exists_congr fun part ↦ and_congr_left fun _ ↦ (isPart_iff_of_listRef isList).symm

theorem mem_writeParts_object_iff (control : character.toNat < 32) (write : Value → String)
    (ref : RecordRef) :
    character ∈ (store.writeParts write (.object ref)).toList ↔
      (Value.object ref).HasBare store character ∨
        ∃ part, store.IsPart part (.object ref) ∧ character ∈ (write part).toList := by
  have hcolon : character ∉ ": ".toList := Visible.not_mem (by decide) control
  have hfield (entry : String × Value) :
      character ∈ (entry.1 ++ ": " ++ write entry.2).toList ↔
        character ∈ entry.1.toList ∨ character ∈ (write entry.2).toList := by
    rw [String.toList_append, String.toList_append, List.mem_append, List.mem_append,
      or_iff_left hcolon]
  have hbare : (Value.object ref).HasBare store character ↔
      ∃ entry ∈ (store.fields ref).entries, character ∈ entry.1.toList := by
    simp [Value.HasBare, Value.bareTexts, Fields.keys]
  have hparts : (∃ part, store.IsPart part (.object ref) ∧ character ∈ (write part).toList) ↔
      ∃ entry ∈ (store.fields ref).entries, character ∈ (write entry.2).toList := by
    simp only [isPart_object_iff, Prod.exists]
    grind
  rw [writeParts, mem_row_iff control (by decide) (by decide), hbare, hparts, ← exists_or]
  exact exists_congr fun entry ↦ by rw [hfield, and_or_left]

/-- A control character comes from a text that is not quoted, or from a part. -/
theorem mem_writeParts_iff (control : character.toNat < 32) (write : Value → String)
    (value : Value) :
    character ∈ (store.writeParts write value).toList ↔ value.HasBare store character ∨
      ∃ part, store.IsPart part value ∧ character ∈ (write part).toList := by
  cases value with
  | array ref | arguments ref =>
    have hnone {bare : List String} (hnil : bare = []) :
        ¬ ∃ text ∈ bare, character ∈ text.toList := by simp [hnil]
    exact (mem_writeParts_list_iff control write rfl).trans (or_iff_right (hnone rfl)).symm
  | object ref => exact mem_writeParts_object_iff control write ref
  | _ =>
    refine (Value.mem_leafText_iff rfl control).trans (or_iff_left ?_).symm
    rintro ⟨part, ⟨step, hpart⟩, -⟩
    rw [part_eq_none_of_simple rfl] at hpart
    cases hpart

def ShowsBare (store : Store) (character : Char) (value : Value) : Prop :=
  ∃ path node, store.follow? value path = some node ∧ node.HasBare store character

theorem showsBare_iff : store.ShowsBare character value ↔ value.HasBare store character ∨
    ∃ part, store.IsPart part value ∧ store.ShowsBare character part := by
  constructor
  · rintro ⟨path, node, hpath, hbare⟩
    cases path with
    | nil =>
      obtain rfl := Option.some.inj hpath
      exact .inl hbare
    | cons step path =>
      obtain ⟨part, hpart, hrest⟩ := exists_part_of_follow_cons hpath
      exact .inr ⟨part, ⟨step, hpart⟩, path, node, hrest, hbare⟩
  · rintro (hbare | ⟨part, ⟨step, hpart⟩, path, node, hpath, hbare⟩)
    · exact ⟨[], value, rfl, hbare⟩
    · exact ⟨step :: path, node, by rw [follow_cons_of_part hpart, hpath], hbare⟩

theorem Acyclic.mem_renderNested_iff (acyclic : store.Acyclic value)
    (control : character.toNat < 32) :
    character ∈ (store.renderNested value).toList ↔ store.ShowsBare character value := by
  induction acyclic.acc_isPart with
  | intro value _ ih =>
    rw [acyclic.renderNested_eq, mem_writeParts_iff control, showsBare_iff]
    refine or_congr_right (exists_congr fun part ↦ and_congr_right fun ⟨step, hpart⟩ ↦ ?_)
    exact ih part ⟨step, hpart⟩ (acyclic.at_part hpart)

/-- Where a path leads, a path leads that comes to no composite for the second time: what lies
between is left out. -/
theorem exists_follow_without_return {holds : Value → Prop}
    (same : ∀ node other cell, node.identity? = some cell → other.identity? = some cell →
      holds node → holds other)
    (leads : store.follow? value path = some node) (atEnd : holds node) :
    ∃ path node, store.follow? value path = some node ∧ holds node ∧
      ∀ earlier, earlier <+: path → ¬ store.Returns [] value earlier := by
  induction hlength : path.length using Nat.strong_induction_on generalizing path node with
  | _ length ih =>
    by_cases hclear : ∀ earlier, earlier <+: path → ¬ store.Returns [] value earlier
    · exact ⟨path, node, leads, atEnd, hclear⟩
    · push Not at hclear
      obtain ⟨earlier, ⟨rest, rfl⟩, again, cell, hagain, hcell, habove⟩ := hclear
      obtain ⟨first, whole, hshort, hwhole, hsame⟩ := habove.resolve_left List.not_mem_nil
      have hlt : first.length < earlier.length :=
        Nat.lt_of_le_of_ne hshort.1.length_le (mt hshort.1.eq_of_length hshort.2)
      rw [follow_append_of_follow hagain] at leads
      -- `again` is in the same cell as `whole` was, so the rest of the path can start there
      cases rest with
      | nil =>
        obtain rfl := Option.some.inj leads
        refine ih first.length ?_ hwhole (same _ whole cell hcell hsame atEnd) rfl
        rwa [← hlength, List.append_nil]
      | cons step rest =>
        have hleads : store.follow? value (first ++ step :: rest) = some node := by
          rw [follow_append_of_follow hwhole, ← leads, follow_cons, follow_cons,
            part_eq_of_identity hsame hcell]
        refine ih _ ?_ hleads atEnd rfl
        rw [← hlength, List.length_append, List.length_append]
        exact Nat.add_lt_add_right hlt _

theorem hasBare_iff_of_copiedAs (copiedAs : Value.CopiedAs store later value copied) :
    copied.HasBare later character ↔ value.HasBare store character := by
  cases copiedAs with
  | array | arguments => exact Iff.rfl
  | object keys => rw [Value.HasBare, Value.HasBare, Value.bareTexts, Value.bareTexts, keys]
  | leaf simple =>
    cases value with
    | array | arguments | object => cases simple
    | _ => exact Iff.rfl

theorem hasBare_of_identity (node other : Value) (cell : Identity)
    (within : node.identity? = some cell) (within' : other.identity? = some cell)
    (hasBare : node.HasBare store character) : other.HasBare store character := by
  obtain ⟨text, hmem, hcharacter⟩ := hasBare
  cases node with
  | array | arguments => cases hmem
  | object ref =>
    obtain rfl := Option.some.inj within
    cases other with
    | object ref' => cases within'; exact ⟨text, hmem, hcharacter⟩
    | _ => cases within'
  | _ => cases within

/-- Inside others a value is written with a control character exactly if some path leads to a text
with it that is not quoted. -/
theorem mem_renderNested_iff (control : character.toNat < 32) (value : Value) :
    character ∈ (store.renderNested value).toList ↔ store.ShowsBare character value := by
  have hlaid := store.laidOut_copy value
  have halong := hlaid.shows.copyAlong (distinctCells_nil store)
  rw [← store.renderNested_copy value, hlaid.fresh.acyclic.mem_renderNested_iff control]
  constructor
  · rintro ⟨path, node', hnode', hbare⟩
    have hsome := ((halong path).resolves.1 (by rw [hnode']; rfl)).1
    obtain ⟨node, hnode⟩ := Option.isSome_iff_exists.1 hsome
    by_cases hreturns : store.Returns [] value path
    · obtain rfl := (halong path).marked node' hnode' hreturns
      obtain ⟨text, hmem, -⟩ := hbare
      cases hmem
    · have hcopied := (halong path).kept node node' hnode hnode' hreturns
      exact ⟨path, node, hnode, (hasBare_iff_of_copiedAs hcopied).1 hbare⟩
  · rintro ⟨path, node, hnode, hbare⟩
    obtain ⟨path, node, hnode, hbare, hclear⟩ :=
      exists_follow_without_return hasBare_of_identity hnode hbare
    have hsome := (halong path).resolves.2 ⟨by rw [hnode]; rfl, fun _ hshort ↦ hclear _ hshort.1⟩
    obtain ⟨node', hnode'⟩ := Option.isSome_iff_exists.1 hsome
    have hcopied := (halong path).kept node node' hnode hnode' (hclear path List.prefix_rfl)
    exact ⟨path, node', hnode', (hasBare_iff_of_copiedAs hcopied).2 hbare⟩

end Store

end Characters

/-! ## Diagnostics -/

/-- A fragment has this character in a text that is written as it is: in the fragment itself, or in
a key, the name of a function or the source of a pattern that some path leads to. -/
def Diagnostic.ShowsBare (store : Store) (character : Char) (diagnostic : Diagnostic) : Prop :=
  ∃ fragment ∈ diagnostic.fragments,
    (∃ content, fragment = .text content ∧ character ∈ content.toList) ∨
      store.ShowsBare character fragment

theorem Store.mem_render_iff {store : Store} {character : Char} (control : character.toNat < 32)
    (value : Value) :
    character ∈ (store.render value).toList ↔
      (∃ content, value = .text content ∧ character ∈ content.toList) ∨
        store.ShowsBare character value := by
  have hother (notText : value.text? = none) :
      ¬ ∃ content, value = .text content ∧ character ∈ content.toList := by
    rintro ⟨content, rfl, -⟩
    cases notText
  rw [← Store.mem_renderNested_iff control value]
  cases value with
  | text content =>
    have hquoted : character ∉ (store.renderNested (.text content)).toList :=
      (Quoted.visible_quote content).not_mem control
    have hcontent : (∃ content', Value.text content = .text content' ∧
        character ∈ content'.toList) ↔ character ∈ content.toList := by simp
    rw [or_iff_left hquoted, hcontent, Store.render]
    split
    · next hempty =>
      refine iff_of_false hquoted ?_
      rw [String.isEmpty_iff.1 hempty]
      exact List.not_mem_nil
    · exact Iff.rfl
  | _ => exact (or_iff_right (hother rfl)).symm

/-- A diagnostic is written with a control character exactly if a fragment has it in a text that is
not quoted. -/
theorem Diagnostic.mem_render_iff {store : Store} {character : Char}
    (control : character.toNat < 32) (diagnostic : Diagnostic) :
    character ∈ (diagnostic.render store).toList ↔ diagnostic.ShowsBare store character := by
  have hspace : character ∉ " ".toList := Visible.not_mem (by decide) control
  rw [Diagnostic.render, mem_joinWith_iff hspace]
  exact exists_congr fun fragment ↦ and_congr_right fun _ ↦ Store.mem_render_iff control fragment

end RuleCheck
