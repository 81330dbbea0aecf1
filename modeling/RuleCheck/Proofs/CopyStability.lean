import RuleCheck.Proofs.AcyclicUnfolding
import RuleCheck.Value.Rendering

/-!
# Copies and texts are stable

A copy is acyclic and unfolds to the tree that it was laid out from. So copying it once more gives
the same structure, and a value is written as its copy is. Writing goes over the copy part by part
and comes to an end on it, whatever cycles the value has.

Neither a copy nor a text tells how the parts of an acyclic value are shared, or an argument list
from an array.
-/

namespace RuleCheck

namespace Snapshot

theorem itemTexts_eq_map (items : List Snapshot) : itemTexts items = items.map text := by
  induction items with
  | nil => rfl
  | cons item rest ih => exact congrArg (item.text :: ·) ih

theorem fieldTexts_eq_map (fields : List (String × Snapshot)) :
    fieldTexts fields = fields.map fun field ↦ field.1 ++ ": " ++ field.2.text := by
  induction fields with
  | nil => rfl
  | cons field rest ih => exact congrArg ((field.1 ++ ": " ++ field.2.text) :: ·) ih

end Snapshot

namespace Store

variable {store later other : Store} {value copied : Value}

def writeParts (store : Store) (write : Value → String) : Value → String
  | .array ref => "[" ++ joinWith ", " ((store.items ref).map write) ++ "]"
  | .arguments ref => "[" ++ joinWith ", " ((store.items ref).map write) ++ "]"
  | .object ref =>
      "\x7b" ++ joinWith ", " ((store.fields ref).entries.map fun entry ↦
        entry.1 ++ ": " ++ write entry.2) ++ "\x7d"
  | value => value.leafText

/-- Writing depends only on how the parts are written. -/
theorem writeParts_congr {write write' : Value → String}
    (same : ∀ part, store.IsPart part value → write part = write' part) :
    store.writeParts write value = store.writeParts write' value := by
  have hlist {ref : ListRef} (isList : value.listRef? = some ref) :
      (store.items ref).map write = (store.items ref).map write' :=
    List.map_congr_left fun item hitem ↦ same item ((isPart_iff_of_listRef isList).2 hitem)
  cases value with
  | array ref => rw [writeParts, writeParts, hlist rfl]
  | arguments ref => rw [writeParts, writeParts, hlist rfl]
  | object ref =>
    have hentries : ((store.fields ref).entries.map fun entry ↦ entry.1 ++ ": " ++ write entry.2) =
        (store.fields ref).entries.map fun entry ↦ entry.1 ++ ": " ++ write' entry.2 := by
      refine List.map_congr_left fun entry hentry ↦ ?_
      rw [same entry.2 (isPart_object_iff.2 ⟨entry.1, hentry⟩)]
    rw [writeParts, writeParts, hentries]
  | _ => rfl

/-- The text of what a value is unfolded to by one level. -/
theorem text_unfoldParts (store : Store) (below : Value → Snapshot) (value : Value) :
    (store.unfoldParts below value).text =
      store.writeParts (fun part ↦ (below part).text) value := by
  have hlist (items : List Value) :
      (Snapshot.list (items.map below)).text =
        "[" ++ joinWith ", " (items.map fun part ↦ (below part).text) ++ "]" := by
    rw [Snapshot.text, Snapshot.itemTexts_eq_map, List.map_map]
    rfl
  cases value with
  | array ref => exact hlist (store.items ref)
  | arguments ref => exact hlist (store.items ref)
  | object ref =>
    rw [unfoldParts, Snapshot.text, Snapshot.fieldTexts_eq_map, List.map_map]
    rfl
  | _ => rfl

/-- An acyclic value is written by writing its parts. -/
theorem Acyclic.renderNested_eq (acyclic : store.Acyclic value) :
    store.renderNested value = store.writeParts store.renderNested value := by
  rw [renderNested, acyclic.snapshot_eq, text_unfoldParts]
  rfl

/-- Whatever writes values by writing their parts gives an acyclic value its text. -/
theorem Acyclic.eq_renderNested (acyclic : store.Acyclic value) {write : Value → String}
    (recursion : ∀ path node, store.follow? value path = some node →
      write node = store.writeParts write node) : write value = store.renderNested value := by
  induction acyclic.acc_isPart with
  | intro value _ ih =>
    rw [recursion [] value rfl, acyclic.renderNested_eq]
    refine writeParts_congr fun part ⟨step, hpart⟩ ↦ ?_
    refine ih part ⟨step, hpart⟩ (acyclic.at_part hpart) fun path node hpath ↦ ?_
    exact recursion (step :: path) node (by rw [follow_cons_of_part hpart, hpath])

theorem snapshot_copy (store : Store) (value : Value) :
    (value.copy store).2.snapshot (value.copy store).1 = store.snapshot value :=
  have hlaid := store.laidOut_copy value
  hlaid.shows.snapshot_eq hlaid.fresh.acyclic

/-- A value is written as its copy is. -/
theorem renderNested_copy (store : Store) (value : Value) :
    (value.copy store).2.renderNested (value.copy store).1 = store.renderNested value :=
  congrArg Snapshot.text (store.snapshot_copy value)

/-- Copies of values that unfold to one tree have the same structure. -/
theorem alike_copy {other : Store} {value' : Value}
    (same : other.snapshot value' = store.snapshot value) :
    Alike Value.SameTop ((value.copy store).2.follow? (value.copy store).1)
      ((value'.copy other).2.follow? (value'.copy other).1) := by
  have hshows : (value'.copy other).2.Shows (store.snapshot value) (value'.copy other).1 :=
    same ▸ (other.laidOut_copy value').shows
  exact (store.laidOut_copy value).shows.alike hshows

/-- On its own a value is written like inside others, but for a text that is not empty. -/
theorem render_eq (store : Store) (value : Value) :
    store.render value =
      (value.text?.filter fun content ↦ !content.isEmpty).getD (store.renderNested value) := by
  cases value with
  | text content =>
    rw [render, Value.text?]
    cases hempty : content.isEmpty with
    | true => rw [if_pos rfl, Option.filter_some, if_neg (by simp [hempty]), Option.getD_none]
    | false => rw [if_neg (by simp), Option.filter_some, if_pos (by simp [hempty]), Option.getD_some]
  | _ => rfl

theorem render_congr {value' : Value} (text : value'.text? = value.text?)
    (nested : other.renderNested value' = store.renderNested value) :
    other.render value' = store.render value := by
  rw [render_eq, render_eq, text, nested]

/-- A value on its own is written as its copy on its own is. -/
theorem render_copy (store : Store) (value : Value) :
    (value.copy store).2.render (value.copy store).1 = store.render value := by
  have htext {copied : Value} (copiedAs : Value.CopiedAs store (value.copy store).2 value copied) :
      copied.text? = value.text? := by
    cases copiedAs <;> rfl
  have htop := (store.laidOut_copy value).shows.one_level (distinctCells_nil store)
    fun _ _ ↦ List.not_mem_nil
  exact render_congr (htext htop.1) (store.renderNested_copy value)

end Store

theorem Value.LooksLike.text_eq {value other : Value} (alike : LooksLike value other) :
    other.text? = value.text? := by
  cases alike with
  | @list _ _ ref ref' isList isList' =>
    have hnone {value : Value} {ref : ListRef} (isList : value.listRef? = some ref) :
        value.text? = none := by
      cases value with
      | text => cases isList
      | _ => rfl
    rw [hnone isList, hnone isList']
  | object => rfl
  | leaf => rfl

/-- What a copy of a value, a copy of that copy, and the text of the value have to do with each
other. The text comes of writing the copy part by part and of nothing else, and how parts are shared
changes neither copies nor texts. -/
structure StableCopy (store : Store) (value copied : Value) (later : Store) (again : Value)
    (last : Store) : Prop where
  idempotent : Store.Alike Value.SameTop (later.follow? copied) (last.follow? again)
  unfolding_ends : Acc (fun inner outer ↦ store.Descends outer inner) ([], value)
  writing_ends : Acc later.IsPart copied
  written : later.renderNested copied = store.renderNested value ∧
    ∀ path node, later.follow? copied path = some node →
      later.renderNested node = later.writeParts later.renderNested node
  determined : ∀ write : Value → String,
    (∀ path node, later.follow? copied path = some node →
      write node = later.writeParts write node) →
    write copied = store.renderNested value
  alone : later.render copied = store.render value
  sharing : ∀ (other : Store) (value' : Value), store.Acyclic value → other.Acyclic value' →
    Store.Alike Value.LooksLike (store.follow? value) (other.follow? value') →
    Store.Alike Value.SameTop (later.follow? copied)
        ((value'.copy other).2.follow? (value'.copy other).1) ∧
      other.renderNested value' = store.renderNested value ∧
      other.render value' = store.render value

/-- Copying a copy changes nothing, and texts do not tell a value from its copy. -/
theorem copy_stable (store : Store) (value : Value) :
    let copied := value.copy store
    let again := copied.1.copy copied.2
    StableCopy store value copied.1 copied.2 again.1 again.2 := by
  intro copied again
  have hlaid := store.laidOut_copy value
  have hacyclic : copied.2.Acyclic copied.1 := hlaid.fresh.acyclic
  refine ⟨?_, Store.acc_descends (Store.distinctCells_nil store) value,
    hacyclic.acc_isPart, ⟨store.renderNested_copy value, ?_⟩, ?_,
    store.render_copy value, ?_⟩
  · have hagain : again.2.Shows (store.snapshot value) again.1 :=
      store.snapshot_copy value ▸ (copied.2.laidOut_copy copied.1).shows
    exact hlaid.shows.alike hagain
  · exact fun path node hnode ↦ (hacyclic.at_node hnode).renderNested_eq
  · exact fun write recursion ↦
      (hacyclic.eq_renderNested recursion).trans (store.renderNested_copy value)
  · intro other value' hvalue hvalue' halike
    have hsame : other.snapshot value' = store.snapshot value :=
      (Store.snapshot_eq_of_alike hvalue hvalue' halike).symm
    have hnested : other.renderNested value' = store.renderNested value :=
      congrArg Snapshot.text hsame
    have htop := (Store.alike_iff.1 halike).1
    exact ⟨Store.alike_copy hsame, hnested, Store.render_congr htop.text_eq hnested⟩

/-- An array that holds itself, and one list of two that holds the other twice: as arrays that share
it, and as an argument list of two arrays. -/
example :
    let store : Store := ⟨#[[.int 1, .array ⟨0⟩], [.text "a"], [.array ⟨1⟩, .array ⟨1⟩],
      [.text "a"], [.array ⟨1⟩, .arguments ⟨3⟩]], #[], 0⟩
    store.render (.array ⟨0⟩) = "[1, \"[Circular]\"]" ∧
      store.render (.array ⟨2⟩) = "[[\"a\"], [\"a\"]]" ∧
      store.render (.arguments ⟨4⟩) = "[[\"a\"], [\"a\"]]" := by
  decide +kernel

end RuleCheck
