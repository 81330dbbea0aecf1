import Mathlib.Data.List.Basic
import RuleCheck.Proofs.CopyStability
import RuleCheck.Proofs.QuotedText

/-!
# Texts that can be read back

The text of a plain value tells all of it but its cells. Its first character tells whether a word, a
quoted text, an array or an object follows. A word ends where no more characters of words follow, a
quoted text at its closing quote, and a row of parts where a closing sign stands in place of a
comma. So the text of a tree ends where the tree does, whatever follows, and no two trees have one
text.

Keys have to be words for this: they are written as they are, and a key with a comma in it can pass
for two fields.
-/

namespace RuleCheck

variable {rest rest' : List Char}

def isWordChar (character : Char) : Bool :=
  character.isAlphanum || character == '_' || character == '-'

def IsWord (characters : List Char) : Prop :=
  ∀ character ∈ characters, isWordChar character = true

instance (characters : List Char) : Decidable (IsWord characters) :=
  List.decidableBAll (isWordChar · = true) characters

/-- What follows a word does not go on with it. -/
def EndsWord (rest : List Char) : Prop :=
  ∀ character ∈ rest.head?, isWordChar character = false

theorem endsWord_nil : EndsWord [] := nofun

theorem endsWord_cons {character : Char} (other : isWordChar character = false) :
    EndsWord (character :: rest) := fun _ mem ↦ Option.some.inj mem ▸ other

theorem takeWhile_append_of_endsWord {word : List Char} (isWord : IsWord word)
    (ends : EndsWord rest) :
    (word ++ rest).takeWhile isWordChar = word := by
  have hrest : rest.takeWhile isWordChar = [] := by
    cases rest with
    | nil => rfl
    | cons character rest =>
      exact List.takeWhile_cons_of_neg (by simp [ends character rfl])
  rw [List.takeWhile_append_of_pos isWord, hrest, List.append_nil]

/-- A word can be told from what follows it. -/
theorem word_append_inj {word other : List Char} (isWord : IsWord word) (isWord' : IsWord other)
    (ends : EndsWord rest) (ends' : EndsWord rest') (same : word ++ rest = other ++ rest') :
    word = other ∧ rest = rest' := by
  have hword := congrArg (List.takeWhile isWordChar) same
  rw [takeWhile_append_of_endsWord isWord ends, takeWhile_append_of_endsWord isWord' ends'] at hword
  exact ⟨hword, List.append_cancel_left (hword ▸ same)⟩

/-- A key of ASCII letters, digits and underscores. It may even be empty. -/
def IsWordKey (key : String) : Prop :=
  ∀ character ∈ key.toList, character.isAlphanum = true ∨ character = '_'

instance (key : String) : Decidable (IsWordKey key) :=
  List.decidableBAll (fun character : Char ↦ character.isAlphanum = true ∨ character = '_')
    key.toList

theorem IsWordKey.isWord {key : String} (isWordKey : IsWordKey key) : IsWord key.toList := by
  intro character mem
  rcases isWordKey character mem with h | h <;> simp [isWordChar, h]

inductive Value.IsConstant : Value → Prop where
  | undefined : IsConstant .undefined
  | null : IsConstant .null
  | bool (value : Bool) : IsConstant (.bool value)
  | int (value : Int64) : IsConstant (.int value)

/-- An integer is written with digits and a minus sign. -/
theorem mem_repr {value : Int} {character : Char} (mem : character ∈ value.repr.toList) :
    character.isDigit = true ∨ character = '-' := by
  have hdigits {count : Nat} (hmem : character ∈ count.repr.toList) : character.isDigit = true := by
    rw [Nat.toList_repr] at hmem
    exact Nat.isDigit_of_mem_toDigits (by decide) (by decide) hmem
  rw [Int.repr_eq_if] at mem
  split at mem
  · exact .inl (hdigits mem)
  · rw [String.toList_append] at mem
    rcases List.mem_append.1 mem with hsign | hmem
    · exact .inr (List.mem_singleton.1 hsign)
    · exact .inl (hdigits hmem)

theorem repr_ne_empty (value : Int) : value.repr.toList ≠ [] := by
  rw [Int.repr_eq_if]
  split
  · rw [Nat.toList_repr]
    exact Nat.toDigits_ne_nil
  · rw [String.toList_append]
    exact List.cons_ne_nil _ _

/-- A text with any other character is not that of an integer. -/
theorem repr_ne {text : String} (value : Int)
    (foreign : (text.toList.all fun character ↦ character.isDigit || character == '-') = false) :
    value.repr ≠ text := by
  rintro rfl
  have hall :
      (value.repr.toList.all fun character ↦ character.isDigit || character == '-') = true := by
    refine List.all_eq_true.2 fun character mem ↦ ?_
    rcases mem_repr mem with hdigit | rfl
    · simp [hdigit]
    · rfl
  rw [foreign] at hall
  cases hall

def readInt : List Char → Int
  | '-' :: digits => -(Nat.ofDigitChars 10 digits 0 : Int)
  | digits => Nat.ofDigitChars 10 digits 0

theorem readInt_repr (value : Int) : readInt value.repr.toList = value := by
  rw [Int.repr_eq_if]
  split
  · next nonnegative =>
    rw [Nat.toList_repr]
    have hplain : readInt (Nat.toDigits 10 value.toNat) =
        Nat.ofDigitChars 10 (Nat.toDigits 10 value.toNat) 0 := by
      unfold readInt
      split
      · next digits hdigits =>
        have hminus : '-' ∈ Nat.toDigits 10 value.toNat := hdigits ▸ List.mem_cons_self
        exact absurd (Nat.isDigit_of_mem_toDigits (by decide) (by decide) hminus) (by decide)
      · rfl
    rw [hplain, Nat.ofDigitChars_ten_toDigits, Int.toNat_of_nonneg nonnegative]
  · next negative =>
    have hsigned : readInt ("-" ++ (-value).toNat.repr).toList =
        -(Nat.ofDigitChars 10 (-value).toNat.repr.toList 0 : Int) := by
      rw [String.toList_append]
      rfl
    rw [hsigned, Nat.toList_repr, Nat.ofDigitChars_ten_toDigits]
    omega

def Value.ofConstantText? (text : String) : Option Value :=
  if text = "undefined" then some .undefined
  else if text = "null" then some .null
  else if text = "true" then some (.bool true)
  else if text = "false" then some (.bool false)
  else some (.int (.ofInt (readInt text.toList)))

namespace Value.IsConstant

variable {value other : Value}

theorem isComposite_eq (constant : value.IsConstant) : value.isComposite = false := by
  cases constant <;> rfl

theorem isWord (constant : value.IsConstant) : IsWord value.leafText.toList := by
  cases constant with
  | undefined | null => decide
  | bool value => cases value <;> decide
  | int value =>
    intro character hmem
    rcases mem_repr hmem with hdigit | rfl
    · simp [isWordChar, Char.isAlphanum, hdigit]
    · rfl

theorem leafText_ne_empty (constant : value.IsConstant) : value.leafText.toList ≠ [] := by
  cases constant with
  | undefined | null => decide
  | bool value => cases value <;> decide
  | int value => exact repr_ne_empty value.toInt

/-- A constant is read back from its text. -/
theorem ofConstantText_leafText (constant : value.IsConstant) :
    ofConstantText? value.leafText = some value := by
  cases constant with
  | undefined | null => rfl
  | bool value => cases value <;> rfl
  | int value =>
    have htext : (Value.int value).leafText = value.toInt.repr := rfl
    rw [htext, ofConstantText?, if_neg (repr_ne _ (by decide)), if_neg (repr_ne _ (by decide)),
      if_neg (repr_ne _ (by decide)), if_neg (repr_ne _ (by decide)), readInt_repr,
      Int64.ofInt_toInt]

/-- Different constants have different texts. -/
theorem eq_of_leafText_eq (constant : value.IsConstant) (constant' : other.IsConstant)
    (same : value.leafText = other.leafText) : value = other :=
  Option.some.inj ((same ▸ constant.ofConstantText_leafText).symm.trans
    constant'.ofConstantText_leafText)

end Value.IsConstant

section Rows

variable {α : Type} {write : α → String} {closing : Char} {left right : List α}

/-- Each part of a row after the first follows a comma and a space. -/
def following (write : α → String) (parts : List α) : List Char :=
  parts.flatMap fun part ↦ ", ".toList ++ (write part).toList

theorem toList_joinWith_cons (write : α → String) (part : α) (parts : List α) :
    (joinWith ", " ((part :: parts).map write)).toList =
      (write part).toList ++ following write parts := by
  induction parts generalizing part with
  | nil => exact (List.append_nil _).symm
  | cons next parts ih =>
    have hjoin : joinWith ", " ((part :: next :: parts).map write) =
        write part ++ ", " ++ joinWith ", " ((next :: parts).map write) := rfl
    rw [hjoin, String.toList_append, String.toList_append, ih, List.append_assoc, following,
      following, List.flatMap_cons, List.append_assoc]

/-- Parts whose texts can be told from what follows them. -/
def Separable (write : α → String) (left right : List α) : Prop :=
  ∀ part ∈ left, ∀ part' ∈ right, ∀ rest rest', EndsWord rest → EndsWord rest' →
    (write part).toList ++ rest = (write part').toList ++ rest' → part = part' ∧ rest = rest'

theorem Separable.tail {part part' : α}
    (separable : Separable write (part :: left) (part' :: right)) : Separable write left right :=
  fun item hitem item' hitem' ↦ separable item (List.mem_cons_of_mem _ hitem) item'
    (List.mem_cons_of_mem _ hitem')

structure IsClosing (closing : Char) : Prop where
  ends : isWordChar closing = false
  noComma : closing ≠ ','

theorem IsClosing.endsWord (isClosing : IsClosing closing) (write : α → String) (parts : List α)
    (rest : List Char) : EndsWord (following write parts ++ closing :: rest) := by
  cases parts with
  | nil => exact endsWord_cons isClosing.ends
  | cons => exact endsWord_cons (by decide)

/-- The first part of a row can be told from the others. -/
theorem part_append_inj {part part' : α}
    (separable : Separable write (part :: left) (part' :: right)) (isClosing : IsClosing closing)
    (same : (write part).toList ++ (following write left ++ closing :: rest) =
      (write part').toList ++ (following write right ++ closing :: rest')) :
    part = part' ∧ following write left ++ closing :: rest =
      following write right ++ closing :: rest' :=
  separable part List.mem_cons_self part' List.mem_cons_self _ _
    (isClosing.endsWord write left rest) (isClosing.endsWord write right rest') same

/-- The rest of a row can be told from what follows its closing sign. -/
theorem following_append_inj (separable : Separable write left right)
    (isClosing : IsClosing closing)
    (same : following write left ++ closing :: rest = following write right ++ closing :: rest') :
    left = right ∧ rest = rest' := by
  induction left generalizing right with
  | nil =>
    cases right with
    | nil => exact ⟨rfl, (List.cons.inj same).2⟩
    | cons => exact absurd (List.cons.inj same).1 isClosing.noComma
  | cons part left ih =>
    cases right with
    | nil => exact absurd (List.cons.inj same).1.symm isClosing.noComma
    | cons part' right =>
      have hparts : (write part).toList ++ (following write left ++ closing :: rest) =
          (write part').toList ++ (following write right ++ closing :: rest') := by
        simpa [following] using same
      obtain ⟨rfl, hrest⟩ := part_append_inj separable isClosing hparts
      obtain ⟨rfl, hfinal⟩ := ih separable.tail hrest
      exact ⟨rfl, hfinal⟩

/-- A row can be told from what follows its closing sign, if no part begins with that sign. -/
theorem row_append_inj (separable : Separable write left right) (isClosing : IsClosing closing)
    (opens : ∀ part, part ∈ left ∨ part ∈ right →
      ∃ first more, (write part).toList = first :: more ∧ first ≠ closing)
    (same : (joinWith ", " (left.map write)).toList ++ closing :: rest =
      (joinWith ", " (right.map write)).toList ++ closing :: rest') :
    left = right ∧ rest = rest' := by
  cases left with
  | nil =>
    cases right with
    | nil => exact ⟨rfl, (List.cons.inj same).2⟩
    | cons part' right =>
      obtain ⟨first, more, hopens, hother⟩ := opens part' (.inr List.mem_cons_self)
      rw [toList_joinWith_cons, hopens] at same
      exact absurd (List.cons.inj same).1.symm hother
  | cons part left =>
    cases right with
    | nil =>
      obtain ⟨first, more, hopens, hother⟩ := opens part (.inl List.mem_cons_self)
      rw [toList_joinWith_cons, hopens] at same
      exact absurd (List.cons.inj same).1 hother
    | cons part' right =>
      rw [toList_joinWith_cons, toList_joinWith_cons, List.append_assoc, List.append_assoc] at same
      obtain ⟨rfl, hrest⟩ := part_append_inj separable isClosing same
      obtain ⟨rfl, hfinal⟩ := following_append_inj separable.tail isClosing hrest
      exact ⟨rfl, hfinal⟩

end Rows

/-! ## Trees -/

namespace Snapshot

/-- A tree of constants, texts, lists, and records whose keys are words. -/
inductive Plain : Snapshot → Prop where
  | constant {value : Value} (isConstant : value.IsConstant) : Plain (.leaf value)
  | text (content : String) : Plain (.leaf (.text content))
  | list {items : List Snapshot} (each : ∀ item ∈ items, item.Plain) : Plain (.list items)
  | record {fields : List (String × Snapshot)} (keys : ∀ field ∈ fields, IsWordKey field.1)
      (each : ∀ field ∈ fields, field.2.Plain) : Plain (.record fields)

/-- What the first character of a text announces. -/
inductive Form where
  | word
  | text
  | list
  | record

def Form.ofChar? (character : Char) : Option Form :=
  if isWordChar character then some .word
  else if character = '"' then some .text
  else if character = '[' then some .list
  else if character = '\x7b' then some .record
  else none

def form : Snapshot → Form
  | .leaf (.text _) => .text
  | .leaf _ => .word
  | .list _ => .list
  | .record _ => .record

variable {tree tree' : Snapshot}

theorem text_list (items : List Snapshot) :
    (list items).text.toList = '[' :: ((joinWith ", " (items.map text)).toList ++ [']']) := by
  rw [text, itemTexts_eq_map, String.toList_append, String.toList_append]
  rfl

def fieldText (field : String × Snapshot) : String :=
  field.1 ++ ": " ++ field.2.text

theorem text_record (fields : List (String × Snapshot)) :
    (record fields).text.toList =
      '\x7b' :: ((joinWith ", " (fields.map fieldText)).toList ++ ['\x7d']) := by
  rw [text, fieldTexts_eq_map, String.toList_append, String.toList_append]
  rfl

theorem form_of_isConstant {value : Value} (isConstant : value.IsConstant) :
    (leaf value).form = .word := by
  cases isConstant <;> rfl

/-- The first character of a text tells what it is the text of. -/
theorem Plain.exists_opening (plain : tree.Plain) :
    ∃ first more, tree.text.toList = first :: more ∧ Form.ofChar? first = some tree.form := by
  cases plain with
  | constant isConstant =>
    obtain ⟨first, more, hopens⟩ := List.exists_cons_of_ne_nil isConstant.leafText_ne_empty
    refine ⟨first, more, hopens, ?_⟩
    rw [form_of_isConstant isConstant, Form.ofChar?,
      if_pos (isConstant.isWord first (hopens ▸ List.mem_cons_self))]
  | text content => exact ⟨_, _, Quoted.toList_quote content, rfl⟩
  | list => exact ⟨_, _, text_list _, rfl⟩
  | record => exact ⟨_, _, text_record _, rfl⟩

theorem Plain.form_eq (plain : tree.Plain) (plain' : tree'.Plain)
    (same : tree.text.toList ++ rest = tree'.text.toList ++ rest') : tree.form = tree'.form := by
  obtain ⟨first, more, hopens, hfirst⟩ := plain.exists_opening
  obtain ⟨first', more', hopens', hfirst'⟩ := plain'.exists_opening
  rw [hopens, hopens'] at same
  exact Option.some.inj (by rw [← hfirst, ← hfirst', (List.cons.inj same).1])

theorem exists_opening_item {item : Snapshot} (plain : item.Plain) :
    ∃ first more, item.text.toList = first :: more ∧ first ≠ ']' := by
  obtain ⟨first, more, hopens, hfirst⟩ := plain.exists_opening
  refine ⟨first, more, hopens, ?_⟩
  rintro rfl
  cases hfirst

theorem list_append_inj {items items' : List Snapshot} (separable : Separable text items items')
    (each : ∀ item ∈ items, item.Plain) (each' : ∀ item ∈ items', item.Plain)
    (same : (list items).text.toList ++ rest = (list items').text.toList ++ rest') :
    items = items' ∧ rest = rest' := by
  rw [text_list, text_list, List.cons_append, List.cons_append, List.append_assoc,
    List.append_assoc] at same
  refine row_append_inj separable ⟨rfl, by decide⟩ (fun item hitem ↦ ?_) (List.cons.inj same).2
  exact exists_opening_item (hitem.elim (each item) (each' item))

theorem toList_fieldText (field : String × Snapshot) :
    (fieldText field).toList = field.1.toList ++ ':' :: ' ' :: field.2.text.toList := by
  rw [fieldText, String.toList_append, String.toList_append, List.append_assoc]
  rfl

theorem exists_opening_field {field : String × Snapshot} (isWord : IsWordKey field.1) :
    ∃ first more, (fieldText field).toList = first :: more ∧ first ≠ '\x7d' := by
  rw [toList_fieldText]
  cases hkey : field.1.toList with
  | nil => exact ⟨':', _, rfl, by decide⟩
  | cons first more =>
    refine ⟨first, _, rfl, ?_⟩
    rintro rfl
    exact absurd (isWord.isWord _ (hkey ▸ List.mem_cons_self)) (by decide)

theorem record_append_inj {fields fields' : List (String × Snapshot)}
    (separable : Separable fieldText fields fields') (keys : ∀ field ∈ fields, IsWordKey field.1)
    (keys' : ∀ field ∈ fields', IsWordKey field.1)
    (same : (record fields).text.toList ++ rest = (record fields').text.toList ++ rest') :
    fields = fields' ∧ rest = rest' := by
  rw [text_record, text_record, List.cons_append, List.cons_append, List.append_assoc,
    List.append_assoc] at same
  refine row_append_inj separable ⟨rfl, by decide⟩ (fun field hfield ↦ ?_) (List.cons.inj same).2
  exact exists_opening_field (hfield.elim (keys field) (keys' field))

/-- A field can be told from what follows it if its value can. -/
theorem field_append_inj {field field' : String × Snapshot} (isWord : IsWordKey field.1)
    (isWord' : IsWordKey field'.1)
    (value : field.2.text.toList ++ rest = field'.2.text.toList ++ rest' →
      field.2 = field'.2 ∧ rest = rest')
    (same : (fieldText field).toList ++ rest = (fieldText field').toList ++ rest') :
    field = field' ∧ rest = rest' := by
  rw [toList_fieldText, toList_fieldText, List.append_assoc, List.append_assoc] at same
  obtain ⟨hkey, hvalue⟩ := word_append_inj isWord.isWord isWord'.isWord (endsWord_cons rfl)
    (endsWord_cons rfl) same
  obtain ⟨hsame, hrest⟩ := value (List.cons.inj (List.cons.inj hvalue).2).2
  exact ⟨Prod.ext (String.toList_inj.1 hkey) hsame, hrest⟩

/-- The text of a plain tree can be told from what follows it. -/
theorem Plain.text_append_inj (plain : tree.Plain) (plain' : tree'.Plain) (ends : EndsWord rest)
    (ends' : EndsWord rest') (same : tree.text.toList ++ rest = tree'.text.toList ++ rest') :
    tree = tree' ∧ rest = rest' := by
  -- a part is followed by the rest of its tree, so what follows is arbitrary
  induction plain generalizing tree' rest rest' with
  | constant isConstant =>
    have hform := (Plain.constant isConstant).form_eq plain' same
    rw [form_of_isConstant isConstant] at hform
    cases plain' with
    | constant isConstant' =>
      obtain ⟨htext, hrest⟩ := word_append_inj isConstant.isWord isConstant'.isWord ends ends' same
      exact ⟨congrArg leaf (isConstant.eq_of_leafText_eq isConstant' (String.toList_inj.1 htext)),
        hrest⟩
    | text | list | record => cases hform
  | text content =>
    have hform := (Plain.text content).form_eq plain' same
    cases plain' with
    | constant isConstant' => cases hform.trans (form_of_isConstant isConstant')
    | text content' =>
      obtain ⟨rfl, hrest⟩ := Quoted.quote_append_inj same
      exact ⟨rfl, hrest⟩
    | list | record => cases hform
  | list each ih =>
    have hform := (Plain.list each).form_eq plain' same
    cases plain' with
    | constant isConstant' => cases hform.trans (form_of_isConstant isConstant')
    | list each' =>
      have hseparable : Separable Snapshot.text _ _ := fun item hitem item' hitem' _ _ ends ends' ↦
        ih item hitem (each' item' hitem') ends ends'
      obtain ⟨rfl, hrest⟩ := list_append_inj hseparable each each' same
      exact ⟨rfl, hrest⟩
    | text | record => cases hform
  | record keys each ih =>
    have hform := (Plain.record keys each).form_eq plain' same
    cases plain' with
    | constant isConstant' => cases hform.trans (form_of_isConstant isConstant')
    | record keys' each' =>
      have hseparable : Separable fieldText _ _ := fun field hfield field' hfield' _ _ ends ends' ↦
        field_append_inj (keys field hfield) (keys' field' hfield')
          (ih field hfield (each' field' hfield') ends ends')
      obtain ⟨rfl, hrest⟩ := record_append_inj hseparable keys keys' same
      exact ⟨rfl, hrest⟩
    | text | list => cases hform

/-- Plain trees with the same text are the same. -/
theorem Plain.eq_of_text_eq (plain : tree.Plain) (plain' : tree'.Plain)
    (same : tree.text = tree'.text) : tree = tree' :=
  (plain.text_append_inj plain' endsWord_nil endsWord_nil (by rw [same])).1

end Snapshot

/-! ## Values -/

inductive Value.IsPlain (store : Store) : Value → Prop where
  | constant {value : Value} (isConstant : value.IsConstant) : IsPlain store value
  | text (content : String) : IsPlain store (.text content)
  | array (ref : ListRef) : IsPlain store (.array ref)
  | object {ref : RecordRef} (keys : ∀ key ∈ (store.fields ref).keys, IsWordKey key) :
      IsPlain store (.object ref)

namespace Store

variable {store other : Store} {value part left right : Value} {step : PathStep}

/-- An acyclic value made of undefined, null, truth values, integers, texts, arrays, and objects
whose keys are words. -/
structure Plain (store : Store) (value : Value) : Prop where
  acyclic : store.Acyclic value
  each : ∀ path node, store.follow? value path = some node → node.IsPlain store

namespace Plain

theorem at_part (plain : store.Plain value) (leads : store.part? value step = some part) :
    store.Plain part where
  acyclic := plain.acyclic.at_part leads
  each path node hpath := plain.each (step :: path) node (by rw [follow_cons_of_part leads, hpath])

theorem of_parts (isPlain : value.IsPlain store)
    (parts : ∀ step part, store.part? value step = some part → store.Plain part) :
    store.Plain value where
  acyclic := acyclic_of_parts fun step part hpart ↦ (parts step part hpart).acyclic
  each path node hpath := by
    cases path with
    | nil =>
      obtain rfl := Option.some.inj hpath
      exact isPlain
    | cons step path =>
      obtain ⟨part, hpart, hrest⟩ := exists_part_of_follow_cons hpath
      exact (parts step part hpart).each path node hrest

theorem constant (isConstant : value.IsConstant) : store.Plain value :=
  of_parts (.constant isConstant) fun step part hpart ↦ by
    rw [part_eq_none_of_simple isConstant.isComposite_eq] at hpart
    cases hpart

theorem text (content : String) : store.Plain (.text content) :=
  of_parts (.text content) fun _ _ hpart ↦ nomatch hpart

theorem array {ref : ListRef} (each : ∀ item ∈ store.items ref, store.Plain item) :
    store.Plain (.array ref) :=
  of_parts (.array ref) fun step part hpart ↦ by
    cases step with
    | index => exact each part (List.mem_of_getElem? hpart)
    | key => cases hpart

theorem object {ref : RecordRef} (keys : ∀ key ∈ (store.fields ref).keys, IsWordKey key)
    (each : ∀ entry ∈ (store.fields ref).entries, store.Plain entry.2) :
    store.Plain (.object ref) :=
  of_parts (.object keys) fun step part hpart ↦ by
    cases step with
    | index => cases hpart
    | key name => exact each (name, part) (Fields.get_eq_some_iff.1 hpart)

/-- A plain value unfolds to a plain tree. -/
theorem snapshot (plain : store.Plain value) : (store.snapshot value).Plain := by
  induction plain.acyclic.acc_isPart with
  | intro value _ ih =>
    have hparts {part : Value} (hpart : store.IsPart part value) : (store.snapshot part).Plain :=
      ih part hpart (hpart.elim fun _ ↦ plain.at_part)
    rw [plain.acyclic.snapshot_eq]
    cases plain.each [] value rfl with
    | constant isConstant =>
      rw [unfoldParts_of_simple isConstant.isComposite_eq]
      exact .constant isConstant
    | text content => exact .text content
    | array ref =>
      refine .list fun tree htree ↦ ?_
      obtain ⟨item, hitem, rfl⟩ := List.mem_map.1 htree
      exact hparts ((isPart_iff_of_listRef rfl).2 hitem)
    | object keys =>
      refine .record (fun field hfield ↦ ?_) fun field hfield ↦ ?_
      · obtain ⟨entry, hentry, rfl⟩ := List.mem_map.1 hfield
        exact keys entry.1 (List.mem_map.2 ⟨entry, hentry, rfl⟩)
      · obtain ⟨entry, hentry, rfl⟩ := List.mem_map.1 hfield
        exact hparts (isPart_object_iff.2 ⟨entry.1, hentry⟩)

theorem shows_snapshot (plain : store.Plain value) :
    store.Shows (store.snapshot value) value :=
  plain.acyclic.shows_snapshot fun path ref hpath ↦ by
    cases plain.each path _ hpath with
    | constant isConstant => cases isConstant

end Plain

end Store

/-- Plain values have the same text inside others exactly if the same paths lead to the same things
in both. -/
theorem renderNested_eq_iff {store other : Store} {left right : Value} (plain : store.Plain left)
    (plain' : other.Plain right) :
    store.renderNested left = other.renderNested right ↔
      Store.Alike Value.SameTop (store.follow? left) (other.follow? right) := by
  constructor
  · intro same
    have htree : store.snapshot left = other.snapshot right :=
      plain.snapshot.eq_of_text_eq plain'.snapshot same
    exact plain.shows_snapshot.alike (htree ▸ plain'.shows_snapshot)
  · intro alike
    have hlooks : Store.Alike Value.LooksLike (store.follow? left) (other.follow? right) :=
      fun path ↦ Store.rel_mono (alike path) fun _ _ _ _ same ↦ same.looksLike
    exact congrArg Snapshot.text (Store.snapshot_eq_of_alike plain.acyclic plain'.acyclic hlooks)

/-- Two lists in different cells that show the same: a text that looks like the end of a list, and
an object with the same key and number. -/
theorem renderNested_eq_iff_twice :
    let store : Store := ⟨#[[.text "], [", .object ⟨0⟩], [.text "], [", .object ⟨1⟩]],
      #[.ofList [("id", .int (-1))], .ofList [("id", .int (-1))]], 0⟩
    store.Plain (.array ⟨0⟩) ∧ store.Plain (.array ⟨1⟩) ∧
      Store.Alike Value.SameTop (store.follow? (.array ⟨0⟩)) (store.follow? (.array ⟨1⟩)) := by
  intro store
  have hobject (ref : RecordRef) (hentries : (store.fields ref).entries = [("id", .int (-1))]) :
      store.Plain (.object ref) := by
    refine .object (fun key hkey ↦ ?_) fun entry hentry ↦ ?_
    · rw [Fields.keys, hentries] at hkey
      exact List.mem_singleton.1 hkey ▸ by decide
    · rw [hentries] at hentry
      exact List.mem_singleton.1 hentry ▸ .constant (.int (-1))
  have harray (ref : ListRef) (inner : RecordRef)
      (hitems : store.items ref = [.text "], [", .object inner])
      (hentries : (store.fields inner).entries = [("id", .int (-1))]) :
      store.Plain (.array ref) := by
    refine .array fun item hitem ↦ ?_
    rw [hitems, List.mem_pair] at hitem
    rcases hitem with rfl | rfl
    · exact .text _
    · exact hobject inner hentries
  have hleft := harray ⟨0⟩ ⟨0⟩ rfl rfl
  have hright := harray ⟨1⟩ ⟨1⟩ rfl rfl
  exact ⟨hleft, hright, (renderNested_eq_iff hleft hright).1 (by decide +kernel)⟩

/-- A key that is no word can pass for two fields. -/
example :
    let store : Store := ⟨#[], #[.ofList [("a: 1, b", .int 2)],
      .ofList [("a", .int 1), ("b", .int 2)]], 0⟩
    store.renderNested (.object ⟨0⟩) = "\x7ba: 1, b: 2\x7d" ∧
      store.renderNested (.object ⟨1⟩) = "\x7ba: 1, b: 2\x7d" := by
  decide +kernel

end RuleCheck
