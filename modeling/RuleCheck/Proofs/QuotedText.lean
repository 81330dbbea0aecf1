import RuleCheck.Json.Reader
import RuleCheck.Text.Quoted

/-!
# Reading quoted texts back

A quoted text shows no control character, and the reader of strings takes it up to its closing quote
and no further, whatever follows. So neither the text nor the place where it ends is in doubt.
-/

namespace RuleCheck

def Visible (characters : List Char) : Prop :=
  ∀ character ∈ characters, 32 ≤ character.toNat

instance (characters : List Char) : Decidable (Visible characters) :=
  List.decidableBAll (fun character : Char ↦ 32 ≤ character.toNat) characters

section Visible

variable {characters others : List Char}

@[simp] theorem visible_nil : Visible [] := nofun

@[simp] theorem visible_cons {character : Char} :
    Visible (character :: characters) ↔ 32 ≤ character.toNat ∧ Visible characters :=
  List.forall_mem_cons

@[simp] theorem visible_append :
    Visible (characters ++ others) ↔ Visible characters ∧ Visible others :=
  List.forall_mem_append

theorem Visible.of_subset (visible : Visible others) (subset : characters ⊆ others) :
    Visible characters := fun character mem ↦ visible character (subset mem)

theorem Visible.not_mem {character : Char} (visible : Visible characters)
    (control : character.toNat < 32) : character ∉ characters :=
  fun mem ↦ Nat.not_le_of_lt control (visible character mem)

end Visible

namespace Quoted

variable {characters rest rest' : List Char}

/-- What is written for a character inside quotes: the character itself, or a backslash and what the
reader of escapes takes for it. -/
inductive Written : Char → List Char → Prop where
  | itself {character : Char} (noQuote : character ≠ '"') (noBackslash : character ≠ '\\')
      (visible : 32 ≤ character.toNat) : Written character [character]
  | escaped {character : Char} {sequence : List Char}
      (read : ∀ rest, Json.readEscape (sequence ++ rest) = .ok (character, rest))
      (visible : Visible sequence) : Written character ('\\' :: sequence)

theorem hexDigit_read : ∀ value < 16, Digits.hexDigit? (hexDigit value) = some value := by
  decide

theorem le_toNat_hexDigit : ∀ value < 16, 32 ≤ (hexDigit value).toNat := by
  decide

/-- The four digits of a control character are read as its code point. -/
theorem readUnicodeEscape_control {character : Char} (control : character.toNat < 32)
    (rest : List Char) :
    Json.readUnicodeEscape ('0' :: '0' :: hexDigit (character.toNat / 16) ::
      hexDigit (character.toNat % 16) :: rest) = .ok (character, rest) := by
  have hhigh := hexDigit_read (character.toNat / 16) (by omega)
  have hlow := hexDigit_read (character.toNat % 16) (by omega)
  have hzero : Digits.hexDigit? '0' = some 0 := rfl
  have hvalue : ((0 * 16 + 0) * 16 + character.toNat / 16) * 16 + character.toNat % 16 =
      character.toNat := by omega
  have hunit : Json.readCodeUnit ('0' :: '0' :: hexDigit (character.toNat / 16) ::
      hexDigit (character.toNat % 16) :: rest) = .ok (character.toNat, rest) := by
    simp only [Json.readCodeUnit, hzero, hhigh, hlow, hvalue]
  rw [Json.readUnicodeEscape, hunit]
  simp only [bind, Except.bind]
  rw [if_neg (by simp; omega), if_pos (by simp; omega), Char.ofNat_toNat]
  rfl

theorem written_escape (character : Char) : Written character (escape character) := by
  unfold escape
  -- the quote, the backslash and the five control characters with a letter of their own
  iterate 7
    split
    · next same =>
      subst same
      exact .escaped (fun _ ↦ rfl) (by decide)
  split
  · next control =>
    have hhigh := le_toNat_hexDigit (character.toNat / 16) (by omega)
    have hlow := le_toNat_hexDigit (character.toNat % 16) (by omega)
    exact .escaped (readUnicodeEscape_control control) (by simp [hhigh, hlow])
  · next noQuote noBackslash _ _ _ _ _ visible =>
    exact .itself noQuote noBackslash (Nat.le_of_not_lt visible)

/-- No control character is written. -/
theorem visible_escape (character : Char) : Visible (escape character) := by
  generalize hescaped : escape character = escaped
  cases hescaped ▸ written_escape character with
  | itself _ _ visible => exact visible_cons.2 ⟨visible, visible_nil⟩
  | escaped _ visible => exact visible_cons.2 ⟨by decide, visible⟩

/-- The reader takes what is written for a character as that character. -/
theorem readTextFrom_escape (character : Char) (fuel : Nat) (done rest : List Char) :
    Json.readTextFrom (fuel + 1) done (escape character ++ rest) =
      Json.readTextFrom fuel (character :: done) rest := by
  generalize hescaped : escape character = escaped
  cases hescaped ▸ written_escape character with
  | itself noQuote noBackslash visible =>
    rw [List.singleton_append, Json.readTextFrom, if_neg noQuote, if_neg noBackslash,
      if_neg (Nat.not_lt.2 visible)]
  | escaped read =>
    rw [List.cons_append, Json.readTextFrom, if_neg (by decide), if_pos rfl, read]

/-- A quoted text has no control characters. -/
theorem visible_quote (text : String) : Visible (quote text).toList := by
  have hbody : Visible (body text.toList) := fun written mem ↦ by
    obtain ⟨character, -, hwritten⟩ := List.mem_flatMap.1 mem
    exact visible_escape character written hwritten
  rw [toList_quote, visible_cons, visible_append, visible_cons]
  exact ⟨by decide, hbody, by decide, visible_nil⟩

/-- The reader takes what stands between the quotes as the text, and goes on after them. -/
theorem readTextFrom_body {fuel : Nat} (enough : characters.length < fuel) (done rest : List Char) :
    Json.readTextFrom fuel done (body characters ++ '"' :: rest) =
      .ok (String.ofList (done.reverse ++ characters), rest) := by
  induction characters generalizing fuel done with
  | nil =>
    obtain ⟨fuel, rfl⟩ := Nat.exists_eq_succ_of_ne_zero (Nat.ne_of_gt enough)
    rw [body_nil, List.nil_append, List.append_nil, Json.readTextFrom, if_pos rfl]
  | cons character characters ih =>
    obtain ⟨fuel, rfl⟩ := Nat.exists_eq_succ_of_ne_zero (Nat.ne_of_gt (Nat.zero_lt_of_lt enough))
    rw [body_cons, List.append_assoc, readTextFrom_escape, ih (Nat.lt_of_succ_lt_succ enough),
      List.reverse_cons, List.append_assoc, List.singleton_append]

/-- What follows the opening quote is read as the text, whatever follows the closing one. -/
theorem readText_body {text : String} {bound : Nat} (enough : text.toList.length ≤ bound)
    (rest : List Char) :
    Json.readText bound (body text.toList ++ '"' :: rest) = .ok (text, rest) := by
  rw [Json.readText, readTextFrom_body (Nat.lt_succ_of_le enough), List.reverse_nil,
    List.nil_append, String.ofList_toList]

/-- A quoted text can be told from what follows it. -/
theorem quote_append_inj {text other : String}
    (same : (quote text).toList ++ rest = (quote other).toList ++ rest') :
    text = other ∧ rest = rest' := by
  have hbodies : body text.toList ++ '"' :: rest = body other.toList ++ '"' :: rest' := by
    rw [toList_quote, toList_quote, List.cons_append, List.cons_append, List.append_assoc,
      List.append_assoc] at same
    exact (List.cons.inj same).2
  have hread := readText_body (Nat.le_add_right text.toList.length other.toList.length) rest
  have hread' := readText_body (Nat.le_add_left other.toList.length text.toList.length) rest'
  rw [hbodies, hread'] at hread
  obtain ⟨hother, hrest⟩ := Prod.mk.inj (Except.ok.inj hread)
  exact ⟨hother.symm, hrest.symm⟩

end Quoted

end RuleCheck
