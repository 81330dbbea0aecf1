import Mathlib.Data.List.TakeWhile
import RuleCheck.Json.Reader
import RuleCheck.Proofs.Decimals

/-!
# Tokens of JSON texts

Blanks, words, strings and whole numbers are written down here as what may stand at the front of a
text, apart from the readers. Each reader takes exactly its token: it succeeds if one stands there,
with what the token means and what follows it, and on no other text. A string ends at its closing
quote, but a number ends where it does not go on, so its reader also looks at what follows.
-/

namespace RuleCheck

/-- Two computations in a row succeed if both do. -/
theorem bind_eq_ok_iff {ε α β : Type} {first : Except ε α} {next : α → Except ε β} {result : β} :
    first >>= next = .ok result ↔ ∃ value, first = .ok value ∧ next value = .ok result := by
  cases first with
  | error fault => exact iff_of_false nofun nofun
  | ok value =>
    constructor
    · exact fun hresult ↦ ⟨value, rfl, hresult⟩
    · rintro ⟨value', same, hresult⟩
      obtain rfl := Except.ok.inj same
      exact hresult

namespace Json

variable {text after rest : List Char} {character : Char}

/-- From one place of a text to a later one there are only blanks. -/
def Blanks (text rest : List Char) : Prop :=
  ∃ blanks, text = blanks ++ rest ∧ ∀ blank ∈ blanks, isBlank blank = true

theorem isBlank_iff : isBlank character = true ↔ character ∈ [' ', '\n', '\t', '\r'] := by
  simp [isBlank, or_assoc]

theorem Blanks.refl (text : List Char) : Blanks text text :=
  ⟨[], rfl, nofun⟩

theorem Blanks.trans (first : Blanks text after) (second : Blanks after rest) :
    Blanks text rest := by
  obtain ⟨blanks, rfl, hblanks⟩ := first
  obtain ⟨blanks', rfl, hblanks'⟩ := second
  exact ⟨blanks ++ blanks', (List.append_assoc _ _ _).symm,
    List.forall_mem_append.2 ⟨hblanks, hblanks'⟩⟩

theorem Blanks.length_le (blanks : Blanks text rest) : rest.length ≤ text.length := by
  obtain ⟨blanks, rfl, -⟩ := blanks
  rw [List.length_append]
  exact Nat.le_add_left _ _

theorem blanks_skipBlanks (text : List Char) : Blanks text (skipBlanks text) :=
  ⟨text.takeWhile isBlank, List.takeWhile_append_dropWhile.symm,
    fun _ mem ↦ List.mem_takeWhile_imp mem⟩

/-- Blanks are skipped up to the first character that is none. -/
theorem skipBlanks_eq_cons_iff (other : isBlank character = false) :
    skipBlanks text = character :: rest ↔ Blanks text (character :: rest) := by
  constructor
  · intro hskip
    exact hskip ▸ blanks_skipBlanks text
  · rintro ⟨blanks, rfl, hblanks⟩
    rw [skipBlanks, List.dropWhile_append_of_pos hblanks,
      List.dropWhile_cons_of_neg (by simp [other])]

theorem skipBlanks_eq_nil_iff : skipBlanks text = [] ↔ Blanks text [] := by
  constructor
  · intro hskip
    exact hskip ▸ blanks_skipBlanks text
  · rintro ⟨blanks, rfl, hblanks⟩
    rw [skipBlanks, List.append_nil, List.dropWhile_eq_nil_iff]
    exact hblanks

theorem expect_eq_ok_iff {wanted : List Char} :
    expect wanted text = .ok rest ↔ text = wanted ++ rest := by
  induction wanted generalizing text with
  | nil => rw [expect, Except.ok.injEq, List.nil_append]
  | cons first wanted ih =>
    cases text with
    | nil => exact iff_of_false nofun nofun
    | cons character text =>
      rw [expect, List.cons_append, List.cons.injEq]
      split
      · next same => rw [ih, and_iff_right same]
      · next differ => exact iff_of_false nofun fun same ↦ differ same.1

/-! ## Strings -/

inductive CodeUnit : List Char → Nat → List Char → Prop where
  | digits {first second third fourth : Char} {a b c d : Nat} {rest : List Char}
      (hfirst : Digits.hexDigit? first = some a) (hsecond : Digits.hexDigit? second = some b)
      (hthird : Digits.hexDigit? third = some c) (hfourth : Digits.hexDigit? fourth = some d) :
      CodeUnit (first :: second :: third :: fourth :: rest) (((a * 16 + b) * 16 + c) * 16 + d) rest

def letterEscapes : List (Char × Char) :=
  [('"', '"'), ('\\', '\\'), ('/', '/'), ('b', '\x08'), ('f', '\x0c'), ('n', '\n'), ('r', '\r'),
    ('t', '\t')]

/-- What may follow a backslash in a string: a letter, a code unit that is a character, or a pair of
surrogates. -/
inductive Escape : List Char → Char → List Char → Prop where
  | letter {letter character : Char} {rest : List Char}
      (mem : (letter, character) ∈ letterEscapes) : Escape (letter :: rest) character rest
  | unit {text rest : List Char} {unit : Nat} (digits : CodeUnit text unit rest)
      (single : unit < 0xD800 ∨ 0xDFFF < unit) : Escape ('u' :: text) (Char.ofNat unit) rest
  | pair {text between rest : List Char} {high low : Nat}
      (first : CodeUnit text high ('\\' :: 'u' :: between)) (second : CodeUnit between low rest)
      (isHigh : 0xD800 ≤ high ∧ high ≤ 0xDBFF) (isLow : 0xDC00 ≤ low ∧ low ≤ 0xDFFF) :
      Escape ('u' :: text) (Char.ofNat (0x10000 + (high - 0xD800) * 0x400 + (low - 0xDC00))) rest

/-- What may follow the opening quote of a string, its characters, and what follows the closing
quote. -/
inductive Spelled : List Char → List Char → List Char → Prop where
  | closed (rest : List Char) : Spelled ('"' :: rest) [] rest
  | itself {text characters rest : List Char} {character : Char} (noQuote : character ≠ '"')
      (noBackslash : character ≠ '\\') (visible : 32 ≤ character.toNat)
      (more : Spelled text characters rest) :
      Spelled (character :: text) (character :: characters) rest
  | escaped {text after characters rest : List Char} {character : Char}
      (escape : Escape text character after) (more : Spelled after characters rest) :
      Spelled ('\\' :: text) (character :: characters) rest

theorem CodeUnit.length_le {unit : Nat} (digits : CodeUnit text unit rest) :
    rest.length ≤ text.length := by
  cases digits
  simp only [List.length_cons]
  omega

theorem Escape.length_lt (escape : Escape text character rest) : rest.length < text.length := by
  cases escape with
  | letter => exact Nat.lt_succ_self _
  | unit digits => exact Nat.lt_succ_of_le digits.length_le
  | pair first second =>
    have hfirst := first.length_le
    have hsecond := second.length_le
    simp only [List.length_cons] at *
    omega

theorem Spelled.length_le {characters : List Char} (spelled : Spelled text characters rest) :
    rest.length ≤ text.length := by
  induction spelled with
  | closed => exact Nat.le_succ _
  | itself _ _ _ _ ih => exact Nat.le_succ_of_le ih
  | escaped escape _ ih => exact Nat.le_succ_of_le (Nat.le_trans ih (Nat.le_of_lt escape.length_lt))

theorem readCodeUnit_eq_ok_iff {unit : Nat} :
    readCodeUnit text = .ok (unit, rest) ↔ CodeUnit text unit rest := by
  constructor
  · intro hread
    unfold readCodeUnit at hread
    split at hread
    · split at hread
      · next ha hb hc hd =>
        obtain ⟨rfl, rfl⟩ := Prod.mk.inj (Except.ok.inj hread)
        exact .digits ha hb hc hd
      · cases hread
    · cases hread
  · rintro ⟨ha, hb, hc, hd⟩
    simp only [readCodeUnit, ha, hb, hc, hd]

theorem readUnicodeEscape_eq_ok_iff :
    readUnicodeEscape text = .ok (character, rest) ↔ Escape ('u' :: text) character rest := by
  constructor
  · intro hread
    obtain ⟨⟨unit, after⟩, hunit, hread⟩ := bind_eq_ok_iff.1 hread
    have hfirst := readCodeUnit_eq_ok_iff.1 hunit
    dsimp only at hread
    split at hread
    · cases hread
    · next notLow =>
      split at hread
      · next single =>
        obtain ⟨rfl, rfl⟩ := Prod.mk.inj (Except.ok.inj hread)
        exact .unit hfirst (by simp at notLow single; omega)
      · next isHigh =>
        split at hread
        · cases hread
        · cases hread
        · obtain ⟨⟨low, after⟩, hlow, hread⟩ := bind_eq_ok_iff.1 hread
          dsimp only at hread
          split at hread
          · next isLow =>
            obtain ⟨rfl, rfl⟩ := Prod.mk.inj (Except.ok.inj hread)
            exact .pair hfirst (readCodeUnit_eq_ok_iff.1 hlow) (by simp at isHigh; omega)
              (by simpa using isLow)
          · cases hread
        · cases hread
  · intro escape
    cases escape with
    | letter mem => exact absurd mem (by simp [letterEscapes])
    | unit digits single =>
      refine bind_eq_ok_iff.2 ⟨_, readCodeUnit_eq_ok_iff.2 digits, ?_⟩
      dsimp only
      rw [if_neg (by simp; omega), if_pos (by simp; omega)]
      rfl
    | pair first second isHigh isLow =>
      refine bind_eq_ok_iff.2 ⟨_, readCodeUnit_eq_ok_iff.2 first, ?_⟩
      dsimp only
      rw [if_neg (by simp; omega), if_neg (by simp; omega)]
      refine bind_eq_ok_iff.2 ⟨_, readCodeUnit_eq_ok_iff.2 second, ?_⟩
      dsimp only
      rw [if_pos (by simpa using isLow)]
      rfl

theorem readEscape_of_letter {escape : Char × Char} (mem : escape ∈ letterEscapes)
    (rest : List Char) : readEscape (escape.1 :: rest) = .ok (escape.2, rest) := by
  have hall : ∀ escape ∈ letterEscapes, readEscape (escape.1 :: rest) = .ok (escape.2, rest) := by
    simp [letterEscapes, readEscape]
  exact hall escape mem

theorem readEscape_eq_ok_iff :
    readEscape text = .ok (character, rest) ↔ Escape text character rest := by
  constructor
  · intro hread
    unfold readEscape at hread
    split at hread
    · cases hread
    · split at hread
      iterate 8
        · obtain ⟨rfl, rfl⟩ := Prod.mk.inj (Except.ok.inj hread)
          exact .letter (by decide)
      · exact readUnicodeEscape_eq_ok_iff.1 hread
      · cases hread
  · intro escape
    cases escape with
    | letter mem => exact readEscape_of_letter mem rest
    | unit digits single => exact readUnicodeEscape_eq_ok_iff.2 (.unit digits single)
    | pair first second isHigh isLow =>
      exact readUnicodeEscape_eq_ok_iff.2 (.pair first second isHigh isLow)

theorem readTextFrom_of_spelled {characters : List Char} (spelled : Spelled text characters rest)
    {fuel : Nat} (enough : text.length ≤ fuel) (done : List Char) :
    readTextFrom fuel done text = .ok (String.ofList (done.reverse ++ characters), rest) := by
  induction spelled generalizing fuel done with
  | closed =>
    obtain ⟨fuel, rfl⟩ := Nat.exists_eq_succ_of_ne_zero (Nat.ne_of_gt (Nat.zero_lt_of_lt enough))
    rw [readTextFrom, if_pos rfl, List.append_nil]
  | itself noQuote noBackslash visible more ih =>
    obtain ⟨fuel, rfl⟩ := Nat.exists_eq_succ_of_ne_zero (Nat.ne_of_gt (Nat.zero_lt_of_lt enough))
    rw [readTextFrom, if_neg noQuote, if_neg noBackslash, if_neg (Nat.not_lt.2 visible),
      ih (Nat.le_of_succ_le_succ enough), List.reverse_cons, List.append_assoc,
      List.singleton_append]
  | escaped escape more ih =>
    obtain ⟨fuel, rfl⟩ := Nat.exists_eq_succ_of_ne_zero (Nat.ne_of_gt (Nat.zero_lt_of_lt enough))
    have hle := Nat.le_trans (Nat.le_of_lt escape.length_lt) (Nat.le_of_succ_le_succ enough)
    rw [readTextFrom, if_neg (by decide), if_pos rfl, readEscape_eq_ok_iff.2 escape]
    dsimp only
    rw [ih hle, List.reverse_cons, List.append_assoc, List.singleton_append]

theorem spelled_of_readTextFrom {fuel : Nat} {done : List Char} {value : String}
    (read : readTextFrom fuel done text = .ok (value, rest)) :
    ∃ characters, Spelled text characters rest ∧
      value = String.ofList (done.reverse ++ characters) := by
  induction fuel generalizing text done with
  | zero => cases read
  | succ fuel ih =>
    cases text with
    | nil => cases read
    | cons character text =>
      rw [readTextFrom] at read
      split at read
      · next quote =>
        obtain ⟨rfl, rfl⟩ := Prod.mk.inj (Except.ok.inj read)
        exact ⟨[], quote ▸ .closed _, by rw [List.append_nil]⟩
      · next noQuote =>
        split at read
        · next backslash =>
          split at read
          · next escaped after hescape =>
            obtain ⟨characters, more, rfl⟩ := ih read
            refine ⟨escaped :: characters, ?_, by simp⟩
            exact backslash ▸ .escaped (readEscape_eq_ok_iff.1 hescape) more
          · cases read
        · next noBackslash =>
          split at read
          · cases read
          · next visible =>
            obtain ⟨characters, more, rfl⟩ := ih read
            exact ⟨character :: characters,
              .itself noQuote noBackslash (Nat.le_of_not_lt visible) more, by simp⟩

/-- The reader of strings takes what spells a text, up to its closing quote. -/
theorem readText_eq_ok_iff {bound : Nat} {value : String} (enough : text.length ≤ bound) :
    readText bound text = .ok (value, rest) ↔ Spelled text value.toList rest := by
  constructor
  · intro hread
    obtain ⟨characters, spelled, rfl⟩ := spelled_of_readTextFrom hread
    rwa [List.reverse_nil, List.nil_append, String.toList_ofList]
  · intro spelled
    rw [readText, readTextFrom_of_spelled spelled (Nat.le_succ_of_le enough), List.reverse_nil,
      List.nil_append, String.ofList_toList]

end Json

/-! ## Whole numbers -/

namespace JsonNumber

variable {text rest : List Char} {significand places : Nat} {number : JsonNumber} {value : Int}

theorem isDigit_eq (character : Char) : isDigit character = character.isDigit :=
  Digits.isSome_digit character

/-- A number does not go on with what follows. -/
def Ends (rest : List Char) : Prop :=
  ∀ character ∈ rest.head?, character.isDigit = false ∧ character ≠ '.' ∧ character ≠ 'e' ∧
    character ≠ 'E'

/-- Blanks end a number, and so do commas and closing brackets. -/
theorem ends_of_blanks {character : Char} (blanks : Json.Blanks text (character :: rest))
    (mem : character ∈ [',', '\x7d', ']']) : Ends text := by
  obtain ⟨blanks, rfl, hblanks⟩ := blanks
  intro front hfront
  cases blanks with
  | nil =>
    have hother : ∀ character ∈ [',', '\x7d', ']'], character.isDigit = false ∧ character ≠ '.' ∧
        character ≠ 'e' ∧ character ≠ 'E' := by simp
    obtain rfl := Option.some.inj hfront
    exact hother character mem
  | cons blank blanks =>
    have hother : ∀ character ∈ [' ', '\n', '\t', '\r'], character.isDigit = false ∧
        character ≠ '.' ∧ character ≠ 'e' ∧ character ≠ 'E' := by simp
    obtain rfl := Option.some.inj hfront
    exact hother blank (Json.isBlank_iff.1 (hblanks blank List.mem_cons_self))

/-- No number that is scaled by a power of ten is whole. -/
theorem ofRounded_ne_whole {negative : Bool} {exponent : Int} (rounded : Binary64) :
    ofRounded negative exponent rounded ≠ .ok (.whole value) := by
  cases rounded with
  | finite sign magnitude =>
    rw [ofRounded]
    cases scale 4 magnitude exponent with
    | none => exact nofun
    | some result => exact nofun
  | _ => exact nofun

theorem readExponent_ne_whole {negative : Bool} {places : Int} :
    readExponent negative significand places text ≠ .ok (.whole value, rest) := by
  intro hwhole
  unfold readExponent at hwhole
  dsimp only at hwhole
  split at hwhole
  · cases hwhole
  · split at hwhole
    · cases hwhole
    · split at hwhole
      · obtain ⟨number, hparts, hwhole⟩ := bind_eq_ok_iff.1 hwhole
        obtain ⟨rfl, rfl⟩ := Prod.mk.inj (Except.ok.inj hwhole)
        exact ofRounded_ne_whole _ hparts
      · split at hwhole
        · cases hwhole
        · cases negative <;> cases hwhole

theorem readEnd_ne_whole {negative : Bool} {places : Int} :
    readEnd negative significand places text ≠ .ok (.whole value, rest) := by
  intro hwhole
  unfold readEnd at hwhole
  split at hwhole
  · exact readExponent_ne_whole hwhole
  · exact readExponent_ne_whole hwhole
  · obtain ⟨number, hparts, hwhole⟩ := bind_eq_ok_iff.1 hwhole
    obtain ⟨rfl, rfl⟩ := Prod.mk.inj (Except.ok.inj hwhole)
    exact ofRounded_ne_whole _ hparts

theorem readFraction_ne_whole {negative : Bool} {places : Int} :
    readFraction negative significand places text ≠ .ok (.whole value, rest) := by
  intro hwhole
  unfold readFraction at hwhole
  split at hwhole
  split at hwhole
  · cases hwhole
  · exact readEnd_ne_whole hwhole

theorem le_ofDigitChars (digits : List Char) (start : Nat) :
    start ≤ Nat.ofDigitChars 10 digits start := by
  induction digits generalizing start with
  | nil => exact Nat.le_refl _
  | cons digit digits ih =>
    rw [Nat.ofDigitChars_cons]
    exact Nat.le_trans (by omega) (ih _)

/-- Digits are taken up as long as the number fits. -/
theorem extend_eq (start count : Nat) (text : List Char) :
    ∃ digits, text = digits ++ (extend start count text).2.2 ∧
      (∀ digit ∈ digits, digit.isDigit = true) ∧
      (extend start count text).1 = Nat.ofDigitChars 10 digits start ∧
      (start ≤ maxSignificand → (extend start count text).1 ≤ maxSignificand) := by
  induction text generalizing start count with
  | nil => exact ⟨[], rfl, nofun, rfl, id⟩
  | cons character text ih =>
    rw [extend]
    split
    · exact ⟨[], rfl, nofun, rfl, id⟩
    · next digit hdigit =>
      split
      · next fits =>
        obtain ⟨digits, htext, heach, hvalue, hle⟩ := ih (10 * start + digit) (count + 1)
        obtain ⟨hisDigit, rfl⟩ := Digits.digit_eq_some_iff.1 hdigit
        refine ⟨character :: digits, congrArg (character :: ·) htext,
          List.forall_mem_cons.2 ⟨hisDigit, heach⟩, ?_, fun _ ↦ hle fits⟩
        rw [hvalue, Nat.ofDigitChars_cons]
      · exact ⟨[], rfl, nofun, rfl, id⟩

/-- All digits are taken up if the number fits. -/
theorem extend_append {digits : List Char} (each : ∀ digit ∈ digits, digit.isDigit = true)
    (ends : Ends rest) (start count : Nat)
    (fits : Nat.ofDigitChars 10 digits start ≤ maxSignificand) :
    extend start count (digits ++ rest) =
      (Nat.ofDigitChars 10 digits start, count + digits.length, rest) := by
  induction digits generalizing start count with
  | nil =>
    cases rest with
    | nil => rfl
    | cons character rest =>
      have hnone : Digits.digit? character = none := by
        rw [← Option.isNone_iff_eq_none, ← Option.not_isSome, Digits.isSome_digit,
          (ends character rfl).1]
        rfl
      rw [List.nil_append, extend, hnone]
      rfl
  | cons digit digits ih =>
    obtain ⟨hdigit, heach⟩ := List.forall_mem_cons.1 each
    rw [Nat.ofDigitChars_cons] at fits
    have hle := Nat.le_trans (le_ofDigitChars digits _) fits
    rw [List.cons_append, extend, Digits.digit_eq_some_iff.2 ⟨hdigit, rfl⟩]
    dsimp only
    rw [if_pos hle, ih heach _ _ fits, Nat.ofDigitChars_cons, List.length_cons,
      Nat.add_assoc, Nat.add_comm 1]

/-- A number without fraction and exponent of which all digits are read ends with them. -/
theorem ends_of_dropWhile (unread : rest.takeWhile isDigit = [])
    (noPoint : ∀ after, rest.dropWhile isDigit ≠ '.' :: after)
    (noExponent : (rest.dropWhile isDigit).head? ≠ some 'e' ∧
      (rest.dropWhile isDigit).head? ≠ some 'E') :
    rest.dropWhile isDigit = rest ∧ Ends rest := by
  have hrest : rest.dropWhile isDigit = rest :=
    List.dropWhile_eq_self_iff.2 (List.takeWhile_eq_nil_iff.1 unread)
  rw [hrest] at noPoint noExponent
  refine ⟨hrest, fun character hhead ↦ ?_⟩
  obtain ⟨after, rfl⟩ := List.head?_eq_some_iff.1 hhead
  refine ⟨?_, ?_, ?_, ?_⟩
  · rw [← isDigit_eq, ← Bool.not_eq_true]
    intro hdigit
    rw [List.takeWhile_cons_of_pos hdigit] at unread
    cases unread
  · rintro rfl
    exact noPoint after rfl
  · rintro rfl
    exact noExponent.1 rfl
  · rintro rfl
    exact noExponent.2 rfl

theorem noLeadingZero_of_append {first : Char} {digits : List Char}
    (parted : first :: text = digits ++ rest) (each : ∀ digit ∈ digits, digit.isDigit = true)
    (ends : Ends rest) (firstDigit : isDigit first = true)
    (noZero : ¬ (first = '0' && startsWithDigit text) = true) :
    digits ≠ [] ∧ Digits.NoLeadingZero digits := by
  cases digits with
  | nil =>
    -- the text begins with a digit, and what ends a number does not
    obtain rfl : first :: text = rest := parted
    simp [isDigit_eq, (ends first rfl).1] at firstDigit
  | cons digit digits =>
    obtain ⟨rfl, rfl⟩ := List.cons.inj parted
    refine ⟨List.cons_ne_nil _ _, fun more hmore ↦ ?_⟩
    obtain ⟨rfl, rfl⟩ := List.cons.inj hmore
    cases digits with
    | nil => rfl
    | cons digit digits => simp [startsWithDigit, isDigit_eq, each digit (by simp)] at noZero

/-- A number is whole only if it is written in digits alone, with no zero in front. -/
theorem denote_of_readUnsigned {negative : Bool}
    (read : readUnsigned negative text = .ok (.whole value, rest)) :
    ∃ digits significand, Digits.Denote digits significand ∧ Digits.NoLeadingZero digits ∧
      significand ≤ maxSignificand ∧ text = digits ++ rest ∧ Ends rest ∧
      ofDigits negative significand = .whole value := by
  unfold readUnsigned at read
  split at read
  · cases read
  · next first afterFirst =>
    split at read
    · cases read
    · next hfirst =>
      split at read
      · cases read
      · next hzero =>
        obtain ⟨digits, htext, heach, hvalue, hle⟩ := extend_eq 0 0 (first :: afterFirst)
        generalize extend 0 0 (first :: afterFirst) = extended at *
        obtain ⟨significand, count, tail⟩ := extended
        dsimp only at htext heach hvalue hle read
        split at read
        · exact absurd read readFraction_ne_whole
        · next noPoint =>
          split at read
          · next whole =>
            simp only [Bool.and_eq_true, List.isEmpty_iff, decide_eq_true_eq, and_assoc] at whole
            obtain ⟨htail, ends⟩ := ends_of_dropWhile whole.1 noPoint whole.2
            obtain ⟨hnumber, rfl⟩ := Prod.mk.inj (Except.ok.inj read)
            rw [htail]
            obtain ⟨nonempty, noLeadingZero⟩ :=
              noLeadingZero_of_append htext heach ends (by simpa using hfirst) hzero
            exact ⟨digits, significand, ⟨nonempty, heach, hvalue.symm⟩, noLeadingZero,
              hle (Nat.zero_le _), htext, ends, hnumber⟩
          · exact absurd read readEnd_ne_whole

theorem startsWithDigit_append {digits : List Char} (denote : Digits.Denote digits significand)
    (rest : List Char) : startsWithDigit (digits ++ rest) = true := by
  obtain ⟨digit, digits, rfl⟩ := List.exists_cons_of_ne_nil denote.nonempty
  exact (isDigit_eq digit).trans (denote.each digit List.mem_cons_self)

theorem Ends.startsWithDigit (ends : Ends rest) : startsWithDigit rest = false := by
  cases rest with
  | nil => rfl
  | cons character rest => exact (isDigit_eq character).trans (ends character rfl).1

theorem Ends.takeWhile_isDigit (ends : Ends rest) : rest.takeWhile isDigit = [] := by
  cases rest with
  | nil => rfl
  | cons character rest =>
    have hother : isDigit character = false := ends.startsWithDigit
    exact List.takeWhile_cons_of_neg (by simp [hother])

/-- The digits of a number that fits are read as that number. -/
theorem readUnsigned_append {digits : List Char} (denote : Digits.Denote digits significand)
    (noLeadingZero : Digits.NoLeadingZero digits) (fits : significand ≤ maxSignificand)
    (ends : Ends rest) (negative : Bool) :
    readUnsigned negative (digits ++ rest) = .ok (ofDigits negative significand, rest) := by
  obtain ⟨nonempty, each, rfl⟩ := denote
  have hextend := extend_append each ends 0 0 fits
  have hunread := ends.takeWhile_isDigit
  have hrest : rest.dropWhile isDigit = rest :=
    List.dropWhile_eq_self_iff.2 (List.takeWhile_eq_nil_iff.1 hunread)
  cases digits with
  | nil => exact absurd rfl nonempty
  | cons digit digits =>
    have hzero : ¬ (digit = '0' && startsWithDigit (digits ++ rest)) = true := by
      simp only [Bool.and_eq_true, decide_eq_true_eq, not_and]
      rintro rfl
      rw [noLeadingZero digits rfl, List.nil_append, ends.startsWithDigit]
      exact Bool.false_ne_true
    rw [List.cons_append] at hextend ⊢
    rw [readUnsigned, if_neg (by simp [isDigit_eq, each digit]), if_neg hzero, hextend]
    dsimp only
    rw [hunread, hrest]
    split
    · next point => exact absurd rfl (ends '.' rfl).2.1
    · have hexponent : rest.head? ≠ some 'e' ∧ rest.head? ≠ some 'E' :=
        ⟨fun hhead ↦ (ends 'e' hhead).2.2.1 rfl, fun hhead ↦ (ends 'E' hhead).2.2.2 rfl⟩
      rw [if_pos (by simp [hexponent])]

theorem whole_nonneg_iff {negative : Bool} {natural : Nat} :
    ofDigits negative significand = .whole natural ↔ negative = false ∧ significand = natural := by
  cases negative with
  | false =>
    rw [ofDigits, if_neg Bool.false_ne_true, JsonNumber.whole.injEq, Int.natCast_inj,
      and_iff_right rfl]
  | true =>
    refine iff_of_false ?_ nofun
    rw [ofDigits, if_pos rfl]
    split
    · nofun
    · split
      · rw [JsonNumber.whole.injEq]
        omega
      · nofun

/-- A number is read as a natural number exactly if it is the decimal notation of that number and
ends there. -/
theorem read_eq_natural_iff {natural : Nat} :
    read text = .ok (.whole natural, rest) ↔
      natural ≤ maxSignificand ∧ text = Nat.toDigits 10 natural ++ rest ∧ Ends rest := by
  constructor
  · intro hread
    have hunsigned : ∃ negative text', readUnsigned negative text' = .ok (.whole natural, rest) ∧
        (negative = false → text' = text) := by
      unfold read at hread
      split at hread
      · exact ⟨true, _, hread, nofun⟩
      · exact ⟨false, _, hread, fun _ ↦ rfl⟩
    obtain ⟨negative, text', hread, same⟩ := hunsigned
    obtain ⟨digits, significand, denote, noLeadingZero, fits, rfl, ends, hnumber⟩ :=
      denote_of_readUnsigned hread
    obtain ⟨hnegative, rfl⟩ := whole_nonneg_iff.1 hnumber
    rw [denote.toDigits_eq noLeadingZero, same hnegative]
    exact ⟨fits, rfl, ends⟩
  · rintro ⟨fits, rfl, ends⟩
    have denote := Digits.denote_toDigits natural
    have hunsigned :=
      readUnsigned_append denote (Digits.noLeadingZero_toDigits natural) fits ends false
    unfold read
    split
    · next minus hminus =>
      obtain ⟨digit, digits, hdigits⟩ := List.exists_cons_of_ne_nil denote.nonempty
      rw [hdigits, List.cons_append] at hminus
      obtain ⟨rfl, -⟩ := List.cons.inj hminus
      have hisDigit := denote.each '-' (by rw [hdigits]; exact List.mem_cons_self)
      cases hisDigit
    · exact hunsigned

end JsonNumber

end RuleCheck
