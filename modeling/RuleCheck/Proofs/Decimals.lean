import Mathlib.Data.List.Induction
import Mathlib.Tactic.MkIffOfInductiveProp
import RuleCheck.Text.Digits

/-!
# Decimal notation

A row of ASCII digits denotes a number, with or without zeros in front. Without them it is the one
notation of the number in which it is written.
-/

namespace RuleCheck.Digits

variable {character : Char} {digits : List Char} {value : Nat}

theorem digit_eq_some_iff :
    digit? character = some value ↔
      character.isDigit = true ∧ character.toNat - '0'.toNat = value := by
  have hdigit : ('0' ≤ character ∧ character ≤ '9') ↔ character.isDigit = true := by
    simp [Char.isDigit, Char.le_def]
  rw [digit?, ← hdigit]
  split
  · next within => simp [within]
  · next outside => simp [outside]

theorem isSome_digit (character : Char) : (digit? character).isSome = character.isDigit := by
  rw [Bool.eq_iff_iff, Option.isSome_iff_exists]
  simp [digit_eq_some_iff]

/-- Digits extend a number that is read from the left. -/
theorem foldlM_digit_eq_some_iff (digits : List Char) (start : Nat) :
    digits.foldlM (fun total character ↦ (digit? character).map (10 * total + ·)) start =
        some value ↔
      (∀ digit ∈ digits, digit.isDigit = true) ∧ Nat.ofDigitChars 10 digits start = value := by
  induction digits generalizing start with
  | nil => simp [Nat.ofDigitChars]
  | cons digit digits ih =>
    rw [List.foldlM_cons, List.forall_mem_cons, Nat.ofDigitChars_cons]
    cases hdigit : digit? digit with
    | none =>
      have hother : digit.isDigit = false := by rw [← isSome_digit, hdigit]; rfl
      simp [hother]
    | some read =>
      obtain ⟨hisDigit, rfl⟩ := digit_eq_some_iff.1 hdigit
      simpa [hisDigit] using ih _

@[mk_iff]
structure Denote (digits : List Char) (value : Nat) : Prop where
  nonempty : digits ≠ []
  each : ∀ digit ∈ digits, digit.isDigit = true
  value_eq : Nat.ofDigitChars 10 digits 0 = value

theorem number_eq_some_iff : number? digits = some value ↔ Denote digits value := by
  rw [denote_iff, ← foldlM_digit_eq_some_iff]
  cases digits with
  | nil => simp [number?]
  | cons digit digits => simp [number?]

/-- A zero at the front stands alone. -/
def NoLeadingZero (digits : List Char) : Prop :=
  ∀ more, digits = '0' :: more → more = []

theorem toNat_of_isDigit (isDigit : character.isDigit = true) :
    '0'.toNat ≤ character.toNat ∧ character.toNat < '0'.toNat + 10 := by
  have hbounds : 48 ≤ character.toNat ∧ character.toNat ≤ 57 := by
    simpa [Char.isDigit, Char.le_def, UInt32.le_iff_toNat_le] using isDigit
  exact ⟨hbounds.1, Nat.lt_succ_of_le hbounds.2⟩

/-- A digit is the notation of its value. -/
theorem toDigits_of_isDigit (isDigit : character.isDigit = true) :
    Nat.toDigits 10 (character.toNat - '0'.toNat) = [character] := by
  obtain ⟨hle, hlt⟩ := toNat_of_isDigit isDigit
  have htable : ∀ value < 10, Nat.digitChar value = Char.ofNat ('0'.toNat + value) := by decide
  rw [Nat.toDigits_of_lt_base (by omega), htable _ (by omega), Nat.add_sub_cancel' hle,
    Char.ofNat_toNat]

theorem noLeadingZero_toDigits (value : Nat) : NoLeadingZero (Nat.toDigits 10 value) := by
  induction value using Nat.strongRecOn with
  | ind value ih =>
    intro more hmore
    by_cases small : value < 10
    · rw [Nat.toDigits_of_lt_base small] at hmore
      exact (List.cons.inj hmore).2.symm
    · -- the first digit is that of a tenth of the value, which is not zero
      rw [Nat.toDigits_of_base_le (by decide) (Nat.le_of_not_lt small)] at hmore
      obtain ⟨first, others, hfront⟩ :=
        List.exists_cons_of_ne_nil (Nat.toDigits_ne_nil (n := value / 10) (b := 10))
      rw [hfront, List.cons_append] at hmore
      obtain rfl := (List.cons.inj hmore).1
      obtain rfl := ih (value / 10) (by omega) others hfront
      have hzero : value / 10 = 0 := by
        rw [← Nat.ofDigitChars_ten_toDigits (n := value / 10), hfront]
        rfl
      omega

/-- Digits without zeros in front are the notation of the number that they denote. -/
theorem Denote.toDigits_eq (denote : Denote digits value) (noLeadingZero : NoLeadingZero digits) :
    Nat.toDigits 10 value = digits := by
  obtain ⟨nonempty, each, rfl⟩ := denote
  induction digits using List.reverseRecOn with
  | nil => exact absurd rfl nonempty
  | append_singleton front last ih =>
    obtain ⟨hfront, hlast⟩ := List.forall_mem_append.1 each
    have hlast := hlast last List.mem_cons_self
    rw [Nat.ofDigitChars_append, Nat.ofDigitChars_cons, Nat.ofDigitChars_nil]
    by_cases alone : front = []
    · subst alone
      rw [Nat.ofDigitChars_nil, Nat.mul_zero, Nat.zero_add, toDigits_of_isDigit hlast,
        List.nil_append]
    · have hnotation := ih (fun more hmore ↦ by
        have hnone := noLeadingZero (more ++ [last]) (by rw [hmore]; rfl)
        exact absurd hnone (List.concat_ne_nil last more)) alone hfront
      have hpositive : 0 < Nat.ofDigitChars 10 front 0 := by
        rw [Nat.pos_iff_ne_zero]
        intro hzero
        rw [hzero] at hnotation
        cases noLeadingZero [last] (by rw [← hnotation]; rfl)
      have hvalue : last.toNat - '0'.toNat < 10 :=
        Nat.sub_lt_left_of_lt_add (toNat_of_isDigit hlast).1 (toNat_of_isDigit hlast).2
      rw [← Nat.toDigits_append_toDigits (by decide) hpositive hvalue, hnotation,
        toDigits_of_isDigit hlast]

theorem denote_toDigits (value : Nat) : Denote (Nat.toDigits 10 value) value where
  nonempty := Nat.toDigits_ne_nil
  each _ mem := Nat.isDigit_of_mem_toDigits (by decide) (by decide) mem
  value_eq := Nat.ofDigitChars_ten_toDigits

end RuleCheck.Digits
