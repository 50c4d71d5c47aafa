import Mathlib.Data.List.Induction
import Mathlib.Data.Nat.Digits.Defs
import MonkeyLang.Integer
import MonkeyLang.Proofs.Lexing.LongestMatch

/-!
# Decimal texts

A decimal text is a row of digits behind at most one sign. Its number is a sum of powers of ten,
and there is no bound on it; an integer is read from the text exactly if that number is in range.
The range reaches further below zero than above it.

* `decimalValue`, `Decimal` : the numbers of digits and of texts.
* `Integer.ofText?_eq_some_iff` and `Integer.ofText?_eq_none_iff` : what is read from a text.
* `Token.IsNumber.ofText?_eq_some_iff` and `Token.IsNumber.ofText?_eq_none_iff` : what is read
  from digits alone.
-/

namespace MonkeyLang

open Token (IsNumber)

/-- The number that digits stand for: the sum of the digits times powers of ten, the last digit
times one. -/
def decimalValue (cs : List Char) : Nat :=
  Nat.ofDigits 10 (cs.reverse.map fun c => c.toNat - '0'.toNat)

/-- The text is that of the number: one or more digits, behind at most one sign. -/
inductive Decimal : List Char → Int → Prop
  | unsigned {cs} (h : IsNumber cs) : Decimal cs (decimalValue cs)
  | plus {cs} (h : IsNumber cs) : Decimal ('+' :: cs) (decimalValue cs)
  | minus {cs} (h : IsNumber cs) : Decimal ('-' :: cs) (-decimalValue cs)

/-! ## Digits -/

theorem decimalValue_concat (cs : List Char) (c : Char) :
    decimalValue (cs ++ [c]) = 10 * decimalValue cs + (c.toNat - '0'.toNat) := by
  unfold decimalValue
  rw [List.reverse_append, List.reverse_singleton, List.singleton_append, List.map_cons,
    Nat.ofDigits_cons]
  exact Nat.add_comm _ _

/-- Reading digits from the first one on comes to the sum of powers. -/
theorem ofDigitChars_eq_decimalValue (cs : List Char) :
    Nat.ofDigitChars 10 cs 0 = decimalValue cs := by
  induction cs using List.reverseRecOn with
  | nil => rfl
  | append_singleton cs c ih =>
    rw [Nat.ofDigitChars_append, ih, decimalValue_concat]
    rfl

/-- A sign is no digit. -/
theorem Token.IsNumber.head?_ne {cs : List Char} {c : Char} (h : IsNumber cs)
    (hc : c.isDigit = false) : cs.head? ≠ some c := by
  intro hHead
  have hDigit := h.2 c (List.mem_of_mem_head? hHead)
  rw [hc] at hDigit
  cases hDigit

namespace Integer

variable {cs : List Char} {s : String} {n : Int} {i : Integer}

/-- A number is read from digits only, and as their decimal value. -/
theorem natOfDigits?_eq_some_iff {m : Nat} :
    natOfDigits? cs = some m ↔ IsNumber cs ∧ decimalValue cs = m := by
  have hDigits : cs.all Char.isDigit = true ↔ ∀ c ∈ cs, c.isDigit = true := List.all_eq_true
  unfold natOfDigits?
  rw [ofDigitChars_eq_decimalValue]
  split
  case isTrue h =>
    rw [Option.some.injEq]
    exact (and_iff_right ⟨h.1, hDigits.mp h.2⟩).symm
  case isFalse h => exact iff_of_false nofun fun hNumber => h ⟨hNumber.1.1, hDigits.mpr hNumber.1.2⟩

theorem map_natOfDigits?_eq_some_iff {f : Nat → Int} :
    (natOfDigits? cs).map f = some n ↔ IsNumber cs ∧ f (decimalValue cs) = n := by
  rw [Option.map_eq_some_iff]
  constructor
  · rintro ⟨m, hDigits, rfl⟩
    obtain ⟨hNumber, rfl⟩ := natOfDigits?_eq_some_iff.mp hDigits
    exact ⟨hNumber, rfl⟩
  · rintro ⟨hNumber, rfl⟩
    exact ⟨_, natOfDigits?_eq_some_iff.mpr ⟨hNumber, rfl⟩, rfl⟩

/-! ## Signs -/

theorem intOfDigits?_minus (cs : List Char) :
    intOfDigits? ('-' :: cs) = (natOfDigits? cs).map fun m : Nat => -(m : Int) := by
  rw [intOfDigits?]
  cases natOfDigits? cs <;> rfl

theorem intOfDigits?_plus (cs : List Char) :
    intOfDigits? ('+' :: cs) = (natOfDigits? cs).map fun m : Nat => (m : Int) := by
  rw [intOfDigits?]
  cases natOfDigits? cs <;> rfl

/-- Without a sign the digits stand for a number that is not negative. -/
theorem intOfDigits?_unsigned (hMinus : cs.head? ≠ some '-') (hPlus : cs.head? ≠ some '+') :
    intOfDigits? cs = (natOfDigits? cs).map fun m : Nat => (m : Int) := by
  unfold intOfDigits?
  split
  · exact absurd rfl hMinus
  · exact absurd rfl hPlus
  · cases natOfDigits? cs <;> rfl

/-- What is read before the range is looked at is the number of the text. -/
theorem intOfDigits?_eq_some_iff : intOfDigits? cs = some n ↔ Decimal cs n := by
  constructor
  · intro h
    by_cases hMinus : cs.head? = some '-'
    · obtain ⟨cs, rfl⟩ := List.head?_eq_some_iff.mp hMinus
      rw [intOfDigits?_minus, map_natOfDigits?_eq_some_iff] at h
      obtain ⟨hNumber, rfl⟩ := h
      exact .minus hNumber
    by_cases hPlus : cs.head? = some '+'
    · obtain ⟨cs, rfl⟩ := List.head?_eq_some_iff.mp hPlus
      rw [intOfDigits?_plus, map_natOfDigits?_eq_some_iff] at h
      obtain ⟨hNumber, rfl⟩ := h
      exact .plus hNumber
    · rw [intOfDigits?_unsigned hMinus hPlus, map_natOfDigits?_eq_some_iff] at h
      obtain ⟨hNumber, rfl⟩ := h
      exact .unsigned hNumber
  · intro h
    cases h with
    | unsigned h =>
      rw [intOfDigits?_unsigned (h.head?_ne rfl) (h.head?_ne rfl)]
      exact map_natOfDigits?_eq_some_iff.mpr ⟨h, rfl⟩
    | plus h =>
      rw [intOfDigits?_plus]
      exact map_natOfDigits?_eq_some_iff.mpr ⟨h, rfl⟩
    | minus h =>
      rw [intOfDigits?_minus]
      exact map_natOfDigits?_eq_some_iff.mpr ⟨h, rfl⟩

/-! ## The range -/

/-- A text is read as an integer exactly if it is a decimal text of that integer. -/
theorem ofText?_eq_some_iff : ofText? s = some i ↔ Decimal s.toList i.toInt := by
  rw [ofText?, Option.bind_eq_some_iff]
  constructor
  · rintro ⟨n, hText, hRange⟩
    rw [ofInt?_eq_some_iff.mp hRange]
    exact intOfDigits?_eq_some_iff.mp hText
  · intro h
    exact ⟨i.toInt, intOfDigits?_eq_some_iff.mpr h, ofInt?_toInt i⟩

/-- A text is read as no integer exactly if it is no decimal text or its number is out of range. -/
theorem ofText?_eq_none_iff :
    ofText? s = none ↔ ∀ n, Decimal s.toList n → n < least ∨ greatest < n := by
  rw [ofText?, Option.bind_eq_none_iff]
  constructor
  · intro h n hn
    exact ofInt?_eq_none_iff.mp (h n (intOfDigits?_eq_some_iff.mpr hn))
  · intro h n hn
    exact ofInt?_eq_none_iff.mpr (h n (intOfDigits?_eq_some_iff.mp hn))

end Integer

/-! ## Digits without a sign -/

namespace Token.IsNumber

variable {s : String}

/-- Digits without a sign have one decimal reading, their value. -/
theorem decimal_iff {cs : List Char} {n : Int} (h : IsNumber cs) :
    Decimal cs n ↔ (decimalValue cs : Int) = n := by
  rw [← Integer.intOfDigits?_eq_some_iff,
    Integer.intOfDigits?_unsigned (h.head?_ne rfl) (h.head?_ne rfl),
    Integer.map_natOfDigits?_eq_some_iff]
  exact and_iff_right h

theorem ofText?_eq_some_iff {i : Integer} (h : IsNumber s.toList) :
    Integer.ofText? s = some i ↔ (decimalValue s.toList : Int) = i.toInt :=
  Integer.ofText?_eq_some_iff.trans h.decimal_iff

theorem ofText?_eq_none_iff (h : IsNumber s.toList) :
    Integer.ofText? s = none ↔ Integer.greatest < decimalValue s.toList := by
  rw [Integer.ofText?_eq_none_iff]
  simp only [h.decimal_iff, forall_eq']
  have hLeast : Integer.least ≤ 0 := by decide
  omega

end Token.IsNumber

end MonkeyLang
