/-!
# Integers of the language

An integer has 64 bits and a sign. Arithmetic is done on unbounded integers and its result is
kept only if it is in range, so an operation never wraps.

* `Integer.ofInt?_eq_some_iff` : a result is kept exactly, or not at all.
* `Integer.ofText?_text` : the decimal text of an integer reads back as that integer.
-/

namespace MonkeyLang

/-- A signed integer of 64 bits. -/
abbrev Integer := Int64

namespace Integer

/-- The least integer. -/
def least : Int := -Int.pow 2 63

/-- The greatest integer. -/
def greatest : Int := Int.pow 2 63 - 1

/-- The integer of a given value, if there is one. -/
def ofInt? (n : Int) : Option Integer :=
  if least ≤ n ∧ n ≤ greatest then some (Int64.ofInt n) else none

theorem ofInt?_eq_some_iff {n : Int} {i : Integer} : ofInt? n = some i ↔ i.toInt = n := by
  unfold ofInt?
  split
  case isTrue h =>
    rw [Option.some.injEq, ← Int64.toInt_inj,
      Int64.toInt_ofInt_of_le h.1 (Int.lt_of_le_sub_one h.2)]
    exact eq_comm
  case isFalse h =>
    refine ⟨nofun, fun hi => absurd ?_ h⟩
    have hLeast := i.minValue_le_toInt
    have hGreatest := i.toInt_le
    rw [hi] at hLeast hGreatest
    exact ⟨hLeast, hGreatest⟩

theorem ofInt?_toInt (i : Integer) : ofInt? i.toInt = some i :=
  ofInt?_eq_some_iff.mpr rfl

/-- Only the numbers beyond the limits are out of range. -/
theorem ofInt?_eq_none_iff {n : Int} : ofInt? n = none ↔ n < least ∨ greatest < n := by
  unfold ofInt?
  split <;> simp <;> omega

/-! ## Decimal text -/

/-- The digits of an integer, after a minus sign if it is negative. -/
def text (i : Integer) : String :=
  let digits := Nat.toDigits 10 i.toInt.natAbs
  String.ofList (if i.toInt < 0 then '-' :: digits else digits)

/-- The value of a list of decimal digits; an empty list or another character has none. -/
def natOfDigits? (cs : List Char) : Option Nat :=
  if cs ≠ [] ∧ cs.all Char.isDigit then some (Nat.ofDigitChars 10 cs 0) else none

/-- The value of decimal digits after at most one sign. -/
def intOfDigits? : List Char → Option Int
  | '-' :: cs => (natOfDigits? cs).map fun n => -(n : Int)
  | '+' :: cs => (natOfDigits? cs).map fun n => (n : Int)
  | cs => (natOfDigits? cs).map fun n => (n : Int)

/-- Reads an integer: at most one sign, then one or more ASCII digits, of a value in range.
Leading zeros do not count against the range. -/
def ofText? (s : String) : Option Integer :=
  (intOfDigits? s.toList).bind ofInt?

/-- The decimal digits of a number are read as that number. -/
theorem natOfDigits?_toDigits (n : Nat) : natOfDigits? (Nat.toDigits 10 n) = some n := by
  have hDigits : (Nat.toDigits 10 n).all Char.isDigit = true :=
    List.all_eq_true.mpr fun _ hc => Nat.isDigit_of_mem_toDigits (by decide) (by decide) hc
  simp [natOfDigits?, hDigits, Nat.toDigits_ne_nil]

theorem intOfDigits?_of_digits {cs : List Char} {n : Nat} (h : natOfDigits? cs = some n) :
    intOfDigits? cs = some (n : Int) := by
  unfold intOfDigits?
  split
  · cases h
  · cases h
  · rw [h]
    rfl

/-- The text of an integer is read as that integer, whatever its sign. -/
theorem ofText?_text (i : Integer) : ofText? i.text = some i := by
  have hDigits := natOfDigits?_toDigits i.toInt.natAbs
  have hValue : intOfDigits? i.text.toList = some i.toInt := by
    simp only [text, String.toList_ofList]
    split
    case isTrue hNeg =>
      simp only [intOfDigits?, hDigits]
      have hAbs : -(i.toInt.natAbs : Int) = i.toInt := by omega
      exact congrArg some hAbs
    case isFalse hNeg =>
      rw [intOfDigits?_of_digits hDigits, Option.some.injEq]
      omega
  rw [ofText?, hValue]
  exact ofInt?_toInt i

end Integer

end MonkeyLang
