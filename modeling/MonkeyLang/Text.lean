/-!
# White space and lines

The white space at the ends of a text is that of Unicode, which is a larger set than that of the
blanks between tokens.

A line ends at a line feed, and a carriage return that ends a line is no part of it. The last
line need not be ended; if nothing follows the last line feed there is no further line.

* `isWhite_of_isWhitespace` : the characters that core calls white space are among those here.
* `splitLines_append` : a text that ends with a line feed can be split off.
-/

namespace MonkeyLang.Text

/-! ## White space -/

/-- The ranges of code points with the property White_Space, both ends included. -/
def whiteRanges : List (Nat × Nat) :=
  [(0x9, 0xD), (0x20, 0x20), (0x85, 0x85), (0xA0, 0xA0), (0x1680, 0x1680), (0x2000, 0x200A),
    (0x2028, 0x2029), (0x202F, 0x202F), (0x205F, 0x205F), (0x3000, 0x3000)]

/-- Whether a character has the property White_Space. -/
def isWhite (c : Char) : Bool :=
  whiteRanges.any fun (low, high) => low ≤ c.toNat && c.toNat ≤ high

theorem isWhite_of_isWhitespace {c : Char} (h : c.isWhitespace) : isWhite c := by
  simp only [Char.isWhitespace, Bool.or_eq_true, decide_eq_true_eq] at h
  rcases h with ((rfl | rfl) | rfl) | rfl <;> rfl

/-- Drops white space at both ends. -/
def trim (s : String) : String :=
  String.ofList ((s.toList.dropWhile isWhite).reverse.dropWhile isWhite).reverse

/-! ## Lines -/

/-- Splits characters at each line feed, which is dropped. -/
def splitLines : List Char → List (List Char)
  | [] => []
  | '\n' :: cs => [] :: splitLines cs
  | c :: cs =>
    match splitLines cs with
    | [] => [[c]]
    | line :: lines => (c :: line) :: lines

theorem splitLines_append (cs ds : List Char) :
    splitLines (cs ++ '\n' :: ds) = splitLines (cs ++ ['\n']) ++ splitLines ds := by
  induction cs with
  | nil => rfl
  | cons c cs ih =>
    by_cases hc : c = '\n'
    · subst hc
      simp [splitLines, ih]
    · have hCons : ∀ es, splitLines (c :: es) = match splitLines es with
          | [] => [[c]]
          | line :: lines => (c :: line) :: lines := fun es => by
        rw [splitLines]
        exact hc
      rw [List.cons_append, List.cons_append, hCons, hCons, ih]
      cases h : splitLines (cs ++ ['\n']) with
      | nil => cases cs <;> grind [splitLines]
      | cons line lines => rfl

/-- A line without the carriage return that ends it. -/
def dropReturn (line : List Char) : List Char :=
  if line.getLast? = some '\r' then line.dropLast else line

/-- The lines of a text. -/
def lines (s : String) : List String :=
  (splitLines s.toList).map fun line => String.ofList (dropReturn line)

end MonkeyLang.Text
