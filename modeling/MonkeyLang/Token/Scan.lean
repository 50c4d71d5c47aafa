import MonkeyLang.Token

/-!
# Scanning a text into tokens

Between tokens stand blanks and comments, which are dropped. A token takes as many characters
as it can: a word goes on to the last letter, digit or underscore, a number to its last digit,
and `==` and `!=` win over `=` and `!`. A word that spells a keyword is that keyword. A
character that starts no token is an illegal token by itself.

* `next` reads one token and returns what is left; at the end it returns `Token.finish`.
* `scan` reads all of them, without the end of input.
* `firstTokens_eq` : reading token by token gives those of `scan`, and then ends of input for
  as long as one goes on reading.
-/

namespace MonkeyLang.Token

/-! ## Classes of characters -/

/-- The characters that separate tokens: space, tab, line feed, carriage return, form feed. -/
def isBlank (c : Char) : Bool :=
  c = ' ' || c = '\t' || c = '\n' || c = '\r' || c = '\x0c'

/-- The characters that end a comment. -/
def isLineEnd (c : Char) : Bool :=
  c = '\n' || c = '\r'

/-- The characters a word may start with: the ASCII letters and the underscore. -/
def isWordStart (c : Char) : Bool :=
  c.isAlpha || c = '_'

/-- The characters a word may go on with: the ASCII letters and digits and the underscore. -/
def isWordPart (c : Char) : Bool :=
  c.isAlphanum || c = '_'

/-! ## One token -/

/-- Drops blanks and comments. The flag says that a comment is open; it lasts to the next line
end, which is then dropped as a blank. -/
def skipGap : (inComment : Bool) → List Char → List Char
  | _, [] => []
  | true, c :: cs => if isLineEnd c then skipGap false cs else skipGap true cs
  | false, '/' :: '/' :: cs => skipGap true cs
  | false, c :: cs => if isBlank c then skipGap false cs else c :: cs

/-- The token that starts with the character `c` where neither a word nor a number starts, and
what follows it. -/
def symbol : Char → List Char → Token × List Char
  | '=', '=' :: cs => (⟨.equal, "=="⟩, cs)
  | '!', '=' :: cs => (⟨.notEqual, "!="⟩, cs)
  | c, cs => (⟨.ofSymbol c, c.toString⟩, cs)

/-- The longest token that starts with the character `c`, and what follows it. -/
def munch (c : Char) (cs : List Char) : Token × List Char :=
  if isWordStart c then
    let word := String.ofList (c :: cs.takeWhile isWordPart)
    (⟨.ofWord word, word⟩, cs.dropWhile isWordPart)
  else if c.isDigit then
    (⟨.integer, String.ofList (c :: cs.takeWhile Char.isDigit)⟩, cs.dropWhile Char.isDigit)
  else
    symbol c cs

/-- The next token of a text and what follows it. -/
def next (cs : List Char) : Token × List Char :=
  match skipGap false cs with
  | [] => (finish, [])
  | c :: rest => munch c rest

/-! ## All tokens -/

theorem length_skipGap_le (b : Bool) (cs : List Char) : (skipGap b cs).length ≤ cs.length := by
  fun_induction skipGap b cs <;> grind

theorem length_dropWhile_le (p : Char → Bool) (cs : List Char) :
    (cs.dropWhile p).length ≤ cs.length :=
  (List.dropWhile_sublist p).length_le

theorem length_symbol_le (c : Char) (cs : List Char) : (symbol c cs).2.length ≤ cs.length := by
  fun_cases symbol c cs <;> simp

theorem length_munch_le (c : Char) (cs : List Char) : (munch c cs).2.length ≤ cs.length := by
  unfold munch
  split
  · exact length_dropWhile_le _ _
  · split
    · exact length_dropWhile_le _ _
    · exact length_symbol_le c cs

/-- The tokens of a text in order, the end of input excluded. -/
def scan (cs : List Char) : List Token :=
  match _hGap : skipGap false cs with
  | [] => []
  | c :: rest => (munch c rest).1 :: scan (munch c rest).2
termination_by cs.length
decreasing_by
  have hLength := length_skipGap_le false cs
  have hMunch := length_munch_le c rest
  rw [_hGap, List.length_cons] at hLength
  omega

/-- The tokens of a source text in order, the end of input excluded. -/
def ofSource (source : String) : List Token :=
  scan source.toList

/-! ## Reading token by token -/

/-- The tokens that the first `n` readings return. -/
def firstTokens : Nat → List Char → List Token
  | 0, _ => []
  | n + 1, cs => (next cs).1 :: firstTokens n (next cs).2

theorem scan_of_gap {cs : List Char} (h : skipGap false cs = []) : scan cs = [] := by
  rw [scan]
  split
  · rfl
  · simp_all

theorem scan_of_next {cs rest : List Char} {c : Char} (h : skipGap false cs = c :: rest) :
    scan cs = (munch c rest).1 :: scan (munch c rest).2 := by
  rw [scan]
  split <;> simp_all

@[simp] theorem scan_nil : scan [] = [] := scan_of_gap rfl

theorem firstTokens_nil (n : Nat) : firstTokens n [] = List.replicate n finish := by
  induction n with
  | zero => rfl
  | succ n ih => simp [firstTokens, next, skipGap, ih, List.replicate_succ]

/-- Past its last token a text yields the end of input for ever. -/
theorem firstTokens_eq (n : Nat) (cs : List Char) :
    firstTokens n cs = (scan cs ++ List.replicate n finish).take n := by
  induction n generalizing cs with
  | zero => simp [firstTokens]
  | succ n ih =>
    cases h : skipGap false cs with
    | nil => simp [firstTokens, next, h, scan_of_gap h, firstTokens_nil, List.replicate_succ]
    | cons c rest =>
      simp only [firstTokens, next, h, scan_of_next h, ih, List.cons_append, List.take_succ_cons]
      simp only [List.take_append, List.take_replicate]
      congr 3
      omega

/-- All tokens of a text, its end of input, and `extra` readings past that. -/
def throughEnd (cs : List Char) (extra : Nat) : List Token :=
  firstTokens ((scan cs).length + 1 + extra) cs

/-- Past the last token there is nothing but the end of input. -/
theorem throughEnd_eq (cs : List Char) (extra : Nat) :
    throughEnd cs extra = scan cs ++ List.replicate (1 + extra) finish := by
  simp only [throughEnd, firstTokens_eq, List.take_append, List.take_replicate]
  rw [List.take_of_length_le (by omega)]
  congr 2
  omega

end MonkeyLang.Token
