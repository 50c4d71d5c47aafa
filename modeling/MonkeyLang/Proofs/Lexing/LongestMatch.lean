import Mathlib.Data.Nat.Find
import Mathlib.Tactic.Push
import MonkeyLang.Token.Scan

/-!
# Scanning by the longest match

A second account of scanning, which does not say how a text is gone through. It lists the forms
a stretch of text can have, each on its own, and one rule for taking a text apart: the next
stretch is the longest one that has some form, a keyword is no identifier, and where nothing has
a form a single character is illegal. Blanks and comments yield no token.

* `Blank`, `LineEnd`, `WordStart`, `WordPart` : the classes of characters, listed anew.
* `Form.Matches` is the table of forms, `Munched` the rule.
* `exists_munched` : the rule takes every text apart.
* `Form.Matches.head` : whatever starts a stretch of some form is such a stretch by itself.
* `Kind.exists_matches_of_extendedBy` : which characters extend a token to a longer stretch.
-/

namespace MonkeyLang.Token

/-! ## Classes of characters -/

/-- Space, tab, line feed, carriage return and form feed. -/
def Blank (c : Char) : Prop :=
  c = ' ' ∨ c = '\t' ∨ c = '\n' ∨ c = '\r' ∨ c = '\x0c'

/-- Line feed and carriage return. -/
def LineEnd (c : Char) : Prop :=
  c = '\n' ∨ c = '\r'

/-- The ASCII letters and the underscore. -/
def WordStart (c : Char) : Prop :=
  'a' ≤ c ∧ c ≤ 'z' ∨ 'A' ≤ c ∧ c ≤ 'Z' ∨ c = '_'

/-- The ASCII letters and digits and the underscore. -/
def WordPart (c : Char) : Prop :=
  WordStart c ∨ '0' ≤ c ∧ c ≤ '9'

instance : DecidablePred LineEnd := fun _ => inferInstanceAs (Decidable (_ ∨ _))

instance : DecidablePred WordStart := fun _ => inferInstanceAs (Decidable (_ ∧ _ ∨ _ ∧ _ ∨ _))

instance : DecidablePred WordPart := fun _ => inferInstanceAs (Decidable (_ ∨ _ ∧ _))

theorem isBlank_iff {c : Char} : isBlank c = true ↔ Blank c := by
  simp [isBlank, Blank, or_assoc]

theorem isLineEnd_iff {c : Char} : isLineEnd c = true ↔ LineEnd c := by
  simp [isLineEnd, LineEnd]

theorem isDigit_iff {c : Char} : c.isDigit = true ↔ '0' ≤ c ∧ c ≤ '9' :=
  Bool.and_eq_true_iff.trans (and_congr decide_eq_true_iff decide_eq_true_iff)

theorem isAlpha_iff {c : Char} :
    c.isAlpha = true ↔ 'a' ≤ c ∧ c ≤ 'z' ∨ 'A' ≤ c ∧ c ≤ 'Z' := by
  have hCases : c.isAlpha = true ↔ c.isUpper = true ∨ c.isLower = true := Bool.or_eq_true_iff
  rw [hCases, or_comm]
  refine or_congr ?_ decide_eq_true_iff
  exact Bool.and_eq_true_iff.trans (and_congr decide_eq_true_iff decide_eq_true_iff)

theorem isWordStart_iff {c : Char} : isWordStart c = true ↔ WordStart c := by
  rw [isWordStart, Bool.or_eq_true, decide_eq_true_iff, isAlpha_iff, or_assoc]
  exact Iff.rfl

theorem isWordPart_iff {c : Char} : isWordPart c = true ↔ WordPart c := by
  have hCases : c.isAlphanum = true ↔ c.isAlpha = true ∨ c.isDigit = true := Bool.or_eq_true_iff
  rw [isWordPart, Bool.or_eq_true, decide_eq_true_iff, hCases, WordPart, ← isWordStart_iff,
    isWordStart, Bool.or_eq_true, decide_eq_true_iff, or_right_comm, isDigit_iff]

/-! ## Forms of texts -/

/-- ASCII letters, digits and underscores, no digit first. -/
def IsWord (cs : List Char) : Prop :=
  ∃ c part, cs = c :: part ∧ WordStart c ∧ ∀ d ∈ part, WordPart d

/-- One or more ASCII digits. -/
def IsNumber (cs : List Char) : Prop :=
  cs ≠ [] ∧ ∀ c ∈ cs, c.isDigit

/-- Two slashes and what follows them on the same line. -/
def IsComment (cs : List Char) : Prop :=
  ∃ body, cs = '/' :: '/' :: body ∧ ∀ c ∈ body, ¬ LineEnd c

/-- The texts of a kind of token. An illegal token and the end of input have no text of their
own. -/
def Kind.Matches : Kind → List Char → Prop
  | .identifier, cs => IsWord cs
  | .integer, cs => IsNumber cs
  | .comment, cs => IsComment cs
  | k, cs => k.spelling? = some (String.ofList cs)

/-- What a stretch of text can be. -/
inductive Form
  | blanks
  | text (kind : Kind)

/-- The stretches of text that have a form. -/
def Form.Matches : Form → List Char → Prop
  | .blanks, cs => cs ≠ [] ∧ ∀ c ∈ cs, Blank c
  | .text k, cs => k.Matches cs

/-- The forms of text that yield no token. -/
def Form.Skipped : Form → Prop
  | .blanks | .text .comment => True
  | _ => False

/-! ## The rule -/

/-- The stretch `cs` has a form, and no longer one that starts at the same place has any. -/
structure Longest (cs rest : List Char) : Prop where
  matched : ∃ f : Form, f.Matches cs
  longest : ∀ (f : Form) (ds : List Char), f.Matches ds → ds <+: cs ++ rest →
    ds.length ≤ cs.length

/-- Taking a text apart yields these tokens. -/
inductive Munched : List Char → List Token → Prop
  | done : Munched [] []
  | skip {f : Form} {cs rest ts} (h : Longest cs rest) (hForm : f.Matches cs) (hSkip : f.Skipped)
      (tail : Munched rest ts) : Munched (cs ++ rest) ts
  | token {k : Kind} {cs rest ts} (h : Longest cs rest) (hKind : k.Matches cs)
      (hComment : k ≠ .comment)
      (hKeyword : k = .identifier → ∀ k' : Kind, k'.spelling? ≠ some (String.ofList cs))
      (tail : Munched rest ts) : Munched (cs ++ rest) (⟨k, String.ofList cs⟩ :: ts)
  | illegal {c rest ts} (h : ∀ (f : Form) (ds : List Char), f.Matches ds → ¬ ds <+: c :: rest)
      (tail : Munched rest ts) : Munched (c :: rest) (⟨.illegal, c.toString⟩ :: ts)

/-! ## Keywords and marks -/

/-- The kinds of word that are no identifiers. -/
def Kind.isKeyword : Kind → Bool
  | .letWord | .trueWord | .falseWord | .ifWord | .elseWord | .returnWord => true
  | _ => false

theorem Kind.matches_of_spelling {k : Kind} {cs : List Char}
    (h : k.spelling? = some (String.ofList cs)) : k.Matches cs := by
  cases k <;> first | exact h | cases h

theorem toList_of_spelling {s : String} {cs : List Char} (h : s = String.ofList cs) :
    cs = s.toList := by
  rw [h, String.toList_ofList]

theorem isWord_of_isKeyword {k : Kind} {cs : List Char} (hKeyword : k.isKeyword = true)
    (h : k.Matches cs) : IsWord cs := by
  cases k with
  | letWord | trueWord | falseWord | ifWord | elseWord | returnWord =>
    obtain rfl := toList_of_spelling (Option.some.inj h)
    refine ⟨_, _, rfl, isWordStart_iff.mp rfl, fun d hd => isWordPart_iff.mp ?_⟩
    exact List.all_eq_true.mp rfl d hd
  | _ => cases hKeyword

theorem IsWord.append {cs : List Char} {c : Char} (h : IsWord cs) (hc : WordPart c) :
    IsWord (cs ++ [c]) := by
  obtain ⟨d, part, rfl, hStart, hPart⟩ := h
  refine ⟨d, part ++ [c], rfl, hStart, ?_⟩
  intro e he
  rcases List.mem_append.mp he with he | he
  · exact hPart e he
  · rw [List.mem_singleton.mp he]
    exact hc

theorem isWord_singleton {c : Char} (h : WordStart c) : IsWord [c] :=
  ⟨c, [], rfl, h, List.forall_mem_nil _⟩

/-! ## Starts and ends -/

theorem Form.Matches.ne_nil {f : Form} {cs : List Char} (h : f.Matches cs) : cs ≠ [] := by
  rintro rfl
  cases f with
  | blanks => exact h.1 rfl
  | text k =>
    cases k with
    | identifier =>
      obtain ⟨_, _, h, -⟩ := h
      cases h
    | integer => exact h.1 rfl
    | comment =>
      obtain ⟨_, h, -⟩ := h
      cases h
    | illegal | endOfInput => cases h
    | _ => exact absurd (toList_of_spelling (Option.some.inj h)) (by decide)

/-- Whatever starts a stretch of some form is such a stretch by itself. -/
theorem Form.Matches.head {f : Form} {c : Char} {cs : List Char} (h : f.Matches (c :: cs)) :
    ∃ f' : Form, f'.Matches [c] := by
  have hText : ∀ {k : Kind} {d : Char} {s : String}, k.spelling? = some s →
      [d] = s.toList → d = c → ∃ f' : Form, f'.Matches [c] := by
    rintro k d s hSpelling hSingle rfl
    refine ⟨.text k, Kind.matches_of_spelling ?_⟩
    rw [hSpelling, hSingle, String.ofList_toList]
  cases f with
  | blanks => exact ⟨.blanks, List.cons_ne_nil _ _, fun d hd => h.2 d (by simp_all)⟩
  | text k =>
    cases hKeyword : k.isKeyword with
    | true =>
      obtain ⟨d, part, hCons, hStart, -⟩ := isWord_of_isKeyword hKeyword h
      obtain ⟨rfl, -⟩ := List.cons.inj hCons
      exact ⟨.text .identifier, isWord_singleton hStart⟩
    | false =>
      cases k with
      | identifier =>
        obtain ⟨d, part, hCons, hStart, -⟩ := h
        obtain ⟨rfl, -⟩ := List.cons.inj hCons
        exact ⟨.text .identifier, isWord_singleton hStart⟩
      | integer => exact ⟨.text .integer, List.cons_ne_nil _ _, fun d hd => h.2 d (by simp_all)⟩
      | comment =>
        obtain ⟨body, hCons, -⟩ := h
        exact hText (k := .slash) rfl rfl (List.cons.inj hCons).1.symm
      | equal =>
        have hCons := toList_of_spelling (Option.some.inj h)
        exact hText (k := .assign) rfl rfl (List.cons.inj hCons).1.symm
      | notEqual =>
        have hCons := toList_of_spelling (Option.some.inj h)
        exact hText (k := .bang) rfl rfl (List.cons.inj hCons).1.symm
      | illegal | endOfInput => cases h
      | letWord | trueWord | falseWord | ifWord | elseWord | returnWord => cases hKeyword
      | _ =>
        obtain ⟨rfl, rfl⟩ := List.cons.inj (toList_of_spelling (Option.some.inj h))
        exact ⟨_, h⟩

/-- The characters that make a longer stretch of a text of some kind. -/
def Kind.extendedBy : Kind → Char → Bool
  | .identifier, c => WordPart c
  | .integer, c => c.isDigit
  | .assign, c | .bang, c => c = '='
  | .slash, c => c = '/'
  | .comment, c => ¬ LineEnd c
  | k, c => k.isKeyword && WordPart c

theorem Kind.extendedBy_of_isKeyword {k : Kind} (h : k.isKeyword = true) (c : Char) :
    k.extendedBy c = decide (WordPart c) := by
  cases k with
  | letWord | trueWord | falseWord | ifWord | elseWord | returnWord => rfl
  | _ => cases h

/-- A character that extends a token makes a longer piece of some form. -/
theorem Kind.exists_matches_of_extendedBy {k : Kind} {cs : List Char} {c : Char}
    (h : k.Matches cs) (hc : k.extendedBy c = true) : ∃ f : Form, f.Matches (cs ++ [c]) := by
  cases hKeyword : k.isKeyword with
  | true =>
    rw [extendedBy_of_isKeyword hKeyword] at hc
    exact ⟨.text .identifier, (isWord_of_isKeyword hKeyword h).append (of_decide_eq_true hc)⟩
  | false =>
    cases k with
    | identifier => exact ⟨.text .identifier, IsWord.append h (of_decide_eq_true hc)⟩
    | integer =>
      refine ⟨.text .integer, by simp, ?_⟩
      intro d hd
      rcases List.mem_append.mp hd with hd | hd
      · exact h.2 d hd
      · rw [List.mem_singleton.mp hd]
        exact hc
    | comment =>
      obtain ⟨body, rfl, hBody⟩ := h
      refine ⟨.text .comment, body ++ [c], rfl, ?_⟩
      intro d hd
      rcases List.mem_append.mp hd with hd | hd
      · exact hBody d hd
      · rw [List.mem_singleton.mp hd]
        exact of_decide_eq_true hc
    | assign =>
      obtain rfl := toList_of_spelling (Option.some.inj h)
      obtain rfl := of_decide_eq_true hc
      exact ⟨.text .equal, rfl⟩
    | bang =>
      obtain rfl := toList_of_spelling (Option.some.inj h)
      obtain rfl := of_decide_eq_true hc
      exact ⟨.text .notEqual, rfl⟩
    | slash =>
      obtain rfl := toList_of_spelling (Option.some.inj h)
      obtain rfl := of_decide_eq_true hc
      exact ⟨.text .comment, [], rfl, List.forall_mem_nil _⟩
    | letWord | trueWord | falseWord | ifWord | elseWord | returnWord => cases hKeyword
    | _ => cases hc

/-- A stretch that cannot be longer is not followed by a character that extends it. -/
theorem Longest.not_extendedBy {k : Kind} {cs rest : List Char} (h : Longest cs rest)
    (hKind : k.Matches cs) : ∀ c ∈ rest.head?, k.extendedBy c = false := by
  intro c hc
  obtain ⟨rest, rfl⟩ := List.head?_eq_some_iff.mp hc
  rw [Bool.eq_false_iff]
  intro hExtended
  obtain ⟨f, hForm⟩ := Kind.exists_matches_of_extendedBy hKind hExtended
  have hShorter := h.longest f _ hForm ⟨rest, by simp⟩
  rw [List.length_append, List.length_singleton] at hShorter
  omega

/-! ## The rule takes every text apart -/

/-- If something at the beginning of a text has a form, something longest has. -/
theorem exists_longest {f : Form} {cs text : List Char} (h : f.Matches cs) (hText : cs <+: text) :
    ∃ ds rest, text = ds ++ rest ∧ Longest ds rest := by
  classical
  let IsMatched (n : Nat) : Prop := ∃ f : Form, f.Matches (text.take n)
  have hSome : IsMatched cs.length := ⟨f, by rwa [← List.prefix_iff_eq_take.mp hText]⟩
  obtain ⟨f', hForm⟩ := Nat.findGreatest_spec hText.length_le hSome
  refine ⟨_, _, (List.take_append_drop _ text).symm, ⟨f', hForm⟩, ?_⟩
  rw [List.take_append_drop]
  intro g es hMatches hPrefix
  have hIsMatched : IsMatched es.length := ⟨g, by rwa [← List.prefix_iff_eq_take.mp hPrefix]⟩
  have hLe := Nat.le_findGreatest hPrefix.length_le hIsMatched
  rw [List.length_take, Nat.min_eq_left (Nat.findGreatest_le _)]
  exact hLe

/-- Every text can be taken piece by piece to its end. -/
theorem exists_munched (text : List Char) : ∃ ts, Munched text ts := by
  induction hLength : text.length using Nat.strongRecOn generalizing text with
  | ind n ih =>
    cases text with
    | nil => exact ⟨[], .done⟩
    | cons c text =>
      by_cases hNone : ∀ (f : Form) (ds : List Char), f.Matches ds → ¬ ds <+: c :: text
      · obtain ⟨ts, hTail⟩ := ih text.length (by simp [← hLength]) text rfl
        exact ⟨_, .illegal hNone hTail⟩
      · push Not at hNone
        obtain ⟨f, ds, hMatches, hPrefix⟩ := hNone
        obtain ⟨cs, rest, hText, hLongest⟩ := exists_longest hMatches hPrefix
        obtain ⟨g, hForm⟩ := hLongest.matched
        have hShorter : rest.length < n := by
          have hPositive := List.length_pos_iff.mpr hForm.ne_nil
          rw [← hLength, hText, List.length_append]
          omega
        obtain ⟨ts, hTail⟩ := ih rest.length hShorter rest rfl
        rw [hText]
        by_cases hSkip : g.Skipped
        · exact ⟨ts, .skip hLongest hForm hSkip hTail⟩
        · cases g with
          | blanks => exact absurd trivial hSkip
          | text k =>
            have hComment : k ≠ .comment := by
              rintro rfl
              exact hSkip trivial
            by_cases hKeyword : ∃ k' : Kind, k'.spelling? = some (String.ofList cs)
            · obtain ⟨k', hSpelling⟩ := hKeyword
              refine ⟨_, .token hLongest (Kind.matches_of_spelling hSpelling) ?_ ?_ hTail⟩
              · rintro rfl
                cases hSpelling
              · rintro rfl
                cases hSpelling
            · push Not at hKeyword
              exact ⟨_, .token hLongest hForm hComment (fun _ => hKeyword) hTail⟩

end MonkeyLang.Token
