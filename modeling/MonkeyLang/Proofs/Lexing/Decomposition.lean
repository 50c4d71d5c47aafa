import Mathlib.Tactic.ByContra
import MonkeyLang.Proofs.Lexing.LongestMatch

/-!
# Tokens and gaps

A text is a gap, a token, a gap, a token and so on, and a last gap. `Lexed` says this of a text
and its tokens: every literal belongs to its kind and could not have been longer, and every gap
is made of blanks and comments. It leaves nothing of the text out and says nothing of how it is
gone through.

* `Munched.lexed` : taking the longest matches leads to such a decomposition.
* `Lexed.eq_scan` : there is only one, and scanning finds it.
* `ofSource_lossless` : the tokens of a source text are those of the longest matches, and with
  the gaps between them they are the text.
-/

namespace MonkeyLang.Token

/-! ## Gaps -/

/-- Blanks and comments in front of `rest`. A comment goes on to the end of its line. -/
inductive Gap (rest : List Char) : List Char → Prop
  | nil : Gap rest []
  | blank {c gap} (h : Blank c) (tail : Gap rest gap) : Gap rest (c :: gap)
  | comment {cs gap} (h : IsComment cs) (hEnd : ∀ c ∈ (gap ++ rest).head?, LineEnd c)
      (tail : Gap rest gap) : Gap rest (cs ++ gap)

/-! ## Tokens -/

/-- No stretch of any form starts with the character. -/
def StartsNothing (c : Char) : Prop :=
  ∀ (f : Form) (cs : List Char), ¬ f.Matches (c :: cs)

/-- The literal is a text of the kind. -/
def Belongs (t : Token) : Prop :=
  match t.kind with
  | .identifier => IsWord t.literal.toList ∧ ∀ k : Kind, k.spelling? ≠ some t.literal
  | .integer => IsNumber t.literal.toList
  | .illegal => ∃ c, t.literal.toList = [c] ∧ StartsNothing c
  | .endOfInput | .comment => False
  | k => k.spelling? = some t.literal

/-- The token could not have been longer. -/
def Ends (t : Token) (rest : List Char) : Prop :=
  ∀ c ∈ rest.head?, t.kind.extendedBy c = false

/-- A text is made of these tokens and of gaps around them. -/
inductive Lexed : List Token → List Char → Prop
  | nil {gap} (h : Gap [] gap) : Lexed [] gap
  | cons {t ts gap rest} (h : Gap (t.literal.toList ++ rest) gap) (hBelongs : t.Belongs)
      (hEnds : t.Ends rest) (tail : Lexed ts rest) :
      Lexed (t :: ts) (gap ++ (t.literal.toList ++ rest))

theorem Belongs.of_matches {k : Kind} {cs : List Char} (h : k.Matches cs) (hComment : k ≠ .comment)
    (hKeyword : k = .identifier → ∀ k' : Kind, k'.spelling? ≠ some (String.ofList cs)) :
    Belongs ⟨k, String.ofList cs⟩ := by
  cases k with
  | identifier => exact ⟨by rwa [String.toList_ofList], hKeyword rfl⟩
  | integer =>
    change IsNumber (String.ofList cs).toList
    rwa [String.toList_ofList]
  | comment => exact absurd rfl hComment
  | illegal | endOfInput => cases h
  | _ => exact h

/-- A token that is not illegal has a literal of the form of its kind. -/
theorem Belongs.matches {t : Token} (h : t.Belongs) (hKind : t.kind ≠ .illegal) :
    t.kind.Matches t.literal.toList := by
  obtain ⟨k, literal⟩ := t
  cases k with
  | identifier => exact h.1
  | integer => exact h
  | illegal => exact absurd rfl hKind
  | endOfInput | comment => cases h
  | _ => exact Kind.matches_of_spelling (by rw [String.ofList_toList]; exact h)

theorem Belongs.kind_ne_endOfInput {t : Token} (h : t.Belongs) : t.kind ≠ .endOfInput := by
  obtain ⟨k, literal⟩ := t
  rintro rfl
  exact h

/-! ## Longest matches -/

theorem Lexed.skip {ts : List Token} {cs text : List Char} (h : Lexed ts text)
    (hGap : ∀ gap rest, gap ++ rest = text → Gap rest gap → Gap rest (cs ++ gap)) :
    Lexed ts (cs ++ text) := by
  cases h with
  | nil h => exact .nil (hGap _ _ (List.append_nil _) h)
  | cons h hBelongs hEnds tail =>
    rw [← List.append_assoc]
    exact .cons (hGap _ _ rfl h) hBelongs hEnds tail

theorem Lexed.token {t : Token} {ts : List Token} {rest : List Char} (h : Lexed ts rest)
    (hBelongs : t.Belongs) (hEnds : t.Ends rest) : Lexed (t :: ts) (t.literal.toList ++ rest) :=
  .cons .nil hBelongs hEnds h

theorem Lexed.space {ts : List Token} {text : List Char} (h : Lexed ts text) :
    Lexed ts ([' '] ++ text) :=
  h.skip fun _ _ _ hGap => .blank (.inl rfl) hGap

theorem Gap.blanks {cs gap rest : List Char} (h : ∀ c ∈ cs, Blank c)
    (tail : Gap rest gap) : Gap rest (cs ++ gap) := by
  induction cs with
  | nil => exact tail
  | cons c cs ih =>
    exact .blank (h c List.mem_cons_self) (ih fun d hd => h d (List.mem_cons_of_mem _ hd))

/-- Taking the longest piece each time gives tokens of their kinds with gaps between them. -/
theorem Munched.lexed {text : List Char} {ts : List Token} (h : Munched text ts) :
    Lexed ts text := by
  induction h with
  | done => exact .nil .nil
  | @skip f cs rest ts hLongest hForm hSkip _ ih =>
    refine ih.skip fun gap rest' hText hGap => ?_
    cases f with
    | blanks => exact .blanks hForm.2 hGap
    | text k =>
      cases k with
      | comment =>
        refine .comment hForm ?_ hGap
        intro c hc
        rw [hText] at hc
        have hEnd := hLongest.not_extendedBy (k := .comment) hForm c hc
        exact Decidable.of_not_not (of_decide_eq_false hEnd)
      | _ => cases hSkip
  | @token k cs rest ts hLongest hKind hComment hKeyword _ ih =>
    have hBelongs := Belongs.of_matches hKind hComment hKeyword
    have hLexed := Lexed.cons .nil hBelongs (hLongest.not_extendedBy hKind) ih
    simpa using hLexed
  | @illegal c rest ts hNone _ ih =>
    have hStarts : StartsNothing c := by
      intro f cs hMatches
      obtain ⟨f', hForm⟩ := hMatches.head
      exact hNone f' [c] hForm ⟨rest, rfl⟩
    have hBelongs : Belongs ⟨.illegal, c.toString⟩ := ⟨c, by simp, hStarts⟩
    have hEnds : Ends ⟨.illegal, c.toString⟩ rest := fun _ _ => rfl
    have hLexed := Lexed.cons .nil hBelongs hEnds ih
    simpa using hLexed

/-! ## Scanning a token -/

/-- A text starts with a token where no blank and no comment starts. -/
theorem skipGap_cons {c : Char} {cs : List Char} (hBlank : isBlank c = false)
    (hSlash : c = '/' → ∀ d ∈ cs.head?, d ≠ '/') : skipGap false (c :: cs) = c :: cs := by
  rw [skipGap]
  · rw [hBlank]
    rfl
  · rintro _ hc rfl
    exact hSlash hc '/' rfl rfl

/-- A run of characters of a class, in front of one that does not belong to it. -/
theorem span_run {p : Char → Bool} {part rest : List Char} (hPart : ∀ d ∈ part, p d = true)
    (hRest : ∀ d ∈ rest.head?, p d = false) :
    (part ++ rest).takeWhile p = part ∧ (part ++ rest).dropWhile p = rest := by
  rw [List.takeWhile_append_of_pos hPart, List.dropWhile_append_of_pos hPart]
  cases rest with
  | nil => simp
  | cons d rest => simp [hRest d rfl]

theorem munch_word {c : Char} {part rest : List Char} (hStart : isWordStart c = true)
    (hPart : ∀ d ∈ part, isWordPart d = true) (hRest : ∀ d ∈ rest.head?, isWordPart d = false) :
    munch c (part ++ rest) =
      (⟨.ofWord (String.ofList (c :: part)), String.ofList (c :: part)⟩, rest) := by
  obtain ⟨hTake, hDrop⟩ := span_run hPart hRest
  rw [munch, if_pos hStart, hTake, hDrop]

theorem isWordStart_eq_false_of_isDigit {c : Char} (h : c.isDigit = true) :
    isWordStart c = false := by
  obtain ⟨-, hLast⟩ := isDigit_iff.mp h
  rw [Bool.eq_false_iff, ne_eq, isWordStart_iff]
  rintro (⟨hFirst, -⟩ | ⟨hFirst, -⟩ | rfl)
  · exact absurd (Char.le_trans hFirst hLast) (by decide)
  · exact absurd (Char.le_trans hFirst hLast) (by decide)
  · exact absurd hLast (by decide)

/-- No blank starts a word or a number. -/
theorem isBlank_eq_false {c : Char} (h : isWordStart c = true ∨ c.isDigit = true) :
    isBlank c = false := by
  rw [Bool.eq_false_iff]
  intro hBlank
  simp only [isBlank, Bool.or_eq_true, decide_eq_true_eq] at hBlank
  rcases hBlank with (((rfl | rfl) | rfl) | rfl) | rfl <;> rcases h with h | h <;> cases h

theorem munch_number {c : Char} {part rest : List Char} (hStart : c.isDigit = true)
    (hPart : ∀ d ∈ part, d.isDigit = true) (hRest : ∀ d ∈ rest.head?, d.isDigit = false) :
    munch c (part ++ rest) = (⟨.integer, String.ofList (c :: part)⟩, rest) := by
  obtain ⟨hTake, hDrop⟩ := span_run hPart hRest
  rw [munch, if_neg (by rw [isWordStart_eq_false_of_isDigit hStart]; decide), if_pos hStart, hTake,
    hDrop]

theorem munch_symbol {c : Char} {cs : List Char} (hWord : isWordStart c = false)
    (hDigit : c.isDigit = false) : munch c cs = symbol c cs := by
  simp [munch, hWord, hDigit]

/-- A character that is not the first of a pair is a token by itself. -/
theorem symbol_single {c : Char} {cs : List Char}
    (h : ∀ d ∈ cs.head?, (Kind.ofSymbol c).extendedBy d = false) :
    symbol c cs = (⟨.ofSymbol c, c.toString⟩, cs) := by
  rw [symbol]
  · rintro _ rfl rfl
    cases h '=' rfl
  · rintro _ rfl rfl
    cases h '=' rfl

theorem spelling?_ofSymbol {c : Char} (h : Kind.ofSymbol c ≠ .illegal) :
    (Kind.ofSymbol c).spelling? = some c.toString := by
  revert h
  unfold Kind.ofSymbol
  split <;> intro h <;> first | rfl | exact absurd rfl h

theorem ofWord_of_spelling {k : Kind} {s : String} (hKeyword : k.isKeyword = true)
    (h : k.spelling? = some s) : Kind.ofWord s = k := by
  cases k with
  | letWord | trueWord | falseWord | ifWord | elseWord | returnWord =>
    obtain rfl := Option.some.inj h
    rfl
  | _ => cases hKeyword

theorem ofWord_of_no_spelling {s : String} (h : ∀ k : Kind, k.spelling? ≠ some s) :
    Kind.ofWord s = .identifier := by
  unfold Kind.ofWord
  split
  · exact absurd rfl (h .letWord)
  · exact absurd rfl (h .trueWord)
  · exact absurd rfl (h .falseWord)
  · exact absurd rfl (h .ifWord)
  · exact absurd rfl (h .elseWord)
  · exact absurd rfl (h .returnWord)
  · rfl

/-- The token stands at the beginning of a text, and scanning takes it and leaves the rest. -/
def Scans (t : Token) (rest : List Char) : Prop :=
  ∃ c cs, t.literal.toList ++ rest = c :: cs ∧ skipGap false (c :: cs) = c :: cs ∧
    munch c cs = (t, rest)

theorem scans_word {k : Kind} {literal : String} {rest : List Char}
    (hWord : IsWord literal.toList) (hKind : Kind.ofWord literal = k)
    (hRest : ∀ d ∈ rest.head?, Kind.identifier.extendedBy d = false) :
    Scans ⟨k, literal⟩ rest := by
  obtain ⟨c, part, hLiteral, hWordStart, hWordPart⟩ := hWord
  have hStart : isWordStart c = true := isWordStart_iff.mpr hWordStart
  have hPart : ∀ d ∈ part, isWordPart d = true := fun d hd => isWordPart_iff.mpr (hWordPart d hd)
  have hEnd : ∀ d ∈ rest.head?, isWordPart d = false := fun d hd =>
    Bool.eq_false_iff.mpr (mt isWordPart_iff.mp (of_decide_eq_false (hRest d hd)))
  refine ⟨c, part ++ rest, congrArg (· ++ rest) hLiteral, ?_, ?_⟩
  · refine skipGap_cons (isBlank_eq_false (.inl hStart)) ?_
    rintro rfl
    cases hStart
  · rw [munch_word hStart hPart hEnd, ← hLiteral, String.ofList_toList, hKind]

theorem scans_number {literal : String} {rest : List Char} (hNumber : IsNumber literal.toList)
    (hRest : ∀ d ∈ rest.head?, d.isDigit = false) : Scans ⟨.integer, literal⟩ rest := by
  obtain ⟨hNil, hDigits⟩ := hNumber
  obtain ⟨c, part, hLiteral⟩ := List.exists_cons_of_ne_nil hNil
  rw [hLiteral] at hDigits
  have hStart := hDigits c List.mem_cons_self
  refine ⟨c, part ++ rest, congrArg (· ++ rest) hLiteral, ?_, ?_⟩
  · refine skipGap_cons (isBlank_eq_false (.inr hStart)) ?_
    rintro rfl
    cases hStart
  · rw [munch_number hStart (fun d hd => hDigits d (List.mem_cons_of_mem _ hd)) hRest, ← hLiteral,
      String.ofList_toList]

theorem scans_single {c : Char} {rest : List Char} (hWord : isWordStart c = false)
    (hDigit : c.isDigit = false) (hBlank : isBlank c = false)
    (hEnds : Ends ⟨.ofSymbol c, c.toString⟩ rest) : Scans ⟨.ofSymbol c, c.toString⟩ rest := by
  refine ⟨c, rest, by simp, skipGap_cons hBlank ?_, ?_⟩
  · rintro rfl d hd rfl
    cases hEnds '/' hd
  · rw [munch_symbol hWord hDigit, symbol_single hEnds]

/-- A character that starts no stretch is an illegal token by itself. -/
theorem StartsNothing.scans {c : Char} (h : StartsNothing c) (rest : List Char) :
    Scans ⟨.illegal, c.toString⟩ rest := by
  have hText : ∀ k : Kind, k.spelling? ≠ some c.toString := fun k hSpelling =>
    h (.text k) [] (Kind.matches_of_spelling hSpelling)
  have hIllegal : Kind.ofSymbol c = .illegal := by
    by_contra hKind
    exact hText _ (spelling?_ofSymbol hKind)
  rw [← hIllegal]
  refine scans_single ?_ ?_ ?_ ?_
  · rw [Bool.eq_false_iff]
    exact fun hWord => h (.text .identifier) [] (isWord_singleton (isWordStart_iff.mp hWord))
  · rw [Bool.eq_false_iff]
    exact fun hDigit => h (.text .integer) [] ⟨List.cons_ne_nil _ _, by simpa using hDigit⟩
  · rw [Bool.eq_false_iff]
    exact fun hBlank => h .blanks [] ⟨List.cons_ne_nil _ _, by simpa using isBlank_iff.mp hBlank⟩
  · rw [hIllegal]
    exact fun _ _ => rfl

/-- The marks that are single characters. -/
theorem exists_single {k : Kind} {s : String} (h : k.spelling? = some s)
    (hKeyword : k.isKeyword = false) (hEqual : k ≠ .equal) (hNotEqual : k ≠ .notEqual) :
    ∃ c, Kind.ofSymbol c = k ∧ c.toString = s ∧ isWordStart c = false ∧ c.isDigit = false ∧
      isBlank c = false := by
  refine ⟨s.toList.headD ' ', ?_⟩
  cases k with
  | equal => exact absurd rfl hEqual
  | notEqual => exact absurd rfl hNotEqual
  | illegal | endOfInput | identifier | integer | comment => cases h
  | letWord | trueWord | falseWord | ifWord | elseWord | returnWord => cases hKeyword
  | _ =>
    obtain rfl := Option.some.inj h
    decide

/-- A token that ends where its literal ends is scanned as one token. -/
theorem Belongs.scans {t : Token} {rest : List Char} (h : t.Belongs) (hEnds : t.Ends rest) :
    Scans t rest := by
  obtain ⟨k, literal⟩ := t
  cases k with
  | identifier => exact scans_word h.1 (ofWord_of_no_spelling h.2) hEnds
  | integer => exact scans_number h hEnds
  | illegal =>
    obtain ⟨c, hLiteral, hStarts⟩ := h
    obtain rfl : literal = c.toString := String.toList_inj.mp (hLiteral.trans (by simp))
    exact hStarts.scans rest
  | endOfInput | comment => cases h
  | letWord | trueWord | falseWord | ifWord | elseWord | returnWord =>
    refine scans_word (isWord_of_isKeyword rfl (h.matches nofun)) (ofWord_of_spelling rfl h) ?_
    exact hEnds
  | equal =>
    obtain rfl : "==" = literal := Option.some.inj h
    exact ⟨_, _, rfl, rfl, rfl⟩
  | notEqual =>
    obtain rfl : "!=" = literal := Option.some.inj h
    exact ⟨_, _, rfl, rfl, rfl⟩
  | _ =>
    obtain ⟨c, hKind, rfl, hWord, hDigit, hBlank⟩ := exists_single h rfl nofun nofun
    have hSingle : Ends ⟨.ofSymbol c, c.toString⟩ rest → _ := scans_single hWord hDigit hBlank
    rw [hKind] at hSingle
    exact hSingle hEnds

/-! ## Scanning a text -/

/-- Where a comment may end, being in one makes no difference. -/
theorem skipGap_lineEnd {cs : List Char} (h : ∀ c ∈ cs.head?, isLineEnd c = true) :
    skipGap true cs = skipGap false cs := by
  cases cs with
  | nil => simp [skipGap]
  | cons c cs =>
    have hLine := h c rfl
    have hBlank : isBlank c = true := by
      simp only [isLineEnd, isBlank, Bool.or_eq_true, decide_eq_true_eq] at hLine ⊢
      rcases hLine with rfl | rfl <;> simp
    rw [skipGap, if_pos hLine, skipGap]
    · rw [if_pos hBlank]
    · rintro _ rfl
      cases hLine

/-- A gap is skipped as a whole. -/
theorem Gap.skipGap_append {gap rest : List Char} (h : Gap rest gap) :
    skipGap false (gap ++ rest) = skipGap false rest := by
  induction h with
  | nil => rfl
  | @blank c gap hBlank _ ih =>
    have hSkip : isBlank c = true := isBlank_iff.mpr hBlank
    rw [List.cons_append, skipGap, if_pos hSkip, ih]
    rintro _ rfl
    cases hSkip
  | @comment cs gap hComment hEnd _ ih =>
    obtain ⟨body, rfl, hBody⟩ := hComment
    rw [← ih, ← skipGap_lineEnd fun c hc => isLineEnd_iff.mpr (hEnd c hc), List.append_assoc,
      List.cons_append, List.cons_append, skipGap]
    clear hEnd ih
    induction body with
    | nil => rfl
    | cons c body ihBody =>
      have hOpen : isLineEnd c = false :=
        Bool.eq_false_iff.mpr (mt isLineEnd_iff.mp (hBody c List.mem_cons_self))
      rw [List.cons_append, skipGap, hOpen]
      exact ihBody fun d hd => hBody d (List.mem_cons_of_mem _ hd)

/-- There is one way to make a text of tokens and gaps. -/
theorem Lexed.eq_scan {ts : List Token} {text : List Char} (h : Lexed ts text) :
    ts = scan text := by
  induction h with
  | @nil gap h =>
    have hSkip := h.skipGap_append
    rw [List.append_nil] at hSkip
    exact (scan_of_gap hSkip).symm
  | @cons t ts gap rest hGap hBelongs hEnds _ ih =>
    obtain ⟨c, cs, hText, hStart, hMunch⟩ := hBelongs.scans hEnds
    have hSkip := hGap.skipGap_append
    rw [hText, hStart] at hSkip
    rw [hText, scan_of_next hSkip, hMunch, ih]

/-- A text has one decomposition into tokens and gaps, the one that scanning finds. -/
theorem lexed_iff {ts : List Token} {text : List Char} : Lexed ts text ↔ ts = scan text := by
  constructor
  · exact Lexed.eq_scan
  · obtain ⟨us, hMunched⟩ := exists_munched text
    rintro rfl
    rw [← hMunched.lexed.eq_scan]
    exact hMunched.lexed

/-- The longest pieces of a text are the tokens that scanning finds. -/
theorem munched_iff {ts : List Token} {text : List Char} : Munched text ts ↔ ts = scan text := by
  constructor
  · exact fun h => h.lexed.eq_scan
  · obtain ⟨us, hMunched⟩ := exists_munched text
    rintro rfl
    rwa [← hMunched.lexed.eq_scan]

/-- The tokens of a text have literals of the form of their kinds. -/
theorem Lexed.belongs {ts : List Token} {text : List Char} (h : Lexed ts text) :
    ∀ t ∈ ts, t.Belongs := by
  induction h with
  | nil => exact List.forall_mem_nil _
  | cons _ hBelongs _ _ ih => exact List.forall_mem_cons.mpr ⟨hBelongs, ih⟩

theorem kind_ne_endOfInput_of_mem_ofSource {source : String} :
    ∀ t ∈ ofSource source, t.kind ≠ .endOfInput := fun t ht =>
  ((lexed_iff.mpr rfl : Lexed (ofSource source) source.toList).belongs t ht).kind_ne_endOfInput

theorem Belongs.literal_ne_empty {t : Token} (h : t.Belongs) : t.literal ≠ "" := by
  intro hEmpty
  by_cases hKind : t.kind = .illegal
  · obtain ⟨k, literal⟩ := t
    obtain rfl : k = .illegal := hKind
    obtain ⟨c, hLiteral, -⟩ := h
    rw [hEmpty] at hLiteral
    cases hLiteral
  · have hForm : (Form.text t.kind).Matches t.literal.toList := h.matches hKind
    refine hForm.ne_nil ?_
    rw [hEmpty]
    rfl

/-- Reading a source text token by token yields the tokens that the longest matches lead to, and
then the end of input for ever. Together with gaps these tokens make up the whole text, and in
no other way. -/
theorem ofSource_lossless (source : String) :
    (∀ ts, Munched source.toList ts ↔ ts = ofSource source) ∧
    (∀ n, firstTokens n source.toList =
      (ofSource source ++ List.replicate n (⟨.endOfInput, ""⟩ : Token)).take n) ∧
    (∀ t ∈ ofSource source, t.kind ≠ .endOfInput ∧ t.literal ≠ "") ∧
    ∀ ts, Lexed ts source.toList ↔ ts = ofSource source := by
  have hLexed : Lexed (ofSource source) source.toList := lexed_iff.mpr rfl
  refine ⟨fun _ => munched_iff, fun n => firstTokens_eq n _, fun t ht => ?_, fun _ => lexed_iff⟩
  have hBelongs := hLexed.belongs t ht
  exact ⟨hBelongs.kind_ne_endOfInput, hBelongs.literal_ne_empty⟩

end MonkeyLang.Token
