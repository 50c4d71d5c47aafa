import MonkeyLang.Proofs.Lexing.Decomposition

/-!
# Tokens written with few spaces

The texts of tokens can be written one after another, with a space only where two of them would
run together. `NeedsSpace` lists these cases; it says nothing of how a text is scanned, but it
turns out to hold exactly of the pairs in which the first character of the second token extends
the first one.

* `needsSpace_iff` : where a space is needed.
* `lexed_spaced` : a list of tokens written with the spaces that are needed.
* `throughEnd_spaced` : scanning such a text yields the tokens, and without a space where one is
  needed it would not.
-/

namespace MonkeyLang.Token

variable {t u : Token} {ts : List Token}

/-! ## Where a space is needed -/

/-- Two tokens that cannot be written without a space between them: a word in front of a letter,
a digit or an underscore, two numbers, `=` or `!` in front of `=`, and two slashes. -/
def NeedsSpace (t u : Token) : Prop :=
  (t.kind = .identifier ∨ t.kind.isKeyword = true) ∧
      u.literal.toList.head?.any (WordPart ·) = true ∨
  t.kind = .integer ∧ u.kind = .integer ∨
  (t.kind = .assign ∨ t.kind = .bang) ∧ u.literal.toList.head? = some '=' ∨
  t.kind = .slash ∧ u.kind = .slash

instance (t u : Token) : Decidable (NeedsSpace t u) :=
  inferInstanceAs (Decidable (_ ∧ _ ∨ _ ∧ _ ∨ _ ∧ _ ∨ _ ∧ _))

/-- A token is what is scanned from its own text. -/
theorem Belongs.exists_munch (h : t.Belongs) :
    ∃ c cs, t.literal.toList = c :: cs ∧ munch c cs = (t, []) := by
  have hEnds : t.Ends [] := fun _ hHead => nomatch hHead
  obtain ⟨c, cs, hText, -, hMunch⟩ := h.scans hEnds
  rw [List.append_nil] at hText
  exact ⟨c, cs, hText, hMunch⟩

theorem Belongs.kind_eq_integer_iff (h : t.Belongs) :
    t.kind = .integer ↔ ∃ c ∈ t.literal.toList.head?, c.isDigit = true := by
  obtain ⟨c, cs, hText, hMunch⟩ := h.exists_munch
  rw [hText]
  constructor
  · intro hKind
    have hNumber : IsNumber t.literal.toList := by
      have hMatches := h.matches (by rw [hKind]; decide)
      rwa [hKind] at hMatches
    rw [hText] at hNumber
    exact ⟨c, rfl, hNumber.2 c List.mem_cons_self⟩
  · rintro ⟨_, ⟨⟩, hDigit⟩
    rw [munch, if_neg (by rw [isWordStart_eq_false_of_isDigit hDigit]; decide), if_pos hDigit]
      at hMunch
    exact congrArg (fun read => read.1.kind) hMunch.symm

theorem Belongs.kind_eq_slash_iff (h : t.Belongs) :
    t.kind = .slash ↔ t.literal.toList.head? = some '/' := by
  obtain ⟨c, cs, hText, hMunch⟩ := h.exists_munch
  constructor
  · intro hKind
    have hSpelling : Kind.slash.spelling? = some (String.ofList t.literal.toList) := by
      have hMatches := h.matches (by rw [hKind]; decide)
      rwa [hKind] at hMatches
    rw [toList_of_spelling (Option.some.inj hSpelling)]
    rfl
  · intro hHead
    rw [hText] at hHead
    obtain rfl : c = '/' := Option.some.inj hHead
    have hSymbol : munch '/' cs = (⟨.slash, "/"⟩, cs) := by
      rw [munch_symbol rfl rfl, symbol]
      · rfl
      · rintro _ ⟨⟩
      · rintro _ ⟨⟩
    rw [hMunch] at hSymbol
    exact congrArg (fun read => read.1.kind) hSymbol

/-- A space is needed where the second token starts with a character that extends the first
one. -/
theorem needsSpace_iff (ht : t.Belongs) (hu : u.Belongs) :
    NeedsSpace t u ↔ ∃ c ∈ u.literal.toList.head?, t.kind.extendedBy c = true := by
  obtain ⟨c, cs, hText, -⟩ := hu.exists_munch
  have hInteger := hu.kind_eq_integer_iff
  have hSlash := hu.kind_eq_slash_iff
  obtain ⟨k, literal⟩ := t
  unfold NeedsSpace
  rw [hText] at hInteger hSlash ⊢
  cases k with
  | endOfInput | comment => cases ht
  | _ => simp_all [Kind.extendedBy, Kind.isKeyword]

/-! ## Writing with spaces -/

/-- The texts of tokens one after another, with a space between two of them where it is needed. -/
def spaced : List Token → String
  | [] => ""
  | [t] => t.literal
  | t :: u :: ts =>
    if NeedsSpace t u then t.literal ++ " " ++ spaced (u :: ts) else t.literal ++ spaced (u :: ts)

theorem Belongs.extendedBy_space (h : t.Belongs) : t.kind.extendedBy ' ' = false := by
  obtain ⟨k, literal⟩ := t
  cases k with
  | endOfInput | comment => cases h
  | _ => rfl

/-- A text starts with the first character of its first token. -/
theorem head?_spaced_cons (hu : u.Belongs) (ts : List Token) :
    (spaced (u :: ts)).toList.head? = u.literal.toList.head? := by
  obtain ⟨c, cs, hText, -⟩ := hu.exists_munch
  cases ts with
  | nil => rfl
  | cons v ts =>
    rw [spaced]
    split <;> simp [hText]

/-- With blanks where they are needed, the tokens are those of the text that they make. -/
theorem lexed_spaced (h : ∀ t ∈ ts, t.Belongs) : Lexed ts (spaced ts).toList := by
  fun_induction spaced ts with
  | case1 => exact .nil .nil
  | case2 t =>
    have hLexed : Lexed [t] (t.literal.toList ++ []) :=
      Lexed.token (.nil .nil) (h t List.mem_cons_self) fun _ hHead => nomatch hHead
    rwa [List.append_nil] at hLexed
  | case3 t u ts hSpace ih =>
    obtain ⟨ht, hTail⟩ := List.forall_mem_cons.mp h
    have hEnds : t.Ends ([' '] ++ (spaced (u :: ts)).toList) := by
      rintro _ ⟨⟩
      exact ht.extendedBy_space
    simpa using (ih hTail).space.token ht hEnds
  | case4 t u ts hSpace ih =>
    obtain ⟨ht, hTail⟩ := List.forall_mem_cons.mp h
    have hu := hTail u List.mem_cons_self
    have hEnds : t.Ends (spaced (u :: ts)).toList := by
      intro c hc
      rw [head?_spaced_cons hu] at hc
      rw [Bool.eq_false_iff]
      exact fun hExtended => hSpace ((needsSpace_iff ht hu).mpr ⟨c, hc, hExtended⟩)
    simpa using (ih hTail).token ht hEnds

/-! ## Writing without a space -/

/-- The first token of a text stands behind a gap and ends where it would end by itself. -/
theorem Lexed.exists_of_cons {text : List Char} (h : Lexed (t :: ts) text) :
    ∃ gap rest, text = gap ++ (t.literal.toList ++ rest) ∧ t.Ends rest ∧ Lexed ts rest := by
  cases h with
  | cons _ _ hEnds tail => exact ⟨_, _, rfl, hEnds, tail⟩

/-- If the texts of two tokens put together are these two tokens, there is no gap between them. -/
theorem ends_of_lexed (h : Lexed [t, u] (t.literal.toList ++ u.literal.toList)) :
    t.Ends u.literal.toList := by
  obtain ⟨gap, rest, hText, hEnds, hLexed⟩ := h.exists_of_cons
  obtain ⟨gap', rest', rfl, -, -⟩ := hLexed.exists_of_cons
  have hLength := congrArg List.length hText
  simp only [List.length_append] at hLength
  obtain rfl : gap' = [] := List.length_eq_zero_iff.mp (by omega)
  obtain rfl : rest' = [] := List.length_eq_zero_iff.mp (by omega)
  rwa [List.nil_append, List.append_nil] at hEnds

/-- Two tokens that need a blank between them are not read as these two without it. -/
theorem ofSource_append_ne (ht : t.Belongs) (hu : u.Belongs) (h : NeedsSpace t u) :
    ofSource (t.literal ++ u.literal) ≠ [t, u] := by
  intro hScan
  obtain ⟨c, hc, hExtended⟩ := (needsSpace_iff ht hu).mp h
  have hLexed : Lexed [t, u] (t.literal ++ u.literal).toList := lexed_iff.mpr hScan.symm
  rw [String.toList_append] at hLexed
  have hNotExtended := ends_of_lexed hLexed c hc
  rw [hExtended] at hNotExtended
  cases hNotExtended

/-- Tokens written with the spaces that are needed are read back, followed by the end of input.
Two tokens that need a space are not read back if it is left out. -/
theorem throughEnd_spaced (h : ∀ t ∈ ts, t.Belongs) :
    (∀ extra, throughEnd (spaced ts).toList extra = ts ++ List.replicate (1 + extra) finish) ∧
    ∀ t ∈ ts, ∀ u ∈ ts, NeedsSpace t u → ofSource (t.literal ++ u.literal) ≠ [t, u] := by
  refine ⟨fun extra => ?_, fun t ht u hu => ofSource_append_ne (h t ht) (h u hu)⟩
  rw [throughEnd_eq, ← (lexed_spaced h).eq_scan]

/-- Of the seventeen pairs of neighbours three need a space. -/
theorem throughEnd_spaced_dense :
    let ts : List Token := [⟨.integer, "5"⟩, ⟨.letWord, "let"⟩, ⟨.assign, "="⟩, ⟨.equal, "=="⟩,
      ⟨.assign, "="⟩, ⟨.bang, "!"⟩, ⟨.notEqual, "!="⟩, ⟨.less, "<"⟩, ⟨.assign, "="⟩, ⟨.slash, "/"⟩,
      ⟨.asterisk, "*"⟩, ⟨.slash, "/"⟩, ⟨.slash, "/"⟩, ⟨.integer, "04"⟩, ⟨.integer, "7"⟩,
      ⟨.identifier, "iffy"⟩, ⟨.illegal, "é"⟩, ⟨.identifier, "_1"⟩]
    (∀ t ∈ ts, t.Belongs) ∧ spaced ts = "5let= ===!!=<=/*/ /04 7iffyé_1" ∧
      throughEnd (spaced ts).toList 1 = ts ++ [finish, finish] ∧
      ofSource ("/" ++ "/") ≠ [⟨.slash, "/"⟩, ⟨.slash, "/"⟩] := by
  intro ts
  have hScan : ts = scan "5let= ===!!=<=/*/ /04 7iffyé_1".toList := by decide +kernel
  have hBelongs : ∀ t ∈ ts, t.Belongs := (lexed_iff.mpr hScan).belongs
  have hSlash : (⟨.slash, "/"⟩ : Token) ∈ ts := by decide
  obtain ⟨hRead, hGlued⟩ := throughEnd_spaced hBelongs
  exact ⟨hBelongs, by decide +kernel, hRead 1, hGlued _ hSlash _ hSlash (by decide)⟩

end MonkeyLang.Token
