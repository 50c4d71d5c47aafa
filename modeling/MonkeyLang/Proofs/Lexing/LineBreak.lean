import MonkeyLang.Proofs.Lexing.Decomposition

/-!
# Line breaks between tokens

No token and no comment goes on past the end of a line. Where a line ends a text falls into two
parts that have their tokens each for itself. No other character separates all texts, as it may
stand in a comment.

* `Lexed.append_lineEnd` : two texts in a row, with the end of a line between them.
* `scan_append_lineEnd` : their tokens.
* `scan_separated_iff` : the characters that separate all texts.
* `throughEnd_lineBreak` : reading two texts token by token.
-/

namespace MonkeyLang.Token

variable {c : Char}

theorem LineEnd.blank (h : LineEnd c) : Blank c := by
  rcases h with rfl | rfl
  · exact .inr (.inr (.inl rfl))
  · exact .inr (.inr (.inr (.inl rfl)))

/-- No kind of token can be made longer by the end of a line. -/
theorem Kind.extendedBy_lineEnd (k : Kind) (h : LineEnd c) : k.extendedBy c = false := by
  rcases h with rfl | rfl <;> cases k <;> rfl

theorem head?_append_lineEnd {P : Char → Prop} {cs : List Char} (hHead : ∀ d ∈ cs.head?, P d)
    (hEnd : P c) (ds : List Char) : ∀ d ∈ (cs ++ c :: ds).head?, P d := by
  cases cs with
  | nil =>
    rintro _ ⟨⟩
    exact hEnd
  | cons e cs => exact hHead

/-- The last gap of a text and the first gap of another one are one gap. -/
theorem Gap.append_lineEnd {gap gap' rest : List Char} (h : Gap [] gap) (hLine : LineEnd c)
    (h' : Gap rest gap') : Gap rest (gap ++ c :: gap') := by
  induction h with
  | nil => exact .blank hLine.blank h'
  | blank hBlank _ ih => exact .blank hBlank ih
  | @comment cs gap hComment hEnd _ ih =>
    rw [List.append_assoc]
    refine .comment hComment ?_ ih
    rw [List.append_assoc, List.cons_append]
    rw [List.append_nil] at hEnd
    exact head?_append_lineEnd hEnd hLine _

/-- A gap in front of a token is one whatever comes behind the token. -/
theorem Gap.append_rest {gap rest : List Char} (h : Gap rest gap) (hRest : rest ≠ [])
    (more : List Char) : Gap (rest ++ more) gap := by
  induction h with
  | nil => exact .nil
  | blank hBlank _ ih => exact .blank hBlank ih
  | @comment cs gap hComment hEnd _ ih =>
    have hNil : gap ++ rest ≠ [] := List.append_ne_nil_of_right_ne_nil gap hRest
    obtain ⟨d, ds, hCons⟩ := List.exists_cons_of_ne_nil hNil
    rw [hCons] at hEnd
    refine .comment hComment ?_ ih
    rw [← List.append_assoc, hCons]
    exact hEnd

/-- The tokens of two texts with the end of a line between them are those of the first one and those
of the second. -/
theorem Lexed.append_lineEnd {ts us : List Token} {text text' : List Char} (h : Lexed ts text)
    (hLine : LineEnd c) (h' : Lexed us text') : Lexed (ts ++ us) (text ++ c :: text') := by
  induction h with
  | @nil gap hGap =>
    have hSkip : Lexed us ((gap ++ [c]) ++ text') := h'.skip fun gap' rest _ hGap' => by
      rw [← List.append_cons]
      exact hGap.append_lineEnd hLine hGap'
    rwa [← List.append_cons] at hSkip
  | @cons t ts gap rest hGap hBelongs hEnds _ ih =>
    have hLiteral : t.literal.toList ++ rest ≠ [] := by
      simp [hBelongs.literal_ne_empty]
    have hGap' := hGap.append_rest hLiteral (c :: text')
    rw [List.append_assoc] at hGap'
    rw [List.append_assoc, List.append_assoc]
    exact .cons hGap' hBelongs
      (head?_append_lineEnd (P := fun d => t.kind.extendedBy d = false) hEnds
        (t.kind.extendedBy_lineEnd hLine) text') ih

/-- The tokens of two texts with the end of a line between them are those of the first one and
then those of the second one. -/
theorem scan_append_lineEnd (hLine : LineEnd c) (cs ds : List Char) :
    scan (cs ++ c :: ds) = scan cs ++ scan ds :=
  ((lexed_iff.mpr rfl).append_lineEnd hLine (lexed_iff.mpr rfl)).eq_scan.symm

/-! ## What separates all texts -/

/-- Behind two slashes there are no tokens up to the end of the line. -/
theorem scan_comment {body : List Char} (h : ∀ d ∈ body, ¬ LineEnd d) :
    scan ('/' :: '/' :: body) = [] := by
  have hGap : Gap [] ('/' :: '/' :: body ++ []) := .comment ⟨body, rfl, h⟩ nofun .nil
  rw [List.append_nil] at hGap
  exact (Lexed.nil hGap).eq_scan.symm

/-- The characters that separate any two texts are the ends of lines: all others may stand in a
comment. -/
theorem scan_separated_iff :
    (∀ cs ds, scan (cs ++ c :: ds) = scan cs ++ scan ds) ↔ LineEnd c := by
  constructor
  · intro hSeparates
    by_contra hLine
    have hBody : ∀ d ∈ [c, 'x'], ¬ LineEnd d :=
      List.forall_mem_cons.mpr ⟨hLine, List.forall_mem_singleton.mpr (by decide)⟩
    have hHidden : scan ['/', '/', c, 'x'] = [] := scan_comment hBody
    have hSeen : scan ['/', '/'] ++ scan ['x'] ≠ [] := by decide +kernel
    exact hSeen ((hSeparates ['/', '/'] ['x']).symm.trans hHidden)
  · exact scan_append_lineEnd

/-- The tokens up to the end of input, without it. -/
theorem dropLast_throughEnd (cs : List Char) : (throughEnd cs 0).dropLast = scan cs := by
  rw [throughEnd_eq]
  exact List.dropLast_concat

/-- What is read of two texts with the end of a line between them are the tokens of the first one,
without its end of input, and then those of the second one. The rule of the longest match takes
the whole text apart in the same way as the two texts. -/
theorem throughEnd_lineBreak (h : c = '\n' ∨ c = '\r') (a b : String) :
    (∀ extra, throughEnd (a ++ c.toString ++ b).toList extra =
      (throughEnd a.toList 0).dropLast ++ throughEnd b.toList extra) ∧
    ∀ us vs, Munched a.toList us → Munched b.toList vs →
      Munched (a ++ c.toString ++ b).toList (us ++ vs) := by
  have hText : (a ++ c.toString ++ b).toList = a.toList ++ c :: b.toList := by simp
  have hScan := scan_append_lineEnd h a.toList b.toList
  constructor
  · intro extra
    calc throughEnd (a ++ c.toString ++ b).toList extra
        = scan (a.toList ++ c :: b.toList) ++ List.replicate (1 + extra) finish := by
          rw [hText, throughEnd_eq]
      _ = scan a.toList ++ (scan b.toList ++ List.replicate (1 + extra) finish) := by
          rw [hScan, List.append_assoc]
      _ = _ := by rw [dropLast_throughEnd, throughEnd_eq]
  · intro us vs hFront hBehind
    rw [hText, munched_iff, hScan, ← munched_iff.mp hFront, ← munched_iff.mp hBehind]

/-- A mark that could be extended and a word that could go on, on both sides of the end of a line,
and a comment that ends there. -/
theorem throughEnd_lineBreak_extendable :
    throughEnd "a =\r= b".toList 0 =
        [⟨.identifier, "a"⟩, ⟨.assign, "="⟩, ⟨.assign, "="⟩, ⟨.identifier, "b"⟩, finish] ∧
      throughEnd "1 // let\nter".toList 0 = [⟨.integer, "1"⟩, ⟨.identifier, "ter"⟩, finish] ∧
      Munched "1 // let\nter".toList [⟨.integer, "1"⟩, ⟨.identifier, "ter"⟩] := by
  have hMark := (throughEnd_lineBreak (.inr rfl) "a =" "= b").1 0
  have hComment := throughEnd_lineBreak (.inl rfl) "1 // let" "ter"
  have hNumber : Munched "1 // let".toList [⟨.integer, "1"⟩] := munched_iff.mpr (by decide +kernel)
  have hWord : Munched "ter".toList [⟨.identifier, "ter"⟩] := munched_iff.mpr (by decide +kernel)
  exact ⟨hMark.trans (by decide +kernel), (hComment.1 0).trans (by decide +kernel),
    hComment.2 _ _ hNumber hWord⟩

end MonkeyLang.Token
