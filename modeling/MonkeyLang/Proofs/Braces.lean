import MonkeyLang.Cursor.Recovery

/-!
# Balanced braces

* `Balanced` says of a list of tokens that its braces match, by counting them in its prefixes.
* `Closes` follows the list token by token with the number of braces that are open, which is
  how recovery counts them. `closes_iff` says what that amounts to for the prefixes.
* `nestingAlong` is the number that recovery arrives at. It passes over closing braces that have no
  partner.
* `HasClosing`, `HasOpening`, `AllClosed` : braces and their partners. `exists_closing` and
  `hasOpening_of_nestingAlong` find them from the number of open braces, and
  `exists_closing_or_guarded` bounds the closing braces of a text without a partner.
-/

namespace MonkeyLang

open Cursor

/-- The number of opening braces. -/
def opening (ts : List Token) : Nat :=
  ts.countP fun t => t.kind = .leftBrace

/-- The number of closing braces. -/
def closing (ts : List Token) : Nat :=
  ts.countP fun t => t.kind = .rightBrace

theorem opening_append (ts us : List Token) : opening (ts ++ us) = opening ts + opening us :=
  List.countP_append

theorem closing_append (ts us : List Token) : closing (ts ++ us) = closing ts + closing us :=
  List.countP_append

/-- No prefix has more closing than opening braces, and the whole list has as many of both. -/
def Balanced (ts : List Token) : Prop :=
  (∀ part, part <+: ts → closing part ≤ opening part) ∧ opening ts = closing ts

/-- Behind `depth` open braces the list closes all of them, all that it opens, and no more. -/
def Closes (depth : Nat) : List Token → Prop
  | [] => depth = 0
  | t :: ts => (t.kind = .rightBrace → 0 < depth) ∧ Closes (nestingAfter depth t.kind) ts

@[simp] theorem closes_nil {depth : Nat} : Closes depth [] ↔ depth = 0 := Iff.rfl

@[simp] theorem closes_cons {depth : Nat} {t : Token} {ts : List Token} :
    Closes depth (t :: ts) ↔
      (t.kind = .rightBrace → 0 < depth) ∧ Closes (nestingAfter depth t.kind) ts := Iff.rfl

/-- Tokens and the braces open after them keep pace. -/
theorem nestingAfter_add_closing {depth : Nat} {t : Token} (part : List Token)
    (h : t.kind = .rightBrace → 0 < depth) :
    nestingAfter depth t.kind + opening part + closing (t :: part) =
      depth + opening (t :: part) + closing part := by
  by_cases hOpen : t.kind = .leftBrace
  · simp [opening, closing, nestingAfter, hOpen]
    omega
  by_cases hClose : t.kind = .rightBrace
  · have hDepth := h hClose
    simp [opening, closing, nestingAfter, hClose]
    omega
  · simp [opening, closing, nestingAfter_of_ne depth hOpen hClose, hOpen, hClose]

/-- What `Closes` says token by token, told by the numbers of braces in the prefixes. -/
theorem closes_iff {depth : Nat} {ts : List Token} :
    Closes depth ts ↔
      (∀ part, part <+: ts → closing part ≤ depth + opening part) ∧
        depth + opening ts = closing ts := by
  induction ts generalizing depth with
  | nil =>
    constructor
    · rintro rfl
      refine ⟨?_, rfl⟩
      intro part hPart
      rw [List.prefix_nil.mp hPart]
      exact Nat.zero_le _
    · rintro ⟨-, hTotal⟩
      exact hTotal
  | cons t ts ih =>
    constructor
    · rintro ⟨hHead, hTail⟩
      obtain ⟨hParts, hTotal⟩ := ih.mp hTail
      refine ⟨?_, ?_⟩
      · intro part hPart
        rcases List.prefix_cons_iff.mp hPart with rfl | ⟨rest, rfl, hRest⟩
        · exact Nat.zero_le _
        · have hPace := nestingAfter_add_closing rest hHead
          have hLe := hParts rest hRest
          omega
      · have hPace := nestingAfter_add_closing ts hHead
        omega
    · rintro ⟨hParts, hTotal⟩
      have hHead : t.kind = .rightBrace → 0 < depth := by
        intro hKind
        have hLe := hParts [t] (List.prefix_cons_iff.mpr (.inr ⟨[], rfl, List.nil_prefix⟩))
        simp [opening, closing, hKind] at hLe
        exact hLe
      refine ⟨hHead, ih.mpr ⟨?_, ?_⟩⟩
      · intro part hPart
        have hPace := nestingAfter_add_closing part hHead
        have hLe := hParts (t :: part) (List.prefix_cons_iff.mpr (.inr ⟨part, rfl, hPart⟩))
        omega
      · have hPace := nestingAfter_add_closing ts hHead
        omega

/-- A list is balanced if it closes what it opens and nothing else. -/
theorem closes_zero_iff_balanced {ts : List Token} : Closes 0 ts ↔ Balanced ts := by
  rw [closes_iff]
  simp only [Nat.zero_add]
  rfl

/-! ## The number of open braces -/

/-- The number of braces that are open after passing the tokens. -/
def nestingAlong (nesting : Nat) (ts : List Token) : Nat :=
  ts.foldl (fun n t => nestingAfter n t.kind) nesting

@[simp] theorem nestingAlong_nil (nesting : Nat) : nestingAlong nesting [] = nesting := rfl

@[simp] theorem nestingAlong_cons (nesting : Nat) (t : Token) (ts : List Token) :
    nestingAlong nesting (t :: ts) = nestingAlong (nestingAfter nesting t.kind) ts := rfl

theorem nestingAlong_append (nesting : Nat) (ts us : List Token) :
    nestingAlong nesting (ts ++ us) = nestingAlong (nestingAlong nesting ts) us :=
  List.foldl_append

theorem Closes.nestingAlong_eq_zero {depth : Nat} {ts : List Token} (h : Closes depth ts) :
    nestingAlong depth ts = 0 := by
  induction ts generalizing depth with
  | nil => exact h
  | cons t ts ih => exact ih h.2

/-- Tokens that close all braces that were open before, but would not close one more, close just
these. -/
theorem closes_of_nestingAlong {depth : Nat} {ts : List Token} (hClosed : nestingAlong depth ts = 0)
    (hOpen : 0 < nestingAlong (depth + 1) ts) : Closes depth ts := by
  induction ts generalizing depth with
  | nil => exact hClosed
  | cons t ts ih =>
    rw [nestingAlong_cons] at hClosed hOpen
    have hGuard : t.kind = .rightBrace → 0 < depth := by
      intro hKind
      refine Nat.pos_of_ne_zero ?_
      rintro rfl
      -- At the bottom a closing brace would take the further brace away.
      rw [hKind] at hClosed hOpen
      have hSame : nestingAfter (0 + 1) .rightBrace = nestingAfter 0 .rightBrace := rfl
      rw [hSame, hClosed] at hOpen
      exact Nat.lt_irrefl 0 hOpen
    refine ⟨hGuard, ih hClosed ?_⟩
    rw [Nat.add_comm, nestingAfter_add fun hKind => .inl (hGuard hKind), Nat.add_comm] at hOpen
    exact hOpen

/-! ## Partners -/

/-- A brace that is opened right before the tokens is closed among them. -/
def HasClosing (ts : List Token) : Prop :=
  ∃ inner closed rest, ts = inner ++ closed :: rest ∧ closed.kind = .rightBrace ∧ Balanced inner

/-- A brace that is closed right behind the tokens is opened among them. -/
def HasOpening (ts : List Token) : Prop :=
  ∃ front opened inner, ts = front ++ opened :: inner ∧ opened.kind = .leftBrace ∧ Balanced inner

/-- All braces that are opened among the tokens are closed among them. -/
def AllClosed (ts : List Token) : Prop :=
  ∀ front opened back, ts = front ++ opened :: back → opened.kind = .leftBrace → HasClosing back

/-- Where no more than `depth` braces are left open, a brace that was opened before `inner` others
has its partner behind the text that closes these. -/
theorem exists_closing {depth inner : Nat} {ts : List Token}
    (h : nestingAlong (inner + 1 + depth) ts ≤ depth) :
    ∃ body closed rest, ts = body ++ closed :: rest ∧ closed.kind = .rightBrace ∧
      Closes inner body := by
  induction ts generalizing inner with
  | nil =>
    rw [nestingAlong_nil] at h
    omega
  | cons t ts ih =>
    -- The token is the partner, or the partner of the same brace stands behind it.
    by_cases hPartner : t.kind = .rightBrace ∧ inner = 0
    · obtain ⟨hClose, rfl⟩ := hPartner
      exact ⟨[], t, ts, rfl, hClose, rfl⟩
    · have hInner : t.kind = .rightBrace → 0 < inner := fun hClose =>
        Nat.pos_of_ne_zero fun hZero => hPartner ⟨hClose, hZero⟩
      have hNesting : nestingAfter (inner + 1 + depth) t.kind =
          nestingAfter inner t.kind + 1 + depth := by
        have hAdd : nestingAfter (1 + depth + inner) t.kind =
            1 + depth + nestingAfter inner t.kind :=
          nestingAfter_add fun hClose => .inl (hInner hClose)
        rw [show inner + 1 + depth = 1 + depth + inner by omega, hAdd]
        omega
      rw [nestingAlong_cons, hNesting] at h
      obtain ⟨body, closed, rest, rfl, hClose, hBody⟩ := ih h
      exact ⟨t :: body, closed, rest, rfl, hClose, ⟨hInner, hBody⟩⟩

/-- A brace that was opened before `depth` others has a partner among the tokens, or they close no
more braces than these `depth` and those that they open. -/
theorem exists_closing_or_guarded (depth : Nat) (ts : List Token) :
    (∃ body closed rest, ts = body ++ closed :: rest ∧ closed.kind = .rightBrace ∧
      Closes depth body) ∨ ∀ part, part <+: ts → closing part ≤ depth + opening part := by
  induction ts generalizing depth with
  | nil =>
    refine .inr fun part hPart => ?_
    rw [List.prefix_nil.mp hPart]
    exact Nat.zero_le _
  | cons t ts ih =>
    by_cases hPartner : t.kind = .rightBrace ∧ depth = 0
    · obtain ⟨hClose, rfl⟩ := hPartner
      exact .inl ⟨[], t, ts, rfl, hClose, rfl⟩
    · have hGuard : t.kind = .rightBrace → 0 < depth := fun hClose =>
        Nat.pos_of_ne_zero fun hZero => hPartner ⟨hClose, hZero⟩
      rcases ih (nestingAfter depth t.kind) with ⟨body, closed, rest, rfl, hClose, hBody⟩ | hParts
      · exact .inl ⟨t :: body, closed, rest, rfl, hClose, ⟨hGuard, hBody⟩⟩
      · refine .inr fun part hPart => ?_
        rcases List.prefix_cons_iff.mp hPart with rfl | ⟨rest, rfl, hRest⟩
        · exact Nat.zero_le _
        · have hPace := nestingAfter_add_closing rest hGuard
          have hLe := hParts rest hRest
          omega

/-- If no brace is open behind the tokens, then every one of them that opens has a partner. -/
theorem allClosed_of_nestingAlong {ts : List Token} (h : nestingAlong 0 ts = 0) : AllClosed ts := by
  rintro front opened back rfl hOpen
  rw [nestingAlong_append, nestingAlong_cons, hOpen] at h
  have hBefore : nestingAlong (0 + 1 + nestingAlong 0 front) back ≤ nestingAlong 0 front := by
    rw [Nat.zero_add, Nat.add_comm]
    exact Nat.le_trans (Nat.le_of_eq h) (Nat.zero_le _)
  obtain ⟨inner, closed, rest, rfl, hClose, hInner⟩ := exists_closing hBefore
  exact ⟨inner, closed, rest, rfl, hClose, closes_zero_iff_balanced.mp hInner⟩

/-- An opening brace of a balanced list has a partner, and what stands between is balanced. -/
theorem Balanced.exists_partner {front ts : List Token} {opened : Token}
    (h : Balanced (front ++ opened :: ts)) (hOpen : opened.kind = .leftBrace) :
    ∃ body closed rest, ts = body ++ closed :: rest ∧ closed.kind = .rightBrace ∧
      Balanced body :=
  allClosed_of_nestingAlong (closes_zero_iff_balanced.mpr h).nestingAlong_eq_zero front opened ts
    rfl hOpen

/-- Where a brace is open, the brace that is closed next is the last of the open ones. -/
theorem hasOpening_of_nestingAlong {ts : List Token} (h : 0 < nestingAlong 0 ts) :
    HasOpening ts := by
  induction ts with
  | nil => exact absurd h (Nat.lt_irrefl 0)
  | cons t ts ih =>
    -- The last open brace stands among the later tokens if they leave one open by themselves.
    by_cases hTail : 0 < nestingAlong 0 ts
    · obtain ⟨front, opened, inner, rfl, hOpen, hInner⟩ := ih hTail
      exact ⟨t :: front, opened, inner, rfl, hOpen, hInner⟩
    · have hZero : nestingAlong 0 ts = 0 := Nat.eq_zero_of_not_pos hTail
      have hOpen : t.kind = .leftBrace := by
        refine Decidable.byContradiction fun hOther => hTail ?_
        have hNesting : nestingAfter 0 t.kind = 0 := by
          unfold nestingAfter
          split
          · exact absurd ‹_› hOther
          · rfl
          · rfl
        rwa [nestingAlong_cons, hNesting] at h
      rw [nestingAlong_cons, hOpen] at h
      exact ⟨[], t, ts, rfl, hOpen, closes_zero_iff_balanced.mp (closes_of_nestingAlong hZero h)⟩

end MonkeyLang
