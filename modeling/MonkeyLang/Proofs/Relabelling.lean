import MonkeyLang.Proofs.Reading.Recovery

/-!
# Tokens with other texts

Apart from numbers the text of a token does not decide anything; it only ends up in the tree. A
list of tokens is relabelled by changing all texts but those of numbers, in whatever way. To say
what becomes of the tree, trees are read that remember where each of their expression statements
starts: they can be spelled out for every relabelling, and where a statement starts with a number
its literal stays as it is.

* `Token.relabel`, `Cursor.relabel` : tokens with other texts, and how a cursor moves on them.
* `TracedStatement.spell` : the tree that a traced tree stands for under a relabelling.
* `TracedStatement.SourcedIn` : the starts that it remembers are the actual ones.
* `Uniform` : attempts, one for each relabelling, that are one and the same but for the texts,
  with one rule for each way to build an attempt.
-/

namespace MonkeyLang

open Cursor

/-! ## Relabelling -/

/-- The token with another text, unless it is a number. -/
def Token.relabel (f : String → String) (t : Token) : Token :=
  if t.kind = .integer then t else ⟨t.kind, f t.literal⟩

theorem Token.relabel_of_ne {t : Token} (h : t.kind ≠ .integer) (f : String → String) :
    t.relabel f = ⟨t.kind, f t.literal⟩ :=
  if_neg h

theorem Token.relabel_of_integer {t : Token} (h : t.kind = .integer) (f : String → String) :
    t.relabel f = t :=
  if_pos h

@[simp] theorem Token.kind_relabel (f : String → String) (t : Token) :
    (t.relabel f).kind = t.kind := by
  unfold relabel
  split
  · rfl
  · rfl

@[simp] theorem Token.relabel_id (t : Token) : t.relabel id = t :=
  ite_self t

namespace Cursor

/-- The cursor at the same place among tokens with other texts. -/
def relabel (f : String → String) (c : Cursor) : Cursor :=
  { c with tokens := c.tokens.map (Token.relabel f) }

variable {f : String → String} {c : Cursor}

theorem relabel_id (c : Cursor) : c.relabel id = c := by
  simp [relabel, funext Token.relabel_id]

theorem advance_relabel (f : String → String) (c : Cursor) :
    (c.relabel f).advance = c.advance.relabel f := by
  simp [relabel, advance]

theorem enterBlock_relabel (f : String → String) (c : Cursor) :
    (c.relabel f).enterBlock = c.enterBlock.relabel f := by
  simp [relabel, enterBlock, advance]

@[simp] theorem kind_current_relabel (f : String → String) (c : Cursor) :
    (c.relabel f).current.kind = c.current.kind := by
  obtain ⟨_ | ⟨t, ts⟩, p, d, l⟩ := c
  · rfl
  · exact t.kind_relabel f

@[simp] theorem kind_upcoming_relabel (f : String → String) (c : Cursor) :
    (c.relabel f).upcoming.kind = c.upcoming.kind := by
  rw [← current_advance, advance_relabel, kind_current_relabel, current_advance]

/-- The end of input behind the last token keeps its text. -/
theorem current_relabel (h : c.current.kind ≠ .endOfInput) :
    (c.relabel f).current = c.current.relabel f := by
  obtain ⟨_ | ⟨t, ts⟩, p, d, l⟩ := c
  · exact absurd rfl h
  · rfl

theorem atOwnBrace_relabel (f : String → String) (c : Cursor) :
    (c.relabel f).atOwnBrace = c.atOwnBrace := by
  rw [atOwnBrace, kind_current_relabel]
  rfl

/-- Skipping does not look at literals. -/
theorem skipStatement_relabel (f : String → String) (nesting : Nat) (c : Cursor) :
    (skipStatement nesting (c.relabel f)).value = (skipStatement nesting c).value ∧
      (skipStatement nesting (c.relabel f)).cursor =
        (skipStatement nesting c).cursor.relabel f := by
  have hKind := kind_current_relabel f c
  have hBrace := atOwnBrace_relabel f c
  have hNext := kind_upcoming_relabel f c
  fun_induction skipStatement nesting c with
  | case1 nesting c hEnd =>
    rw [skipStatement_of_end (hKind.trans hEnd)]
    exact ⟨rfl, rfl⟩
  | case2 nesting c hEnd hOwn =>
    obtain ⟨rfl, hOwn⟩ := hOwn
    rw [skipStatement_of_atOwnBrace (hBrace.trans hOwn)]
    exact ⟨rfl, rfl⟩
  | case3 nesting c hEnd hOwn hSemicolon =>
    obtain ⟨rfl, hSemicolon⟩ := hSemicolon
    rw [skipStatement_of_semicolon (hKind.trans hSemicolon)]
    exact ⟨rfl, rfl⟩
  | case4 nesting c hEnd hOwn hSemicolon nesting' hStop =>
    rw [skipStatement_of_stop (by rwa [hKind]) (by rwa [hBrace]) (by rwa [hKind])
      (by rw [hKind, hNext]; exact hStop)]
    exact ⟨rfl, rfl⟩
  | case5 nesting c hEnd hOwn hSemicolon nesting' hStop ih =>
    rw [skipStatement_of_not_stop (by rwa [hKind]) (by rwa [hBrace]) (by rwa [hKind])
      (by rw [hKind, hNext]; exact hStop)]
    rw [hKind, Step.value_advancing, Step.cursor_advancing, advance_relabel]
    exact ih (kind_current_relabel f _) (atOwnBrace_relabel f _) (kind_upcoming_relabel f _)

/-- Recovery does not look at literals. -/
theorem recover_relabel (f : String → String) (c : Cursor) :
    (c.relabel f).recover.value = c.recover.value ∧
      (c.relabel f).recover.cursor = c.recover.cursor.relabel f :=
  skipStatement_relabel f 0 c

end Cursor

/-! ## Trees that remember where statements start -/

mutual

/-- An expression, with the places where the expression statements in it start. -/
inductive TracedExpr
  | identifier (name : String)
  | integer (value : Integer)
  | boolean (value : Bool)
  | unary (operator : UnaryOperator) (right : TracedExpr)
  | binary (operator : BinaryOperator) (left right : TracedExpr)
  | conditional (test : TracedExpr) (consequence : List TracedStatement)
      (alternative : Option (List TracedStatement))

/-- A statement. Instead of the literal of an expression statement there is the cursor that
stands on its first token. -/
inductive TracedStatement
  | binding (name : String) (value : TracedExpr)
  | returning (value : TracedExpr)
  | expression (start : Cursor) (value : TracedExpr)

end

mutual

/-- The expression under a relabelling: all names are changed. -/
def TracedExpr.spell (f : String → String) : TracedExpr → Expr
  | .identifier name => .identifier (f name)
  | .integer value => .integer value
  | .boolean value => .boolean value
  | .unary op right => .unary op (right.spell f)
  | .binary op left right => .binary op (left.spell f) (right.spell f)
  | .conditional test consequence none =>
    .conditional (test.spell f) (TracedStatement.spellAll f consequence) none
  | .conditional test consequence (some alternative) =>
    .conditional (test.spell f) (TracedStatement.spellAll f consequence)
      (some (TracedStatement.spellAll f alternative))

/-- The statement under a relabelling. The literal of an expression statement is changed if its
first token is no number. -/
def TracedStatement.spell (f : String → String) : TracedStatement → Statement
  | .binding name value => .binding (f name) (value.spell f)
  | .returning value => .returning (value.spell f)
  | .expression start value => .expression (start.current.relabel f).literal (value.spell f)

/-- The statements under a relabelling. -/
def TracedStatement.spellAll (f : String → String) : List TracedStatement → List Statement
  | [] => []
  | s :: ss => s.spell f :: TracedStatement.spellAll f ss

end

mutual

/-- Every expression statement in the expression is read from its start, among these tokens. -/
def TracedExpr.SourcedIn (tokens : List Token) : TracedExpr → Prop
  | .identifier _ | .integer _ | .boolean _ => True
  | .unary _ right => right.SourcedIn tokens
  | .binary _ left right => left.SourcedIn tokens ∧ right.SourcedIn tokens
  | .conditional test consequence none =>
    test.SourcedIn tokens ∧ TracedStatement.AllSourcedIn tokens consequence
  | .conditional test consequence (some alternative) =>
    test.SourcedIn tokens ∧ TracedStatement.AllSourcedIn tokens consequence ∧
      TracedStatement.AllSourcedIn tokens alternative

/-- Every expression statement, this one included, is read from its start, among these tokens. -/
def TracedStatement.SourcedIn (tokens : List Token) : TracedStatement → Prop
  | .binding _ value => value.SourcedIn tokens
  | .returning value => value.SourcedIn tokens
  | .expression start value =>
    (start.tokens <:+ tokens ∧
      (statement start).value = some (.expression start.current.literal (value.spell id))) ∧
    value.SourcedIn tokens

/-- Every expression statement in the list is read from its start, among these tokens. -/
def TracedStatement.AllSourcedIn (tokens : List Token) : List TracedStatement → Prop
  | [] => True
  | s :: ss => s.SourcedIn tokens ∧ TracedStatement.AllSourcedIn tokens ss

end

/-! ## Attempts that differ in texts only -/

/-- The cursors are those at the place of `c` among tokens with other texts. -/
def Cursor.Relabels (c : Cursor) (d : (String → String) → Cursor) : Prop :=
  ∀ f, d f = c.relabel f

namespace Cursor.Relabels

variable {c : Cursor} {d : (String → String) → Cursor}

theorem advance (h : c.Relabels d) : c.advance.Relabels fun f => (d f).advance :=
  fun f => (congrArg Cursor.advance (h f)).trans (advance_relabel f c)

theorem enterBlock (h : c.Relabels d) : c.enterBlock.Relabels fun f => (d f).enterBlock :=
  fun f => (congrArg Cursor.enterBlock (h f)).trans (enterBlock_relabel f c)

theorem closeBlock (h : c.Relabels d) : c.closeBlock.Relabels fun f => (d f).closeBlock :=
  fun f => congrArg Cursor.closeBlock (h f)

theorem kind_current (h : c.Relabels d) (f : String → String) :
    (d f).current.kind = c.current.kind := by
  rw [h f, kind_current_relabel]

theorem kind_upcoming (h : c.Relabels d) (f : String → String) :
    (d f).upcoming.kind = c.upcoming.kind := by
  rw [h f, kind_upcoming_relabel]

theorem current (h : c.Relabels d) (hEnd : c.current.kind ≠ .endOfInput) (f : String → String) :
    (d f).current = c.current.relabel f := by
  rw [h f, current_relabel hEnd]

end Cursor.Relabels

namespace Attempt

variable {c c' c'' : Cursor} {α β : Type} {s : Attempt c α} {ds ds' : List Diagnostic}

/-- What an attempt comes to: its value, the cursor it ends on and what it reports. -/
structure Ends (s : Attempt c α) (v : Option α) (c' : Cursor) (ds : List Diagnostic) : Prop where
  value : s.value = v
  cursor : s.cursor = c'
  diagnostics : s.diagnostics = ds

theorem Ends.mapValue {v : Option α} (h : s.Ends v c' ds) (g : α → β) :
    (s.mapValue g).Ends (v.map g) c' ds where
  value := congrArg (Option.map g) h.value
  cursor := h.cursor
  diagnostics := h.diagnostics

section andThen

variable {g : α → (c' : Cursor) → c'.remaining ≤ c.remaining → Attempt c' β}

theorem Ends.andThen_of_none (h : s.Ends none c' ds) : (s.andThen g).Ends none c' ds := by
  rw [Attempt.andThen_of_none h.value]
  exact ⟨rfl, h.cursor, h.diagnostics⟩

/-- What follows a value adds its diagnostics to those of the attempt. -/
theorem Ends.andThen_of_some {a : α} {v : Option β} (h : s.Ends (some a) c' ds)
    (hNext : (g a s.cursor s.remaining_le).Ends v c'' ds') :
    (s.andThen g).Ends v c'' (ds ++ ds') := by
  rw [Attempt.andThen_of_some h.value]
  exact ⟨hNext.value, hNext.cursor, by rw [Step.diagnostics_bind, h.diagnostics, hNext.diagnostics]⟩

end andThen

section orRecover

variable {found : α → (c' : Cursor) → c'.remaining ≤ c.remaining → Attempt c' β}
  {lost : Bool → (c' : Cursor) → c'.remaining ≤ c.remaining → Attempt c' β}

theorem Ends.orRecover_of_some {a : α} {v : Option β} (h : s.Ends (some a) c' ds)
    (hNext : (found a s.cursor s.remaining_le).Ends v c'' ds') :
    Ends (s.orRecover found lost) v c'' (ds ++ ds') := by
  rw [Attempt.orRecover_of_some h.value]
  exact ⟨hNext.value, hNext.cursor, by rw [Step.diagnostics_bind, h.diagnostics, hNext.diagnostics]⟩

/-- What follows an attempt that fails goes on from where recovery ends. -/
theorem Ends.orRecover_of_none {v : Option β} (h : s.Ends none c' ds)
    (hNext : (lost s.cursor.recover.value s.cursor.recover.cursor
      (Nat.le_trans s.cursor.recover.remaining_le s.remaining_le)).Ends v c'' ds') :
    Ends (s.orRecover found lost) v c'' (ds ++ ds') := by
  rw [Attempt.orRecover_of_none h.value]
  refine ⟨hNext.value, hNext.cursor, ?_⟩
  rw [Step.diagnostics_bind, Step.diagnostics_bind, diagnostics_recover, List.nil_append,
    h.diagnostics, hNext.diagnostics]

end orRecover

end Attempt

/-- The attempts, one for each relabelling, come to the same value but for how it is spelled, end
at the same place behind `c` and report the same. -/
def Uniform {α β : Type} (c : Cursor) (spell : (String → String) → β → α)
    (Valid : β → Cursor → Prop) {d : (String → String) → Cursor} (t : ∀ f, Attempt (d f) α) :
    Prop :=
  ∃ (v : Option β) (c' : Cursor) (ds : List Diagnostic), (∀ b, v = some b → Valid b c') ∧
    c'.tokens <:+ c.tokens ∧ ∀ f, (t f).Ends (v.map (spell f)) (c'.relabel f) ds

namespace Uniform

variable {c : Cursor} {d : (String → String) → Cursor} {α β γ δ : Type}
  {spell : (String → String) → β → α} {spell' : (String → String) → δ → γ}
  {Valid : β → Cursor → Prop} {Valid' : δ → Cursor → Prop} {t t' : ∀ f, Attempt (d f) α}

theorem of_eq (hSame : ∀ f, t f = t' f) (h : Uniform c spell Valid t') :
    Uniform c spell Valid t := by
  obtain rfl : t = t' := funext hSame
  exact h

theorem goto (b : β) {c' : Cursor} {d' : (String → String) → Cursor} (hd : c'.Relabels d')
    (hSuffix : c'.tokens <:+ c.tokens) (hLe : ∀ f, (d' f).remaining ≤ (d f).remaining)
    (hValid : Valid b c') :
    Uniform c spell Valid fun f => (.goto (some (spell f b)) (d' f) (hLe f) : Attempt (d f) α) := by
  refine ⟨some b, c', [], ?_, hSuffix, fun f => ⟨rfl, hd f, rfl⟩⟩
  rintro _ ⟨⟩
  exact hValid

theorem stay (b : β) (hd : c.Relabels d) (hValid : Valid b c) :
    Uniform c spell Valid fun f => (.stay (some (spell f b)) : Attempt (d f) α) :=
  goto b hd (List.suffix_refl _) (fun _ => Nat.le_refl _) hValid

theorem fail (reason : Diagnostic) (hd : c.Relabels d) :
    Uniform c spell Valid fun f => (.fail reason : Attempt (d f) α) :=
  ⟨none, c, [reason], nofun, List.suffix_refl _, fun f => ⟨rfl, hd f, rfl⟩⟩

theorem advancing {t : ∀ f, Attempt (d f).advance α} (h : Uniform c.advance spell Valid t) :
    Uniform c spell Valid fun f => (.advancing (t f) : Attempt (d f) α) := by
  obtain ⟨v, c', ds, hValid, hSuffix, hEnds⟩ := h
  exact ⟨v, c', ds, hValid, hSuffix.trans (List.tail_suffix _),
    fun f => ⟨(hEnds f).value, (hEnds f).cursor, (hEnds f).diagnostics⟩⟩

theorem inBlock {V : β → Prop} {t : ∀ f, Attempt (d f).enterBlock α}
    (h : Uniform c.enterBlock spell (fun b _ => V b) t) :
    Uniform c spell (fun b _ => V b) fun f => (.inBlock (t f) : Attempt (d f) α) := by
  obtain ⟨v, c', ds, hValid, hSuffix, hEnds⟩ := h
  exact ⟨v, c'.leaveBlock, ds, hValid, hSuffix.trans (List.tail_suffix _),
    fun f => ⟨(hEnds f).value, congrArg leaveBlock (hEnds f).cursor, (hEnds f).diagnostics⟩⟩

/-- A value that is found is the one that is read without relabelling. -/
theorem withValue (h : Uniform c spell Valid t) :
    Uniform c spell (fun b c' => Valid b c' ∧ (t id).value = some (spell id b)) t := by
  obtain ⟨v, c', ds, hValid, hSuffix, hEnds⟩ := h
  refine ⟨v, c', ds, fun b hb => ⟨hValid b hb, ?_⟩, hSuffix, hEnds⟩
  rw [(hEnds id).value, hb]
  rfl

theorem expect (kind : Token.Kind) (hd : c.Relabels d) :
    Uniform c (fun _ u => u) (fun _ c' => c'.current.kind = kind)
      fun f => (d f).expect kind := by
  by_cases hKind : c.upcoming.kind = kind
  · refine .of_eq (fun f => if_pos ((hd.kind_upcoming f).trans hKind)) ?_
    exact .goto () hd.advance (List.tail_suffix _) (fun f => (d f).remaining_advance_le) hKind
  · have hFail : ∀ f, (d f).expect kind = .fail (.expectedToken kind c.upcoming.kind) := by
      intro f
      rw [Cursor.expect, hd.kind_upcoming f, if_neg hKind]
    exact .of_eq hFail (.fail _ hd)

theorem endStatement {V : β → Prop} {w : (String → String) → α} {b : β} (hd : c.Relabels d)
    (hSpell : ∀ f, w f = spell f b) (hValid : V b) :
    Uniform c spell (fun b _ => V b) fun f => (d f).endStatement (w f) := by
  obtain rfl : w = fun f => spell f b := funext hSpell
  by_cases hKind : c.upcoming.kind = .semicolon
  · refine .of_eq (fun f => if_pos ((hd.kind_upcoming f).trans hKind)) ?_
    exact .goto b hd.advance (List.tail_suffix _) (fun f => (d f).remaining_advance_le) hValid
  · refine .of_eq (fun f => if_neg fun h => hKind ((hd.kind_upcoming f).symm.trans h)) ?_
    exact .stay b hd hValid

theorem mapValue {g : (String → String) → α → γ} (g' : β → δ) (h : Uniform c spell Valid t)
    (hSpell : ∀ f b, g f (spell f b) = spell' f (g' b))
    (hValid : ∀ b c', Valid b c' → Valid' (g' b) c') :
    Uniform c spell' Valid' fun f => (t f).mapValue (g f) := by
  obtain ⟨v, c', ds, hv, hSuffix, hEnds⟩ := h
  refine ⟨v.map g', c', ds, ?_, hSuffix, fun f => ?_⟩
  · intro _ hb
    obtain ⟨b, rfl, rfl⟩ := Option.map_eq_some_iff.mp hb
    exact hValid b c' (hv b rfl)
  · have hValue : (v.map (spell f)).map (g f) = (v.map g').map (spell' f) := by
      rw [Option.map_map, Option.map_map]
      exact congrArg (v.map ·) (funext (hSpell f))
    exact hValue ▸ (hEnds f).mapValue (g f)

theorem andThen {g : ∀ f, α → (c' : Cursor) → c'.remaining ≤ (d f).remaining → Attempt c' γ}
    (h : Uniform c spell Valid t)
    (hNext : ∀ b c', Valid b c' → c'.tokens <:+ c.tokens → ∀ d', c'.Relabels d' →
      ∀ hLe : ∀ f, (d' f).remaining ≤ (d f).remaining,
        Uniform c' spell' Valid' fun f => g f (spell f b) (d' f) (hLe f)) :
    Uniform c spell' Valid' fun f => (t f).andThen (g f) := by
  obtain ⟨v, c', ds, hValid, hSuffix, hEnds⟩ := h
  cases v with
  | none => exact ⟨none, c', ds, nofun, hSuffix, fun f => (hEnds f).andThen_of_none⟩
  | some b =>
    obtain ⟨v', c'', ds', hValid', hSuffix', hEnds'⟩ := hNext b c' (hValid b rfl) hSuffix
      (fun f => (t f).cursor) (fun f => (hEnds f).cursor) fun f => (t f).remaining_le
    exact ⟨v', c'', ds ++ ds', hValid', hSuffix'.trans hSuffix,
      fun f => (hEnds f).andThen_of_some (hEnds' f)⟩

theorem orRecover {g : ∀ f, α → (c' : Cursor) → c'.remaining ≤ (d f).remaining → Attempt c' γ}
    {g' : ∀ f, Bool → (c' : Cursor) → c'.remaining ≤ (d f).remaining → Attempt c' γ}
    (h : Uniform c spell Valid t)
    (hFound : ∀ b c', Valid b c' → c'.tokens <:+ c.tokens → ∀ d', c'.Relabels d' →
      ∀ hLe : ∀ f, (d' f).remaining ≤ (d f).remaining,
        Uniform c' spell' Valid' fun f => g f (spell f b) (d' f) (hLe f))
    (hLost : ∀ atBrace (c' : Cursor), c'.tokens <:+ c.tokens → ∀ d', c'.Relabels d' →
      ∀ hLe : ∀ f, (d' f).remaining ≤ (d f).remaining,
        Uniform c' spell' Valid' fun f => g' f atBrace (d' f) (hLe f)) :
    Uniform c spell' Valid' fun f => ((t f).orRecover (g f) (g' f) : Attempt (d f) γ) := by
  obtain ⟨v, c', ds, hValid, hSuffix, hEnds⟩ := h
  cases v with
  | none =>
    have hRecover : ∀ f, (t f).cursor.recover.value = c'.recover.value ∧
        (t f).cursor.recover.cursor = c'.recover.cursor.relabel f := by
      intro f
      rw [(hEnds f).cursor]
      exact recover_relabel f c'
    have hSkipped : c'.recover.cursor.tokens <:+ c.tokens :=
      (suffix_skipStatement 0 c').trans hSuffix
    obtain ⟨v', c'', ds', hValid', hSuffix', hEnds'⟩ := hLost c'.recover.value c'.recover.cursor
      hSkipped (fun f => (t f).cursor.recover.cursor) (fun f => (hRecover f).2) fun f =>
        Nat.le_trans (t f).cursor.recover.remaining_le (t f).remaining_le
    refine ⟨v', c'', ds ++ ds', hValid', hSuffix'.trans hSkipped, fun f => ?_⟩
    refine (hEnds f).orRecover_of_none ?_
    rw [(hRecover f).1]
    exact hEnds' f
  | some b =>
    obtain ⟨v', c'', ds', hValid', hSuffix', hEnds'⟩ := hFound b c' (hValid b rfl) hSuffix
      (fun f => (t f).cursor) (fun f => (hEnds f).cursor) fun f => (t f).remaining_le
    exact ⟨v', c'', ds ++ ds', hValid', hSuffix'.trans hSuffix,
      fun f => (hEnds f).orRecover_of_some (hEnds' f)⟩

end Uniform

end MonkeyLang
