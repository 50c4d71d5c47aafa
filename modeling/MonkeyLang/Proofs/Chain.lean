import MonkeyLang.Tree

/-!
# Trees of operator chains

A chain is a first operand and any number of links, each an operator and the operand after it.
Its tree does not mention any way of reading it: the root is the weakest operator of the chain,
the last one if several are equally weak, and the chains on its two sides are grouped in the
same way. Which operators are weak is a table of its own, `Chain.rank`.

* `Chain.level_precedence` : the table agrees with the strengths that reading goes by.
* `Chain.tree_split` : the rule, for every weakest operator that only stronger ones follow.
* `Chain.tree_regroup` : an operator may be joined with its operands first, if the operators
  up to the end of its right operand are stronger and the next one is not.
-/

namespace MonkeyLang

namespace Chain

/-! ## Ranks -/

/-- The rank of an operator, from the weakest to the strongest: tests for equality, comparisons,
sums and differences, products and quotients. -/
def rank : BinaryOperator → Nat
  | .equal | .notEqual => 0
  | .less | .greater => 1
  | .add | .subtract => 2
  | .multiply | .divide => 3

/-- The weakest strength of all is left to whatever is no operator. -/
theorem level_precedence (op : BinaryOperator) : op.precedence.level = rank op + 1 := by
  cases op <;> rfl

theorem precedence_le_iff {op op' : BinaryOperator} :
    op.precedence ≤ op'.precedence ↔ rank op ≤ rank op' := by
  rw [Precedence.le_iff, level_precedence, level_precedence, Nat.add_le_add_iff_right]

theorem precedence_lt_iff {op op' : BinaryOperator} :
    op.precedence < op'.precedence ↔ rank op < rank op' := by
  rw [Precedence.lt_iff, level_precedence, level_precedence, Nat.add_lt_add_iff_right]

/-! ## Taking a chain apart -/

/-- An operator of a chain and the operand after it. -/
abbrev Link : Type := BinaryOperator × Expr

/-- A chain without its first operand, taken apart at one of its operators. -/
structure Split where
  before : List Link
  operator : BinaryOperator
  operand : Expr
  after : List Link

/-- Takes a chain apart at its last weakest operator, if it has operators at all. -/
def splitWeakest? : List Link → Option Split
  | [] => none
  | (op, e) :: links =>
    match splitWeakest? links with
    | none => some ⟨[], op, e, links⟩
    | some s =>
      if rank s.operator ≤ rank op then
        some { s with before := (op, e) :: s.before }
      else
        some ⟨[], op, e, links⟩

/-- Every list of links but the empty one can be split at its weakest operator. -/
theorem eq_nil_of_splitWeakest? {links : List Link} (h : splitWeakest? links = none) :
    links = [] := by
  cases links with
  | nil => rfl
  | cons link links =>
    simp only [splitWeakest?] at h
    split at h
    · cases h
    · split at h <;> cases h

/-- A split leaves nothing out, no operator before it is weaker and all after it are
stronger. -/
theorem splitWeakest?_spec {links : List Link} {s : Split} (h : splitWeakest? links = some s) :
    links = s.before ++ (s.operator, s.operand) :: s.after ∧
      (∀ link ∈ s.before, rank s.operator ≤ rank link.1) ∧
      ∀ link ∈ s.after, rank s.operator < rank link.1 := by
  induction links generalizing s with
  | nil => cases h
  | cons link links ih =>
    obtain ⟨op, e⟩ := link
    simp only [splitWeakest?] at h
    split at h
    case h_1 hNone =>
      cases h
      rw [eq_nil_of_splitWeakest? hNone]
      simp
    case h_2 s' hSome =>
      obtain ⟨hLinks, hBefore, hAfter⟩ := ih hSome
      split at h
      case isTrue hWeaker =>
        cases h
        refine ⟨by rw [hLinks]; rfl, ?_, hAfter⟩
        intro link hLink
        rcases List.mem_cons.mp hLink with rfl | hLink
        · exact hWeaker
        · exact hBefore link hLink
      case isFalse hStronger =>
        cases h
        have hHead : rank op < rank s'.operator := Nat.lt_of_not_le hStronger
        refine ⟨rfl, by simp, ?_⟩
        intro link hLink
        change link ∈ links at hLink
        rw [hLinks] at hLink
        rcases List.mem_append.mp hLink with hLink | hLink
        · exact Nat.lt_of_lt_of_le hHead (hBefore link hLink)
        rcases List.mem_cons.mp hLink with rfl | hLink
        · exact hHead
        · exact Nat.lt_trans hHead (hAfter link hLink)

/-- The conditions of `splitWeakest?_spec` determine the split. -/
theorem splitWeakest?_append {before after : List Link} {op : BinaryOperator} (e : Expr)
    (hBefore : ∀ link ∈ before, rank op ≤ rank link.1)
    (hAfter : ∀ link ∈ after, rank op < rank link.1) :
    splitWeakest? (before ++ (op, e) :: after) = some ⟨before, op, e, after⟩ := by
  induction before with
  | nil =>
    simp only [List.nil_append, splitWeakest?]
    cases hSplit : splitWeakest? after with
    | none => rfl
    | some s =>
      have hMem : (s.operator, s.operand) ∈ after := by
        rw [(splitWeakest?_spec hSplit).1]
        exact List.mem_append_right _ List.mem_cons_self
      exact if_neg (Nat.not_le_of_lt (hAfter _ hMem))
  | cons link before ih =>
    have hTail := ih fun link' hLink => hBefore link' (List.mem_cons_of_mem _ hLink)
    simp only [List.cons_append, splitWeakest?, hTail]
    exact if_pos (hBefore link List.mem_cons_self)

theorem length_before_lt {links : List Link} {s : Split} (h : splitWeakest? links = some s) :
    s.before.length < links.length := by
  rw [(splitWeakest?_spec h).1]
  simp

theorem length_after_lt {links : List Link} {s : Split} (h : splitWeakest? links = some s) :
    s.after.length < links.length := by
  rw [(splitWeakest?_spec h).1]
  simp
  omega

/-! ## The tree -/

/-- The tree of a chain: the root is the weakest operator, the last of several, and the chains
before and after it are its operands. -/
def tree (first : Expr) (links : List Link) : Expr :=
  match _h : splitWeakest? links with
  | none => first
  | some s => .binary s.operator (tree first s.before) (tree s.operand s.after)
termination_by links.length
decreasing_by
  · exact length_before_lt _h
  · exact length_after_lt _h

@[simp] theorem tree_nil (first : Expr) : tree first [] = first := by
  rw [tree]
  rfl

/-- The rule, for every weakest operator that only stronger ones follow. -/
theorem tree_split (first e : Expr) {before after : List Link} {op : BinaryOperator}
    (hBefore : ∀ link ∈ before, rank op ≤ rank link.1)
    (hAfter : ∀ link ∈ after, rank op < rank link.1) :
    tree first (before ++ (op, e) :: after) = .binary op (tree first before) (tree e after) := by
  rw [tree]
  split
  case h_1 hNone =>
    rw [splitWeakest?_append e hBefore hAfter] at hNone
    cases hNone
  case h_2 s hSome =>
    rw [splitWeakest?_append e hBefore hAfter] at hSome
    cases hSome
    rfl

/-- Joining an operator with its operands before the rest of the chain is grouped. The right
operand ends where an operator follows that is not stronger. -/
theorem tree_regroup (first e : Expr) {op : BinaryOperator} {inner outer : List Link}
    (hInner : ∀ link ∈ inner, rank op < rank link.1)
    (hOuter : ∀ link ∈ outer.head?, rank link.1 ≤ rank op) :
    tree first ((op, e) :: (inner ++ outer)) =
      tree (.binary op first (tree e inner)) outer := by
  -- The root of the whole chain lies in `outer`, so the induction is on the part before it.
  induction hLength : outer.length using Nat.strongRecOn generalizing outer with
  | ind n ih =>
    cases hSplit : splitWeakest? outer with
    | none =>
      rw [eq_nil_of_splitWeakest? hSplit, List.append_nil, tree_nil]
      have hSplit' := @tree_split first e [] inner op (by simp) hInner
      rwa [tree_nil] at hSplit'
    | some s =>
      obtain ⟨hLinks, hBefore, hAfter⟩ := splitWeakest?_spec hSplit
      have hShorter := length_before_lt hSplit
      have hWeak : rank s.operator ≤ rank op := by
        cases hCases : s.before with
        | nil => exact hOuter _ (by rw [hLinks, hCases]; rfl)
        | cons link before =>
          have hHead : rank link.1 ≤ rank op := hOuter link (by rw [hLinks, hCases]; rfl)
          exact Nat.le_trans (hBefore link (hCases ▸ List.mem_cons_self)) hHead
      have hFront : ∀ link ∈ (op, e) :: (inner ++ s.before),
          rank s.operator ≤ rank link.1 := by
        intro link hLink
        rcases List.mem_cons.mp hLink with rfl | hLink
        · exact hWeak
        rcases List.mem_append.mp hLink with hLink | hLink
        · exact Nat.le_trans hWeak (Nat.le_of_lt (hInner link hLink))
        · exact hBefore link hLink
      have hOuter' : ∀ link ∈ s.before.head?, rank link.1 ≤ rank op := by
        intro link hLink
        refine hOuter link ?_
        rw [hLinks, List.head?_append, hLink]
        rfl
      have hRest := ih s.before.length (by omega) hOuter' rfl
      have hWhole := tree_split first s.operand hFront hAfter
      rw [hRest] at hWhole
      rw [hLinks, tree_split _ s.operand hBefore hAfter, ← hWhole]
      simp

end Chain

end MonkeyLang
