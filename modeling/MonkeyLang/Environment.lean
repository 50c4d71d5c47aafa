import MonkeyLang.Value

/-!
# Environments

An environment binds names to values. Its bindings are kept in the order of the UTF-8 bytes of
the names, each name once, so environments with the same bindings are equal.

* `get?_set` and `get?_empty` say what is bound.
* `mem_bindings_iff` : the listing holds exactly what is bound.
* `ext_get?` : an environment is determined by what it binds.
-/

namespace MonkeyLang

namespace Environment

/-- The bytes of a name, which names are ordered by. -/
def bytes (name : String) : List UInt8 :=
  name.toByteArray.data.toList

theorem bytes_injective {a b : String} (h : bytes a = bytes b) : a = b := by
  rw [← String.toByteArray_inj]
  exact ByteArray.ext (Array.toList_inj.mp h)

/-- Whether a name stands before another one in a listing. -/
def Before (a b : String) : Prop :=
  bytes a < bytes b

instance (a b : String) : Decidable (Before a b) := inferInstanceAs (Decidable (bytes a < bytes b))

theorem Before.trans {a b c : String} (h : Before a b) (h' : Before b c) : Before a c :=
  List.lt_trans h h'

theorem Before.irrefl (a : String) : ¬ Before a a :=
  List.lt_irrefl (bytes a)

theorem Before.ne {a b : String} (h : Before a b) : a ≠ b :=
  fun hEq => irrefl b (hEq ▸ h)

/-- Of two different names, one comes before the other. -/
theorem before_of_not {a b : String} (h : ¬ Before a b) (hNe : a ≠ b) : Before b a :=
  Std.lt_of_le_of_ne (Std.not_lt.mp h) fun hEq => hNe (bytes_injective hEq.symm)

/-- Bindings in strictly increasing order of their names. -/
def Sorted (entries : List (String × Value)) : Prop :=
  entries.Pairwise fun a b => Before a.1 b.1

instance (entries : List (String × Value)) : Decidable (Sorted entries) :=
  inferInstanceAs (Decidable (entries.Pairwise _))

end Environment

/-- Names bound to values. -/
structure Environment where
  bindings : List (String × Value)
  sorted : Environment.Sorted bindings
deriving DecidableEq, Repr

namespace Environment

/-- The environment that binds nothing. -/
def empty : Environment :=
  ⟨[], .nil⟩

instance : Inhabited Environment := ⟨empty⟩

/-- Whether nothing is bound. -/
def isEmpty (env : Environment) : Bool :=
  env.bindings.isEmpty

/-- The value a name is bound to. -/
def get? (env : Environment) (name : String) : Option Value :=
  env.bindings.lookup name

/-! ## Binding a name -/

/-- Puts a binding in its place, instead of one with the same name. -/
def insertSorted (name : String) (value : Value) :
    List (String × Value) → List (String × Value)
  | [] => [(name, value)]
  | (other, v) :: rest =>
    if name = other then (name, value) :: rest
    else if Before name other then (name, value) :: (other, v) :: rest
    else (other, v) :: insertSorted name value rest

theorem mem_insertSorted {name : String} {value : Value} {e : String × Value}
    {entries : List (String × Value)} (h : e ∈ insertSorted name value entries) :
    e = (name, value) ∨ e ∈ entries := by
  fun_induction insertSorted name value entries <;> grind

/-- Entries stay in the order of their names. -/
theorem Sorted.insertSorted {entries : List (String × Value)} (h : Sorted entries)
    (name : String) (value : Value) : Sorted (insertSorted name value entries) := by
  fun_induction Environment.insertSorted name value entries with
  | case1 => exact List.pairwise_singleton _ _
  | case2 v rest =>
    obtain ⟨hHead, hTail⟩ := List.pairwise_cons.mp h
    exact List.pairwise_cons.mpr ⟨hHead, hTail⟩
  | case3 other v rest _ hBefore =>
    obtain ⟨hHead, _⟩ := List.pairwise_cons.mp h
    refine List.pairwise_cons.mpr ⟨fun e he => ?_, h⟩
    rcases List.mem_cons.mp he with rfl | he
    · exact hBefore
    · exact hBefore.trans (hHead e he)
  | case4 other v rest hNe hBefore ih =>
    obtain ⟨hHead, hTail⟩ := List.pairwise_cons.mp h
    refine List.pairwise_cons.mpr ⟨fun e he => ?_, ih hTail⟩
    rcases mem_insertSorted he with rfl | he
    · exact before_of_not hBefore hNe
    · exact hHead e he

/-- Binds a name to a value, whatever it was bound to before. -/
def set (env : Environment) (name : String) (value : Value) : Environment :=
  ⟨insertSorted name value env.bindings, env.sorted.insertSorted name value⟩

/-- The new entry takes the place of the old one of its name and leaves the others alone. -/
theorem lookup_insertSorted (name other : String) (value : Value)
    (entries : List (String × Value)) :
    (insertSorted name value entries).lookup other =
      if other = name then some value else entries.lookup other := by
  fun_induction insertSorted name value entries <;> grind

@[simp] theorem get?_empty (name : String) : empty.get? name = none := rfl

/-- A name has the value it was bound to last. -/
theorem get?_set (env : Environment) (name other : String) (value : Value) :
    (env.set name value).get? other = if other = name then some value else env.get? other :=
  lookup_insertSorted name other value env.bindings

@[simp] theorem get?_set_self (env : Environment) (name : String) (value : Value) :
    (env.set name value).get? name = some value := by
  simp [get?_set]

theorem get?_set_of_ne {name other : String} (h : other ≠ name) (env : Environment)
    (value : Value) : (env.set name value).get? other = env.get? other := by
  simp [get?_set, h]

/-! ## The listing -/

theorem lookup_eq_some_iff {entries : List (String × Value)} (h : Sorted entries)
    {name : String} {value : Value} :
    entries.lookup name = some value ↔ (name, value) ∈ entries := by
  induction entries with
  | nil => simp
  | cons e rest ih =>
    obtain ⟨other, v⟩ := e
    obtain ⟨hHead, hTail⟩ := List.pairwise_cons.mp h
    by_cases hName : name = other
    · subst hName
      have hRest : (name, value) ∉ rest := fun hMem => (hHead _ hMem).ne rfl
      simp [hRest, eq_comm]
    · rw [List.lookup_cons, beq_false_of_ne hName]
      simp [hName, ih hTail]

/-- The names that are bound are listed, each with its value, and no others. -/
theorem mem_bindings_iff {env : Environment} {name : String} {value : Value} :
    (name, value) ∈ env.bindings ↔ env.get? name = some value :=
  (lookup_eq_some_iff env.sorted).symm

theorem Sorted.nodup {entries : List (String × Value)} (h : Sorted entries) : entries.Nodup :=
  h.imp fun hBefore hEq => hBefore.ne (congrArg Prod.fst hEq)

/-- Sorted lists with the same entries are equal. -/
theorem eq_of_lookup_eq {l m : List (String × Value)} (hl : Sorted l) (hm : Sorted m)
    (h : ∀ name, l.lookup name = m.lookup name) : l = m := by
  have hPerm : l.Perm m := by
    refine (List.perm_ext_iff_of_nodup hl.nodup hm.nodup).mpr fun (name, value) => ?_
    rw [← lookup_eq_some_iff hl, ← lookup_eq_some_iff hm, h]
  refine hPerm.eq_of_pairwise (fun a b _ _ hab hba => ?_) hl hm
  exact absurd (hab.trans hba) (Before.irrefl _)

/-- Environments that bind the same names to the same values are equal. -/
theorem ext_get? {env env' : Environment} (h : ∀ name, env.get? name = env'.get? name) :
    env = env' := by
  cases env
  cases env'
  congr
  exact eq_of_lookup_eq ‹_› ‹_› h

end Environment

end MonkeyLang
