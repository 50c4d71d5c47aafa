import Mathlib.Data.List.Basic
import Mathlib.Data.List.Induction
import MonkeyLang.Environment

/-!
# Updates of an environment

Names are set and all of them are cleared, any number of times and in any order. What is bound in
the end is what each name was set to last, and the listing depends on nothing else. It is also the
listing of a store that keeps its entries in no order of its own and sorts them by their names to
list them, in whatever way the sort treats its input.

* `Environment.afterAll` : the environment that updates leave. `Environment.LastSet` : what a name
  was set to last.
* `Environment.Stores` : the entries of an unordered store after updates.
* `Environment.get?_afterAll` and `Environment.Stores.perm` : what updates leave, by induction on
  the updates, with one lemma for each update.
* `Environment.bindings_afterAll` : lookups and listings after any updates.
-/

namespace MonkeyLang

namespace Environment

/-- What changes an environment. -/
inductive Update
  | set (name : String) (value : Value)
  | clear
deriving DecidableEq, Repr, Inhabited

/-- The environment after an update. -/
def update (env : Environment) : Update → Environment
  | .set name value => env.set name value
  | .clear => .empty

/-- The environment after updates of one that binds nothing. -/
def afterAll (us : List Update) : Environment :=
  us.foldl update .empty

/-- The update decides what the name is bound to. -/
def Update.Concerns (name : String) : Update → Prop
  | .set other _ => other = name
  | .clear => True

/-- The name is set to the value, and no later update concerns it. -/
def LastSet (us : List Update) (name : String) (value : Value) : Prop :=
  ∃ before later, us = before ++ .set name value :: later ∧ ∀ u ∈ later, ¬ u.Concerns name

/-- The entries of an unordered store after updates. Setting a name drops the entry that it had, and
at any time the entries may stand in any other order. -/
inductive Stores : List Update → List (String × Value) → Prop
  | nothing : Stores [] []
  | set {us entries} (name : String) (value : Value) (h : Stores us entries) :
      Stores (us ++ [.set name value]) ((name, value) :: entries.filter fun e => e.1 ≠ name)
  | clear {us entries} (h : Stores us entries) : Stores (us ++ [.clear]) []
  | reorder {us entries entries'} (hPerm : entries'.Perm entries) (h : Stores us entries) :
      Stores us entries'

variable {us : List Update} {env : Environment} {name : String} {value : Value}

theorem afterAll_concat (us : List Update) (u : Update) :
    afterAll (us ++ [u]) = (afterAll us).update u :=
  List.foldl_concat ..

/-! ## Lookups -/

/-- A name is set last by the last update, or by one before it if that one does not concern
the name. -/
theorem lastSet_concat {u : Update} :
    LastSet (us ++ [u]) name value ↔
      u = .set name value ∨ ¬ u.Concerns name ∧ LastSet us name value := by
  constructor
  · rintro ⟨before, later, hSplit, hLater⟩
    rcases List.eq_nil_or_concat later with rfl | ⟨later, last, rfl⟩
    · obtain ⟨-, hLast⟩ := List.append_inj' hSplit rfl
      exact Or.inl (List.singleton_inj.mp hLast)
    · rw [List.concat_eq_append] at hSplit hLater
      rw [← List.cons_append, ← List.append_assoc] at hSplit
      obtain ⟨rfl, hLast⟩ := List.append_inj' hSplit rfl
      obtain rfl := List.singleton_inj.mp hLast
      refine Or.inr ⟨hLater u (by simp), before, later, rfl, ?_⟩
      intro v hv
      exact hLater v (List.mem_append_left _ hv)
  · rintro (rfl | ⟨hOther, before, later, rfl, hLater⟩)
    · exact ⟨us, [], rfl, List.forall_mem_nil _⟩
    · refine ⟨before, later ++ [u], by simp, ?_⟩
      intro v hv
      rcases List.mem_append.mp hv with hv | hv
      · exact hLater v hv
      · rwa [List.mem_singleton.mp hv]

theorem not_lastSet_nil : ¬ LastSet [] name value := by
  rintro ⟨before, later, hSplit, -⟩
  exact List.append_ne_nil_of_right_ne_nil before (List.cons_ne_nil _ _) hSplit.symm

/-- A lookup finds what the name was set to last. -/
theorem get?_afterAll : (afterAll us).get? name = some value ↔ LastSet us name value := by
  induction us using List.reverseRecOn with
  | nil => exact iff_of_false (fun h => nomatch h) not_lastSet_nil
  | append_singleton us u ih =>
    rw [afterAll_concat, lastSet_concat]
    cases u with
    | set other v =>
      simp only [update, get?_set, Update.Concerns]
      by_cases hName : name = other
      · subst hName
        simp
      · rw [if_neg hName, ih]
        simp [Ne.symm hName]
    | clear => simp [update, Update.Concerns]

/-! ## Listings -/

/-- Entries of one name are one entry. -/
theorem eq_of_mem_bindings {e e' : String × Value} (h : e ∈ env.bindings) (h' : e' ∈ env.bindings)
    (hName : e.1 = e'.1) : e = e' := by
  obtain ⟨name, value⟩ := e
  obtain ⟨name', value'⟩ := e'
  obtain rfl : name = name' := hName
  have hValue : some value = some value' :=
    (mem_bindings_iff.mp h).symm.trans (mem_bindings_iff.mp h')
  rw [Option.some.inj hValue]

/-- To set a name drops its old entry and adds the new one, in some place. -/
theorem bindings_set_perm (env : Environment) (name : String) (value : Value) :
    (env.set name value).bindings.Perm
      ((name, value) :: env.bindings.filter fun e => e.1 ≠ name) := by
  have hNodup : ((name, value) :: env.bindings.filter fun e => e.1 ≠ name).Nodup := by
    refine List.nodup_cons.mpr ⟨?_, env.sorted.nodup.filter _⟩
    simp
  refine (List.perm_ext_iff_of_nodup (env.set name value).sorted.nodup hNodup).mpr ?_
  rintro ⟨other, v⟩
  rw [mem_bindings_iff, get?_set]
  by_cases hName : other = name
  · simp [hName, eq_comm]
  · simp [hName, mem_bindings_iff]

/-- An unordered store holds the entries of the listing. -/
theorem Stores.perm {entries : List (String × Value)} (h : Stores us entries) :
    entries.Perm (afterAll us).bindings := by
  induction h with
  | nothing => exact List.Perm.nil
  | @set us entries name value _ ih =>
    rw [afterAll_concat]
    have hKept := ih.filter fun e => e.1 ≠ name
    exact (hKept.cons (name, value)).trans (bindings_set_perm _ name value).symm
  | clear =>
    rw [afterAll_concat]
    exact List.Perm.nil
  | reorder hPerm _ ih => exact hPerm.trans ih

/-- Every list of updates leaves some store. -/
theorem exists_stores (us : List Update) : ∃ entries, Stores us entries := by
  induction us using List.reverseRecOn with
  | nil => exact ⟨[], .nothing⟩
  | append_singleton us u ih =>
    obtain ⟨entries, h⟩ := ih
    cases u with
    | set name value => exact ⟨_, h.set name value⟩
    | clear => exact ⟨[], h.clear⟩

/-- There is one way to put the entries in the order of their names. -/
theorem eq_bindings_of_perm {listing : List (String × Value)} (hPerm : listing.Perm env.bindings)
    (hSorted : listing.Pairwise fun a b => bytes a.1 ≤ bytes b.1) : listing = env.bindings := by
  have hBindings : env.bindings.Pairwise fun a b => bytes a.1 ≤ bytes b.1 :=
    env.sorted.imp fun hBefore => List.le_of_lt hBefore
  refine hPerm.eq_of_pairwise ?_ hSorted hBindings
  intro a b ha hb hab hba
  apply eq_of_mem_bindings (hPerm.subset ha) hb
  exact bytes_injective (List.le_antisymm hab hba)

/-- After any updates a lookup finds what the name was set to last since everything was cleared, and
the listing shows exactly this, each name once and in the order of their bytes. It depends on what
is bound and not on how that came about. An unordered store holds the same entries in some order,
and whatever sorts them by their names yields the listing. -/
theorem bindings_afterAll (us : List Update) :
    (∀ name value, (afterAll us).get? name = some value ↔ LastSet us name value) ∧
      ((afterAll us).bindings.Pairwise fun a b => bytes a.1 < bytes b.1) ∧
      (∀ name value, (name, value) ∈ (afterAll us).bindings ↔
        (afterAll us).get? name = some value) ∧
      ((afterAll us).isEmpty = true ↔ (afterAll us).bindings = []) ∧
      (∀ us', (∀ name, (afterAll us).get? name = (afterAll us').get? name) →
        (afterAll us).bindings = (afterAll us').bindings) ∧
      (∃ entries, Stores us entries) ∧
      ∀ entries, Stores us entries →
        (∀ name value, (name, value) ∈ entries ↔ (afterAll us).get? name = some value) ∧
        (entries = [] ↔ (afterAll us).isEmpty = true) ∧
        ∀ listing, listing.Perm entries →
          (listing.Pairwise fun a b => bytes a.1 ≤ bytes b.1) →
          listing = (afterAll us).bindings := by
  refine ⟨fun _ _ => get?_afterAll, (afterAll us).sorted, fun _ _ => mem_bindings_iff,
    List.isEmpty_iff, ?_, exists_stores us, ?_⟩
  · intro us' hSame
    rw [ext_get? hSame]
  · intro entries hStores
    have hPerm := hStores.perm
    refine ⟨?_, ?_, ?_⟩
    · intro name value
      rw [hPerm.mem_iff]
      exact mem_bindings_iff
    · rw [isEmpty, List.isEmpty_iff]
      constructor
      · rintro rfl
        exact hPerm.nil_eq.symm
      · intro hNil
        rw [hNil] at hPerm
        exact hPerm.eq_nil
    · intro listing hListing hSorted
      exact eq_bindings_of_perm (hListing.trans hPerm) hSorted

/-- Names of which one begins with the other, a name that is not ASCII, and names that are set again
or cleared. -/
theorem bindings_afterAll_names :
    let us : List Update := [.set "z" (.integer 1), .set "a" .null, .clear, .set "é" .null,
      .set "ab" (.integer 2), .set "a" (.boolean true), .set "ab" (.integer 3)]
    let us' : List Update := [.set "ab" (.integer 3), .set "é" .null, .set "a" (.boolean true)]
    let entries : List (String × Value) :=
      [("é", .null), ("a", .boolean true), ("ab", .integer 3)]
    let listing : List (String × Value) :=
      [("a", .boolean true), ("ab", .integer 3), ("é", .null)]
    LastSet us "a" (.boolean true) ∧ (∀ name, (afterAll us).get? name = (afterAll us').get? name) ∧
      Stores us entries ∧ listing.Perm entries ∧
      (listing.Pairwise fun a b => bytes a.1 ≤ bytes b.1) ∧
      (afterAll us).bindings = (afterAll us').bindings ∧ listing = (afterAll us).bindings := by
  intro us us' entries listing
  have hLast : LastSet us "a" (.boolean true) :=
    ((bindings_afterAll us).1 "a" (.boolean true)).mp (by decide +kernel)
  have hSame : ∀ name, (afterAll us).get? name = (afterAll us').get? name := by
    intro name
    have hEq : afterAll us = afterAll us' := by decide +kernel
    rw [hEq]
  have hStores : Stores us entries := by
    have hFirst := (Stores.nothing.set "z" (.integer 1)).set "a" .null
    have hCleared := (hFirst.clear.set "é" .null).set "ab" (.integer 2)
    exact .reorder (by decide +kernel) ((hCleared.set "a" (.boolean true)).set "ab" (.integer 3))
  have hPerm : listing.Perm entries := by decide +kernel
  have hSorted : listing.Pairwise fun a b => bytes a.1 ≤ bytes b.1 := by decide +kernel
  have hBindings := (bindings_afterAll us).2.2.2.2.1 us' hSame
  have hListing := ((bindings_afterAll us).2.2.2.2.2.2 entries hStores).2.2 listing hPerm hSorted
  exact ⟨hLast, hSame, hStores, hPerm, hSorted, hBindings, hListing⟩

end Environment

end MonkeyLang
