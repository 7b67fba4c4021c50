import Mathlib.Data.List.Sort
import Mathlib.Data.List.Dedup
import Mathlib.Data.List.Perm.Basic

/-!
Lists in the strict order of a key, as states of a set: what is added and removed between
two of them, and the list that a delta leads to.
-/
namespace OrderedDelta
variable {α β : Type} [LinearOrder β] (key : α → β)

def Canonical (l : List α) : Prop := l.Pairwise (fun a b => key a < key b)

def sorted (l : List α) : List α := l.insertionSort (fun a b => key a ≤ key b)

variable {key} {l prev next added removed : List α}

theorem Canonical.nodup (canonical : Canonical key l) : l.Nodup :=
  canonical.imp (fun less same => absurd (same ▸ less) (lt_irrefl _))

theorem Canonical.sorted_eq (canonical : Canonical key l) : sorted key l = l :=
  List.Pairwise.insertionSort_eq (canonical.imp le_of_lt)

theorem Canonical.filter (canonical : Canonical key l) (p : α → Bool) : Canonical key (l.filter p) :=
  List.Pairwise.sublist List.filter_sublist canonical

/-- Two sorted lists of the same distinct members are one list. -/
theorem sorted_perm_eq (distinct : Function.Injective key) (canonical : Canonical key next)
    (perm : l.Perm next) : sorted key l = next := by
  have ordered : (sorted key l).Pairwise (fun a b => key a ≤ key b) :=
    List.pairwise_insertionSort (fun a b => key a ≤ key b) l
  refine List.Perm.eq_of_pairwise ?_ ordered (canonical.imp le_of_lt)
    ((List.perm_insertionSort _ _).trans perm)
  intro a b _ _ below above
  exact distinct (le_antisymm below above)

variable [DecidableEq α]

theorem Canonical.dedup_eq (canonical : Canonical key l) : l.dedup = l :=
  canonical.nodup.dedup

variable (key) in
/- Members of the first that the second lacks. The sort ends any order the set had. -/
def missingFrom (l other : List α) : List α := sorted key (l.dedup.filter (fun a => a ∉ other))

variable (key) in
def applied (prev added removed : List α) : List α :=
  sorted key (prev.dedup.filter (fun a => a ∉ removed) ++ added)

theorem Canonical.missing_eq (canonical : Canonical key l) (other : List α) :
    missingFrom key l other = l.filter (fun a => a ∉ other) := by
  rw [missingFrom, canonical.dedup_eq]
  exact (canonical.filter _).sorted_eq

theorem missing_canonical (canonical : Canonical key l) (other : List α) :
    Canonical key (missingFrom key l other) := by
  rw [canonical.missing_eq]
  exact canonical.filter _

theorem mem_missing {a : α} : a ∈ missingFrom key l next ↔ a ∈ l ∧ a ∉ next := by
  rw [missingFrom, sorted, List.mem_insertionSort, List.mem_filter, List.mem_dedup, decide_eq_true_eq]

/-- The delta between two lists leads from the one to the other. -/
theorem applied_delta (distinct : Function.Injective key) (from_ : Canonical key prev)
    (into : Canonical key next) :
    applied key prev (missingFrom key next prev) (missingFrom key prev next) = next := by
  apply sorted_perm_eq distinct into
  rw [from_.dedup_eq]
  apply (List.perm_ext_iff_of_nodup _ into.nodup).mpr
  · intro a
    simp only [List.mem_append, List.mem_filter, decide_eq_true_eq, mem_missing]
    by_cases held : a ∈ prev <;> by_cases wanted : a ∈ next <;> simp [held, wanted]
  · refine List.nodup_append.mpr ⟨(from_.filter _).nodup, (missing_canonical into _).nodup, ?_⟩
    rintro a kept b new rfl
    exact (mem_missing.mp new).2 (List.mem_filter.mp kept).1

end OrderedDelta
