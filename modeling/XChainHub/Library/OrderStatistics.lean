import Mathlib.Data.List.GetD
import Mathlib.Data.List.Sort
import Mathlib.Tactic.Linarith

/-!
The middle of a sorted list. Where fewer than half of the entries are bad it lies
between two of the others, and cutting as many entries off both ends leaves it.
-/
namespace OrderStatistics

section Ranks
variable {α : Type} [LinearOrder α] {sorted good bad : List α} {i : ℕ} {m : α}

theorem count_below (order : sorted.Pairwise (· ≤ ·)) (here : sorted[i]? = some m) :
    i + 1 ≤ sorted.countP (· ≤ m) := by
  obtain ⟨inside, value⟩ := List.getElem?_eq_some_iff.mp here
  have all : (sorted.take (i + 1)).countP (· ≤ m) = (sorted.take (i + 1)).length := by
    rw [List.countP_eq_length]
    intro x member
    obtain ⟨j, place, same⟩ := List.mem_iff_getElem.mp member
    rw [List.length_take] at place
    rw [List.getElem_take] at same
    rw [decide_eq_true_eq, ← same, ← value]
    by_cases last : j = i
    · simp [last]
    · exact List.pairwise_iff_getElem.mp order j i (by omega) inside (by omega)
  have few := (List.take_sublist (i + 1) sorted).countP_le (p := (· ≤ m))
  rw [all, List.length_take] at few
  omega

theorem count_above (order : sorted.Pairwise (· ≤ ·)) (here : sorted[i]? = some m) :
    sorted.length - i ≤ sorted.countP (m ≤ ·) := by
  obtain ⟨inside, value⟩ := List.getElem?_eq_some_iff.mp here
  have all : (sorted.drop i).countP (m ≤ ·) = (sorted.drop i).length := by
    rw [List.countP_eq_length]
    intro x member
    obtain ⟨j, place, same⟩ := List.mem_iff_getElem.mp member
    rw [List.length_drop] at place
    rw [List.getElem_drop] at same
    rw [decide_eq_true_eq, ← same, ← value]
    by_cases first : j = 0
    · simp [first]
    · exact List.pairwise_iff_getElem.mp order i (i + j) inside (by omega) (by omega)
  have few := (List.drop_sublist i sorted).countP_le (p := (m ≤ ·))
  rw [all, List.length_drop] at few
  exact few

/-- With no more bad entries than there are below a place, a good one is no higher. -/
theorem good_below (order : sorted.Pairwise (· ≤ ·)) (split : (good ++ bad).Perm sorted)
    (here : sorted[i]? = some m) (few : bad.length ≤ i) : ∃ g ∈ good, g ≤ m := by
  by_contra none
  have low := count_below order here
  rw [← split.countP_eq, List.countP_append] at low
  have zero : good.countP (· ≤ m) = 0 := by
    rw [List.countP_eq_zero]
    intro g member
    simp only [decide_eq_true_eq]
    exact fun le => none ⟨g, member, le⟩
  have bound := List.countP_le_length (p := fun x => decide (x ≤ m)) (l := bad)
  omega

theorem good_above (order : sorted.Pairwise (· ≤ ·)) (split : (good ++ bad).Perm sorted)
    (here : sorted[i]? = some m) (few : bad.length + i < sorted.length) : ∃ g ∈ good, m ≤ g := by
  by_contra none
  have high := count_above order here
  rw [← split.countP_eq, List.countP_append] at high
  have zero : good.countP (m ≤ ·) = 0 := by
    rw [List.countP_eq_zero]
    intro g member
    simp only [decide_eq_true_eq]
    exact fun le => none ⟨g, member, le⟩
  have bound := List.countP_le_length (p := fun x => decide (m ≤ x)) (l := bad)
  omega

end Ranks

section Middles

/- The middle one, or the mean of the two. -/
def middle (sorted : List ℚ) : ℚ :=
  if sorted.length % 2 = 0 then
    (sorted.getD (sorted.length / 2 - 1) 0 + sorted.getD (sorted.length / 2) 0) / 2
  else sorted.getD (sorted.length / 2) 0

def median (values : List ℚ) : ℚ := middle (values.mergeSort (· ≤ ·))

variable {sorted good bad values : List ℚ}

/-- Both ends cut alike leave the middle. -/
theorem getD_slice {α : Type} (xs : List α) (d : α) {t j : ℕ} (inside : t + j < xs.length - t) :
    ((xs.take (xs.length - t)).drop t).getD j d = xs.getD (t + j) d := by
  rw [List.getD_eq_getElem?_getD, List.getD_eq_getElem?_getD, List.getElem?_drop,
    List.getElem?_take_of_lt inside]

theorem middle_between (order : sorted.Pairwise (· ≤ ·)) (split : (good ++ bad).Perm sorted)
    (few : 2 * bad.length < sorted.length) :
    (∃ g ∈ good, g ≤ middle sorted) ∧ ∃ g ∈ good, middle sorted ≤ g := by
  have entry {i : ℕ} (inside : i < sorted.length) : sorted[i]? = some (sorted.getD i 0) := by
    rw [List.getD_eq_getElem?_getD, List.getElem?_eq_getElem inside]
    rfl
  unfold middle
  split
  · rename_i even
    obtain ⟨g, member, low⟩ := good_below order split
      (entry (show sorted.length / 2 - 1 < sorted.length by omega)) (by omega)
    obtain ⟨h, member', high⟩ := good_above order split
      (entry (show sorted.length / 2 < sorted.length by omega)) (by omega)
    have ordered : sorted.getD (sorted.length / 2 - 1) 0 ≤ sorted.getD (sorted.length / 2) 0 := by
      rw [List.getD_eq_getElem _ _ (by omega), List.getD_eq_getElem _ _ (by omega)]
      exact List.pairwise_iff_getElem.mp order _ _ (by omega) (by omega) (by omega)
    exact ⟨⟨g, member, by linarith⟩, ⟨h, member', by linarith⟩⟩
  · rename_i odd
    have place := entry (show sorted.length / 2 < sorted.length by omega)
    exact ⟨good_below order split place (by omega), good_above order split place (by omega)⟩

theorem merge_sort_sorted (values : List ℚ) : (values.mergeSort (· ≤ ·)).Pairwise (· ≤ ·) := by
  have order := @List.pairwise_mergeSort _ (fun a b : ℚ => decide (a ≤ b))
    (fun a b c first second => by
      simp only [decide_eq_true_eq] at first second ⊢
      exact first.trans second)
    (fun a b => by
      simp only [Bool.or_eq_true, decide_eq_true_eq]
      exact le_total a b) values
  exact order.imp fun le => by simpa using le

end Middles
end OrderStatistics
