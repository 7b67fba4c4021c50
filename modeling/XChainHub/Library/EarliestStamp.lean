import Mathlib.Data.List.Induction
import Mathlib.Order.Nat

/-!
A stamp that only ever moves earlier. Zero is no stamp yet; every stamp written is positive.
Writing several stamps leaves the least of them, in whatever order and however often they come.
-/
namespace EarliestStamp

def earlier (held stamp : ℕ) : ℕ := if held = 0 ∨ stamp < held then stamp else held

/- What a run of writes leaves of an empty stamp. -/
def earliest (stamps : List ℕ) : ℕ := stamps.foldl earlier 0

@[simp] theorem earlier_zero (stamp : ℕ) : earlier 0 stamp = stamp := by simp [earlier]

@[simp] theorem earlier_self (stamp : ℕ) : earlier stamp stamp = stamp := by simp [earlier]

@[simp] theorem earliest_nil : earliest [] = 0 := rfl

theorem earliest_concat (stamps : List ℕ) (stamp : ℕ) :
    earliest (stamps ++ [stamp]) = earlier (earliest stamps) stamp := by
  simp [earliest]

theorem earlier_twice (held stamp : ℕ) :
    earlier (earlier held stamp) stamp = earlier held stamp := by
  unfold earlier
  grind

theorem earlier_cases (held stamp : ℕ) :
    earlier held stamp = held ∨ earlier held stamp = stamp := by
  unfold earlier
  split
  · exact Or.inr rfl
  · exact Or.inl rfl

theorem earlier_le (held stamp : ℕ) : earlier held stamp ≤ stamp := by
  unfold earlier
  split <;> omega

theorem earlier_le_held {held stamp : ℕ} (stamped : 0 < held) : earlier held stamp ≤ held := by
  unfold earlier
  split <;> omega

theorem earliest_mem {stamps : List ℕ} (some : stamps ≠ []) : earliest stamps ∈ stamps := by
  induction stamps using List.reverseRecOn with
  | nil => exact absurd rfl some
  | append_singleton stamps stamp ih =>
    rw [earliest_concat]
    rcases earlier_cases (earliest stamps) stamp with kept | moved
    · cases stamps with
      | nil => simp
      | cons first rest =>
        rw [kept]
        exact List.mem_append_left _ (ih (by simp))
    · simp [moved]

theorem earliest_le {stamps : List ℕ} (positive : ∀ s ∈ stamps, 0 < s) :
    ∀ s ∈ stamps, earliest stamps ≤ s := by
  induction stamps using List.reverseRecOn with
  | nil => simp
  | append_singleton stamps stamp ih =>
    intro s member
    rw [earliest_concat]
    rcases List.mem_append.mp member with earlierOne | last
    · have stamped : 0 < earliest stamps :=
        positive _ (List.mem_append_left _ (earliest_mem (List.ne_nil_of_mem earlierOne)))
      exact le_trans (earlier_le_held stamped)
        (ih (fun t inside => positive t (List.mem_append_left _ inside)) s earlierOne)
    · rw [List.mem_singleton.mp last]
      exact earlier_le _ _

theorem earliest_eq_zero {stamps : List ℕ} (positive : ∀ s ∈ stamps, 0 < s) :
    earliest stamps = 0 ↔ stamps = [] := by
  constructor
  · intro none
    by_contra some
    have := positive _ (earliest_mem some)
    omega
  · rintro rfl
    rfl

/-- Only the set of the stamps counts. -/
theorem earliest_congr {stamps others : List ℕ} (positive : ∀ s ∈ stamps, 0 < s)
    (same : ∀ s, s ∈ stamps ↔ s ∈ others) : earliest stamps = earliest others := by
  have positive' : ∀ s ∈ others, 0 < s := fun s member => positive s ((same s).mpr member)
  by_cases none : stamps = []
  · have none' : others = [] := List.eq_nil_iff_forall_not_mem.mpr
      (fun s member => by simpa [none] using (same s).mpr member)
    rw [none, none']
  · have none' : others ≠ [] :=
      List.ne_nil_of_mem ((same _).mp (earliest_mem none))
    exact le_antisymm (earliest_le positive _ ((same _).mpr (earliest_mem none')))
      (earliest_le positive' _ ((same _).mp (earliest_mem none)))

end EarliestStamp
