import Mathlib.Order.Iterate

/-!
A walk on the whole numbers towards a target: what every step keeps, every number of
steps keeps, and a step that never stands still short of the target arrives.
-/
namespace Approach
variable {step : Int → Int} {target start : Int}

theorem trapped {P : Int → Prop} (keeps : ∀ n, P n → P (step n)) (here : P start) (k : Nat) :
    P (step^[k] start) := by
  induction k with
  | zero => exact here
  | succ k ih =>
    rw [Function.iterate_succ_apply']
    exact keeps _ ih

theorem descends (falls : ∀ n, target < n → target ≤ step n ∧ step n < n)
    (above : target ≤ start) : ∃ k, step^[k] start = target := by
  obtain ⟨gap, size⟩ : ∃ gap : Nat, start - target = gap :=
    ⟨(start - target).toNat, by omega⟩
  induction gap using Nat.strong_induction_on generalizing start with
  | _ gap ih =>
    by_cases there : start = target
    · exact ⟨0, there⟩
    · have next := falls start (by omega)
      obtain ⟨k, arrived⟩ := ih (step start - target).toNat (by omega) next.1 (by omega)
      exact ⟨k + 1, arrived⟩

theorem climbs (rises : ∀ n, start ≤ n → n < target → n < step n ∧ step n ≤ target)
    (below : start ≤ target) : ∃ k, step^[k] start = target := by
  obtain ⟨gap, size⟩ : ∃ gap : Nat, target - start = gap :=
    ⟨(target - start).toNat, by omega⟩
  induction gap using Nat.strong_induction_on generalizing start with
  | _ gap ih =>
    by_cases there : start = target
    · exact ⟨0, there⟩
    · have next := rises start (by omega) (by omega)
      obtain ⟨k, arrived⟩ := ih (target - step start).toNat (by omega)
        (fun n low => rises n (by omega)) next.2 (by omega)
      exact ⟨k + 1, arrived⟩

end Approach
