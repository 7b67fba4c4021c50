import Mathlib.Data.Nat.Basic

/-!
A fence of one stored bound: it stands against everything of at most its generation
from its lower index on. A bound of a higher generation replaces it, one of the same
generation widens it, an older one leaves it.
-/
namespace GenerationFence

structure Bound where
  generation : ℕ
  lower : ℕ
  deriving DecidableEq

def Bound.Covers (b : Bound) (generation index : ℕ) : Prop :=
  generation ≤ b.generation ∧ b.lower ≤ index

instance (b : Bound) (generation index : ℕ) : Decidable (b.Covers generation index) :=
  inferInstanceAs (Decidable (_ ∧ _))

theorem Bound.covers_trans {a b : Bound} {generation index : ℕ}
    (wider : a.Covers b.generation b.lower) (covered : b.Covers generation index) :
    a.Covers generation index :=
  ⟨Nat.le_trans covered.1 wider.1, Nat.le_trans wider.2 covered.2⟩

def raise (held : Option Bound) (b : Bound) : Bound :=
  match held with
  | none => b
  | some h =>
    if h.generation < b.generation then b
    else if h.generation = b.generation then ⟨h.generation, min h.lower b.lower⟩
    else h

/- The stronger of two fences: the higher generation, and at a tie the wider one. -/
def stricter : Option Bound → Option Bound → Option Bound
  | none, b => b
  | some a, none => some a
  | some a, some b =>
    some (if a.generation < b.generation ∨ a.generation = b.generation ∧ b.lower < a.lower then b else a)

/-- A fence never holds a bound that nobody set. -/
theorem raise_cases (held : Option Bound) (b : Bound) :
    raise held b = b ∨ held = some (raise held b) := by
  cases held with
  | none => exact Or.inl rfl
  | some h =>
    simp only [raise]
    split
    · exact Or.inl rfl
    · split
      · rename_i same
        rcases Nat.le_total h.lower b.lower with low | low
        · rw [Nat.min_eq_left low]
          exact Or.inr rfl
        · rw [Nat.min_eq_right low, same]
          exact Or.inl rfl
      · exact Or.inr rfl

theorem stricter_cases {a b : Option Bound} {c : Bound} (held : stricter a b = some c) :
    a = some c ∨ b = some c := by
  cases a with
  | none => exact Or.inr held
  | some x =>
    cases b with
    | none => exact Or.inl held
    | some y =>
      simp only [stricter, Option.some.injEq] at held
      split at held
      · exact Or.inr (by rw [held])
      · exact Or.inl (by rw [held])

end GenerationFence
