import Mathlib.Data.List.Basic

/-!
A heap of awaited calls. A call keeps its slot for life, and a settled one leaves its
slot empty.
-/
namespace SlotHeap
variable {A : Type} {heap : List (Option A)} {n m : ℕ} {a b : A} {x : Option A}

def slotAt (heap : List (Option A)) (n : ℕ) : Option A := heap[n]?.join

@[simp] theorem slot_nil : slotAt ([] : List (Option A)) n = none := by
  simp [slotAt]

theorem slot_inside (held : slotAt heap n = some a) : n < heap.length := by
  by_contra outside
  rw [slotAt, List.getElem?_eq_none (Nat.le_of_not_lt outside)] at held
  exact absurd held (by simp)

theorem slot_set_same (held : slotAt heap n = some a) : slotAt (heap.set n x) n = x := by
  rw [slotAt, List.getElem?_set_self (slot_inside held), Option.join_some]

theorem slot_set_other (apart : m ≠ n) : slotAt (heap.set n x) m = slotAt heap m := by
  rw [slotAt, List.getElem?_set_ne (Ne.symm apart), slotAt]

/-- A slot of the heap with one slot written is that slot or an old one. -/
theorem slot_set_cases (held : slotAt heap n = some a) (found : slotAt (heap.set n x) m = some b) :
    m = n ∧ x = some b ∨ m ≠ n ∧ slotAt heap m = some b := by
  by_cases same : m = n
  · rw [same, slot_set_same held] at found
    exact Or.inl ⟨same, found⟩
  · rw [slot_set_other same] at found
    exact Or.inr ⟨same, found⟩

theorem slot_push_old (held : slotAt heap m = some b) : slotAt (heap ++ [some a]) m = some b := by
  rw [slotAt, List.getElem?_append_left (slot_inside held)]
  exact held

theorem slot_push_cases (found : slotAt (heap ++ [some a]) m = some b) :
    slotAt heap m = some b ∨ b = a := by
  by_cases inside : m < heap.length
  · rw [slotAt, List.getElem?_append_left inside] at found
    exact Or.inl found
  · rw [slotAt, List.getElem?_append_right (Nat.le_of_not_lt inside)] at found
    cases at' : m - heap.length with
    | zero =>
      rw [at', List.getElem?_cons_zero, Option.join_some, Option.some.injEq] at found
      exact Or.inr found.symm
    | succ k => simp [at'] at found

/-- A slot of the grown heap is an old one or the new one, at its end. -/
theorem slot_push_iff :
    slotAt (heap ++ [some a]) m = some b ↔ slotAt heap m = some b ∨ m = heap.length ∧ b = a := by
  constructor
  · intro found
    by_cases inside : m < heap.length
    · rw [slotAt, List.getElem?_append_left inside] at found
      exact Or.inl found
    · have last : m = heap.length := by
        have bound := slot_inside found
        rw [List.length_append, List.length_singleton] at bound
        omega
      rcases slot_push_cases found with old | same
      · exact absurd (slot_inside old) inside
      · exact Or.inr ⟨last, same⟩
  · rintro (old | ⟨rfl, rfl⟩)
    · exact slot_push_old old
    · simp [slotAt]

/-- Every call that is still awaited. -/
def Every (T : A → Prop) (heap : List (Option A)) : Prop := ∀ n a, slotAt heap n = some a → T a

variable {T : A → Prop}

theorem every_nil : Every T [] := by
  intro n a held
  simp at held

theorem every_done (done : ∀ x ∈ heap, x = none) : Every T heap := by
  intro n a held
  simp only [slotAt, Option.join_eq_some_iff] at held
  exact absurd (done _ (List.mem_of_getElem? held)) (by simp)

theorem every_push (each : Every T heap) (new : T a) : Every T (heap ++ [some a]) := by
  intro m b found
  rcases slot_push_cases found with old | same
  · exact each m b old
  · exact same ▸ new

theorem every_set (each : Every T heap) (held : slotAt heap n = some a)
    (new : ∀ b, x = some b → T b) : Every T (heap.set n x) := by
  intro m b found
  rcases slot_set_cases held found with ⟨-, same⟩ | ⟨-, old⟩
  · exact new b same
  · exact each m b old

theorem every_weaken {U : A → Prop} (weaker : ∀ a, T a → U a) (each : Every T heap) :
    Every U heap :=
  fun n a held => weaker a (each n a held)

end SlotHeap
