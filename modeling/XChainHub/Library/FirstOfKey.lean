import Mathlib.Data.List.Basic

/-!
The elements of a list whose key is new, and those whose key was met before. The keys that
are met before the list is read are given.
-/
namespace FirstOfKey
variable {α κ : Type} [DecidableEq κ] (key : α → κ)

def firsts : List κ → List α → List α
  | _, [] => []
  | seen, a :: as => if key a ∈ seen then firsts seen as else a :: firsts (key a :: seen) as

def repeats : List κ → List α → List α
  | _, [] => []
  | seen, a :: as => if key a ∈ seen then a :: repeats seen as else repeats (key a :: seen) as

variable {key}

theorem first_or_repeat {seen : List κ} {as : List α} {a : α} :
    a ∈ as ↔ a ∈ firsts key seen as ∨ a ∈ repeats key seen as := by
  induction as generalizing seen with
  | nil => simp [firsts, repeats]
  | cons b as ih =>
    simp only [firsts, repeats]
    split
    · rw [List.mem_cons, List.mem_cons, @ih seen]
      tauto
    · rw [List.mem_cons, List.mem_cons, @ih (key b :: seen)]
      tauto

/-- Elements of keys that are met add nothing. -/
theorem firsts_met {seen : List κ} {front back : List α} (met : ∀ a ∈ front, key a ∈ seen) :
    firsts key seen (front ++ back) = firsts key seen back := by
  induction front with
  | nil => rfl
  | cons a front ih =>
    rw [List.cons_append, firsts, if_pos (met a List.mem_cons_self)]
    exact ih (fun b member => met b (List.mem_cons_of_mem a member))

/-- The keys that are met count as a set. -/
theorem firsts_congr {seen others : List κ} (same : ∀ k, k ∈ seen ↔ k ∈ others) (as : List α) :
    firsts key seen as = firsts key others as := by
  induction as generalizing seen others with
  | nil => rfl
  | cons a as ih =>
    have extended : ∀ k, k ∈ key a :: seen ↔ k ∈ key a :: others := by
      intro k
      rw [List.mem_cons, List.mem_cons, same]
    simp only [firsts, same, ih same, ih extended]

end FirstOfKey
