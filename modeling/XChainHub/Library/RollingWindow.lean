import Mathlib.Data.List.Basic
import Mathlib.Algebra.Order.Group.Int

/-!
Amounts with the time each was entered, and how much of them lies behind a cutoff.
A book covers a debt from some time on when it holds at least as much as the debt
behind every later cutoff; what a window drops at its old end is behind none of them.
-/
namespace RollingWindow
variable {A B : Type}

section Amounts
variable (time : A → Int) (amount : A → Int)

def part (cutoff : Int) (x : A) : Int := if cutoff < time x then amount x else 0

def after (cutoff : Int) : List A → Int
  | [] => 0
  | x :: xs => part time amount cutoff x + after cutoff xs

def total : List A → Int
  | [] => 0
  | x :: xs => amount x + total xs

variable {time amount} {cutoff later : Int} {x : A} {xs ys : List A}

@[simp] theorem after_nil : after time amount cutoff [] = 0 := rfl

@[simp] theorem after_append :
    after time amount cutoff (xs ++ ys) = after time amount cutoff xs + after time amount cutoff ys := by
  induction xs with
  | nil => simp
  | cons x xs ih =>
    simp only [List.cons_append, after, ih]
    omega

@[simp] theorem after_singleton : after time amount cutoff [x] = part time amount cutoff x := by
  simp [after]

theorem part_nonneg (positive : 0 ≤ amount x) : 0 ≤ part time amount cutoff x := by
  unfold part
  split <;> omega

theorem part_le_amount (positive : 0 ≤ amount x) : part time amount cutoff x ≤ amount x := by
  unfold part
  split <;> omega

theorem part_antitone (positive : 0 ≤ amount x) (order : cutoff ≤ later) :
    part time amount later x ≤ part time amount cutoff x := by
  unfold part
  split <;> split <;> omega

theorem part_le_part {y : A} (same : time x = time y) (less : amount x ≤ amount y) :
    part time amount cutoff x ≤ part time amount cutoff y := by
  unfold part
  rw [same]
  split
  · exact less
  · exact le_refl _

theorem part_old (old : time x ≤ cutoff) : part time amount cutoff x = 0 :=
  if_neg (by omega)

theorem after_nonneg (positive : ∀ x ∈ xs, 0 ≤ amount x) : 0 ≤ after time amount cutoff xs := by
  induction xs with
  | nil => simp
  | cons x xs ih =>
    have head := @part_nonneg _ time _ cutoff _ (positive x (by simp))
    have tail := ih fun y member => positive y (by simp [member])
    simp only [after]
    omega

theorem after_antitone (positive : ∀ x ∈ xs, 0 ≤ amount x) (order : cutoff ≤ later) :
    after time amount later xs ≤ after time amount cutoff xs := by
  induction xs with
  | nil => simp
  | cons x xs ih =>
    have head := @part_antitone _ time _ _ _ _ (positive x (by simp)) order
    have tail := ih fun y member => positive y (by simp [member])
    simp only [after]
    omega

theorem after_old (old : ∀ x ∈ xs, time x ≤ cutoff) : after time amount cutoff xs = 0 := by
  induction xs with
  | nil => rfl
  | cons x xs ih =>
    simp only [after, part_old (old x (by simp)), zero_add]
    exact ih fun y member => old y (by simp [member])

theorem after_le_total (positive : ∀ x ∈ xs, 0 ≤ amount x) :
    after time amount cutoff xs ≤ total amount xs := by
  induction xs with
  | nil => simp [total]
  | cons x xs ih =>
    have head := positive x (by simp)
    have tail := ih fun y member => positive y (by simp [member])
    simp only [after, total, part]
    split <;> omega

theorem member_le_total (positive : ∀ x ∈ xs, 0 ≤ amount x) (member : x ∈ xs) :
    amount x ≤ total amount xs := by
  induction xs with
  | nil => cases member
  | cons y ys ih =>
    have head := positive y (by simp)
    have rest : ∀ z ∈ ys, 0 ≤ amount z := fun z h => positive z (by simp [h])
    have tail := @after_nonneg _ (fun _ => 1) _ 0 _ rest
    have bound := @after_le_total _ (fun _ => 1) _ 0 _ rest
    simp only [total]
    rcases List.mem_cons.mp member with rfl | later
    · omega
    · have := ih rest later
      omega

theorem after_perm (same : xs.Perm ys) : after time amount cutoff xs = after time amount cutoff ys := by
  induction same with
  | nil => rfl
  | cons x _ ih => simp only [after, ih]
  | swap x y _ =>
    simp only [after]
    omega
  | trans _ _ first second => exact first.trans second

/-- An entry put in the place of another changes the amount by their difference. -/
theorem after_set {k : Nat} (found : xs[k]? = some x) (y : A) :
    after time amount cutoff (xs.set k y) + part time amount cutoff x =
      after time amount cutoff xs + part time amount cutoff y := by
  induction xs generalizing k with
  | nil => simp at found
  | cons z zs ih =>
    cases k with
    | zero =>
      simp only [List.getElem?_cons_zero, Option.some.injEq] at found
      subst found
      simp only [List.set_cons_zero, after]
      omega
    | succ k =>
      have tail := ih (by simpa using found)
      simp only [List.set_cons_succ, after]
      omega

end Amounts

section Window
variable (time : A → Int)

/- The oldest entries go while they are not past the limit. -/
def prune (limit : Int) (xs : List A) : List A := xs.dropWhile (time · ≤ limit)

variable {time} {amount : A → Int} {limit cutoff : Int} {x : A} {xs : List A}

theorem prune_subset (member : x ∈ prune time limit xs) : x ∈ xs :=
  List.dropWhile_subset _ member

theorem after_prune (order : limit ≤ cutoff) :
    after time amount cutoff (prune time limit xs) = after time amount cutoff xs := by
  induction xs with
  | nil => rfl
  | cons x xs ih =>
    unfold prune
    rw [List.dropWhile_cons]
    split
    · rename_i old
      have gone : part time amount cutoff x = 0 := part_old (by simp at old; omega)
      rw [after, gone, zero_add]
      exact ih
    · rfl

theorem member_prune (member : x ∈ xs) (young : limit < time x) : x ∈ prune time limit xs := by
  induction xs with
  | nil => cases member
  | cons y ys ih =>
    unfold prune
    rw [List.dropWhile_cons]
    split
    · rename_i old
      rcases List.mem_cons.mp member with rfl | later
      · simp at old
        omega
      · exact ih later
    · exact member

/-- The first entry found is taken out, with its own part. -/
theorem after_eraseP {p : A → Bool} (found : ∃ x ∈ xs, p x) :
    ∃ x ∈ xs, p x ∧ ∀ cutoff,
      after time amount cutoff (xs.eraseP p) + part time amount cutoff x =
        after time amount cutoff xs := by
  obtain ⟨x, member, hit⟩ := found
  obtain ⟨y, front, back, _, py, split, erased⟩ := List.exists_of_eraseP member hit
  refine ⟨y, by simp [split], py, ?_⟩
  intro cutoff
  rw [erased, split]
  simp only [after_append, after]
  omega

end Window

section Cover
variable (timeA amountA : A → Int) (timeB amountB : B → Int)

def Covers (since : Int) (debt : List A) (book : List B) : Prop :=
  ∀ cutoff, since ≤ cutoff → after timeA amountA cutoff debt ≤ after timeB amountB cutoff book

variable {timeA amountA timeB amountB} {since : Int} {debt : List A} {book : List B}

theorem Covers.later {limit : Int} (covers : Covers timeA amountA timeB amountB since debt book)
    (order : since ≤ limit) : Covers timeA amountA timeB amountB limit debt book :=
  fun cutoff bound => covers cutoff (by omega)

theorem Covers.prune {limit : Int} (covers : Covers timeA amountA timeB amountB since debt book)
    (order : since ≤ limit) :
    Covers timeA amountA timeB amountB limit debt (prune timeB limit book) := by
  intro cutoff bound
  rw [after_prune bound]
  exact covers cutoff (by omega)

/-- A debt entered in the book at its own time and amount. -/
theorem Covers.enter {a : A} {b : B} (covers : Covers timeA amountA timeB amountB since debt book)
    (same : ∀ cutoff, part timeA amountA cutoff a ≤ part timeB amountB cutoff b) :
    Covers timeA amountA timeB amountB since (debt ++ [a]) (book ++ [b]) := by
  intro cutoff bound
  simp only [after_append, after_singleton]
  have old := covers cutoff bound
  have new := same cutoff
  omega

/-- An entry that no debt stands for. -/
theorem Covers.extra {b : B} (covers : Covers timeA amountA timeB amountB since debt book)
    (positive : 0 ≤ amountB b) :
    Covers timeA amountA timeB amountB since debt (book ++ [b]) := by
  intro cutoff bound
  have old := covers cutoff bound
  have new := @part_nonneg _ timeB _ cutoff _ positive
  simp only [after_append, after_singleton]
  omega

end Cover
end RollingWindow
