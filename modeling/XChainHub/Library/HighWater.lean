import Mathlib.Order.Lattice
import Mathlib.Data.List.Induction

/-!
Readings of a rising quantity, each with the time it was first met, and the newest one that
is old enough. Readings before one that every later question finds old enough can go.
-/
namespace HighWater

structure Mark (T H : Type) where
  time : T
  height : H
  deriving DecidableEq

variable {T H : Type}

section Times
variable [LinearOrder T] {marks : List (Mark T H)} {cutoff limit : T} {h : H}

def newest (marks : List (Mark T H)) (cutoff : T) : Option H :=
  (marks.reverse.find? (fun m => m.time ≤ cutoff)).map Mark.height

def dropSettled (limit : T) : List (Mark T H) → List (Mark T H)
  | a :: b :: rest => if b.time ≤ limit then dropSettled limit (b :: rest) else a :: b :: rest
  | marks => marks

@[simp] theorem newest_nil : newest ([] : List (Mark T H)) cutoff = none := rfl

theorem newest_concat (marks : List (Mark T H)) (m : Mark T H) (cutoff : T) :
    newest (marks ++ [m]) cutoff = if m.time ≤ cutoff then some m.height else newest marks cutoff := by
  by_cases old : m.time ≤ cutoff <;> simp [newest, old]

theorem newest_cons (a : Mark T H) (rest : List (Mark T H)) (cutoff : T) :
    newest (a :: rest) cutoff =
      (newest rest cutoff).or (if a.time ≤ cutoff then some a.height else none) := by
  rw [newest, newest, List.reverse_cons, List.find?_append]
  by_cases old : a.time ≤ cutoff <;>
    cases rest.reverse.find? (fun m => m.time ≤ cutoff) <;> simp [old]

theorem newest_mem (found : newest marks cutoff = some h) :
    ∃ m ∈ marks, m.height = h ∧ m.time ≤ cutoff := by
  obtain ⟨m, hit, rfl⟩ := Option.map_eq_some_iff.mp found
  exact ⟨m, List.mem_reverse.mp (List.mem_of_find?_eq_some hit), rfl, by simpa using List.find?_some hit⟩

theorem drop_settled_suffix (limit : T) (marks : List (Mark T H)) :
    dropSettled limit marks <:+ marks := by
  induction marks with
  | nil => exact List.suffix_refl _
  | cons a rest ih =>
    cases rest with
    | nil => exact List.suffix_refl _
    | cons b rest =>
      rw [dropSettled]
      split
      · exact ih.trans (List.suffix_cons a _)
      · exact List.suffix_refl _

theorem drop_settled_nonempty (some' : marks ≠ []) : dropSettled limit marks ≠ [] := by
  induction marks with
  | nil => exact some'
  | cons a rest ih =>
    cases rest with
    | nil => exact some'
    | cons b rest =>
      rw [dropSettled]
      split
      · exact ih (by simp)
      · exact some'

/-- What goes is never the newest reading of a later question. -/
theorem newest_drop (marks : List (Mark T H)) (asked : limit ≤ cutoff) :
    newest (dropSettled limit marks) cutoff = newest marks cutoff := by
  induction marks with
  | nil => rfl
  | cons a rest ih =>
    cases rest with
    | nil => rfl
    | cons b rest =>
      rw [dropSettled]
      split
      · rename_i settled
        have hit : (newest (b :: rest) cutoff).isSome = true := by
          rw [newest, Option.isSome_map, List.find?_isSome]
          exact ⟨b, List.mem_reverse.mpr List.mem_cons_self, decide_eq_true (le_trans settled asked)⟩
        obtain ⟨h, found⟩ := Option.isSome_iff_exists.mp hit
        rw [ih, newest_cons a, found, Option.some_or]
      · rfl

end Times

section Heights
variable [LinearOrder H]

/- Only an advance is recorded. -/
def raise (marks : List (Mark T H)) (m : Mark T H) : List (Mark T H) :=
  match marks.getLast? with
  | some top => if m.height ≤ top.height then marks else marks ++ [m]
  | none => [m]

theorem raise_cases (marks : List (Mark T H)) (m : Mark T H) :
    raise marks m = marks ∨ raise marks m = marks ++ [m] ∧ ∀ top ∈ marks.getLast?, top.height < m.height := by
  unfold raise
  split
  · rename_i top last
    split
    · exact Or.inl rfl
    · rename_i above
      refine Or.inr ⟨rfl, ?_⟩
      rintro other same
      rw [last, Option.mem_def, Option.some.injEq] at same
      rw [← same]
      exact lt_of_not_ge above
  · rename_i empty
    rw [List.getLast?_eq_none_iff] at empty
    rw [empty]
    exact Or.inr ⟨rfl, by simp⟩

end Heights

section Rising
variable [LinearOrder T] [LinearOrder H] {marks : List (Mark T H)} {m : Mark T H} {cutoff : T} {h : H}

def Rising (marks : List (Mark T H)) : Prop :=
  marks.Pairwise (fun a b => a.time ≤ b.time ∧ a.height < b.height)

/-- The newest reading is at least as high as any that is old enough. -/
theorem newest_ge (rising : Rising marks) (member : m ∈ marks) (old : m.time ≤ cutoff) :
    ∃ h, newest marks cutoff = some h ∧ m.height ≤ h := by
  induction marks using List.reverseRecOn with
  | nil => exact absurd member List.not_mem_nil
  | append_singleton front top ih =>
    obtain ⟨before, -, below⟩ := List.pairwise_append.mp rising
    rw [newest_concat]
    split
    · refine ⟨top.height, rfl, ?_⟩
      rcases List.mem_append.mp member with early | last
      · exact le_of_lt (below m early top (List.mem_singleton_self _)).2
      · rw [List.mem_singleton.mp last]
    · rename_i recent
      rcases List.mem_append.mp member with early | last
      · exact ih before early
      · rw [List.mem_singleton.mp last] at old
        exact absurd old recent

theorem newest_mono {more : List (Mark T H)} {later : T} (rising : Rising more)
    (grown : ∀ m ∈ marks, m ∈ more) (passes : cutoff ≤ later) (found : newest marks cutoff = some h) :
    ∃ h', newest more later = some h' ∧ h ≤ h' := by
  obtain ⟨m, member, rfl, old⟩ := newest_mem found
  exact newest_ge rising (grown m member) (le_trans old passes)

theorem rising_concat (rising : Rising marks) (later : ∀ a ∈ marks, a.time ≤ m.time)
    (above : ∀ top ∈ marks.getLast?, top.height < m.height) : Rising (marks ++ [m]) := by
  refine List.pairwise_append.mpr ⟨rising, List.pairwise_singleton _ _, ?_⟩
  intro a member b single
  rw [List.mem_singleton] at single
  rw [single]
  refine ⟨later a member, ?_⟩
  induction marks using List.reverseRecOn with
  | nil => exact absurd member List.not_mem_nil
  | append_singleton front top _ =>
    have less : top.height < m.height := above top (by simp)
    rcases List.mem_append.mp member with early | last
    · exact lt_trans ((List.pairwise_append.mp rising).2.2 a early top (List.mem_singleton_self _)).2 less
    · rw [List.mem_singleton.mp last]
      exact less

end Rising
end HighWater
