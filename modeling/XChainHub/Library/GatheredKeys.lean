import XChainHub.Library.OrderedMap

/-!
Lists whose elements may carry a key: the elements of one key, lists in which they
stand together, and the cuts that leave no key on both sides.
-/
namespace GatheredKeys
variable {α κ : Type}

/-- Between two elements of one key stand only elements of that key. -/
def Gathered (key : α → Option κ) (rows : List α) : Prop :=
  ∀ a m b, [a, m, b].Sublist rows → ∀ k, key a = some k → key b = some k → key m = some k

/-- No key stands on both sides. -/
def Apart (key : α → Option κ) (xs ys : List α) : Prop :=
  ∀ x ∈ xs, ∀ y ∈ ys, ∀ k, key x = some k → key y ≠ some k

section Cuts
variable {key : α → Option κ}

theorem Gathered.sublist {xs ys : List α} (gathered : Gathered key ys) (part : xs.Sublist ys) :
    Gathered key xs := by
  intro a m b three
  exact gathered a m b (three.trans part)

/-- A cut behind an element whose key does not go on leaves no key on both sides. -/
theorem apart_of_cut {xs ys : List α} {last : α} (gathered : Gathered key (xs ++ [last] ++ ys))
    (ends : ∀ k, key last = some k → ∀ y ∈ ys, key y ≠ some k) : Apart key (xs ++ [last]) ys := by
  intro x left y right k first second
  rcases List.mem_append.mp left with before | final
  · have three : [x, last, y].Sublist (xs ++ [last] ++ ys) := by
      have front : [x, last].Sublist (xs ++ [last]) :=
        (List.singleton_sublist.mpr before).append (List.Sublist.refl [last])
      exact front.append (List.singleton_sublist.mpr right)
    have middle := gathered x last y three k first second
    exact ends k middle y right second
  · rw [List.mem_singleton.mp final] at first
    exact ends k first y right second

theorem sublist_behind {a : α} {l xs ys : List α} (part : (a :: l).Sublist (xs ++ ys))
    (absent : a ∉ xs) : (a :: l).Sublist ys := by
  induction xs with
  | nil => exact part
  | cons x rest ih =>
    rw [List.cons_append] at part
    cases part with
    | cons _ skipped => exact ih skipped (fun member => absent (List.mem_cons_of_mem x member))
    | cons_cons _ _ => exact absurd List.mem_cons_self absent

end Cuts

variable [DecidableEq κ]

def ofKey (key : α → Option κ) (k : κ) (rows : List α) : List α :=
  rows.filter (fun r => key r = some k)

variable {key : α → Option κ}

@[simp] theorem of_key_nil (k : κ) : ofKey key k [] = [] := rfl

theorem mem_of_key {k : κ} {rows : List α} {r : α} :
    r ∈ ofKey key k rows ↔ r ∈ rows ∧ key r = some k := by
  simp [ofKey]

theorem of_key_append (k : κ) (xs ys : List α) :
    ofKey key k (xs ++ ys) = ofKey key k xs ++ ofKey key k ys := List.filter_append xs ys

theorem of_key_none {k : κ} {rows : List α} (absent : ∀ r ∈ rows, key r ≠ some k) :
    ofKey key k rows = [] := by
  apply List.filter_eq_nil_iff.mpr
  intro r member
  simpa using absent r member

theorem Apart.of_key_left {xs ys : List α} (apart : Apart key xs ys) {x : α} (member : x ∈ xs)
    {k : κ} (keyed : key x = some k) : ofKey key k (xs ++ ys) = ofKey key k xs := by
  have none_right : ofKey key k ys = [] := by
    apply of_key_none
    intro y other
    exact apart x member y other k keyed
  rw [of_key_append, none_right, List.append_nil]

theorem Apart.of_key_right {xs ys : List α} (apart : Apart key xs ys) {y : α} (member : y ∈ ys)
    {k : κ} (keyed : key y = some k) : ofKey key k (xs ++ ys) = ofKey key k ys := by
  have none_left : ofKey key k xs = [] := by
    apply of_key_none
    intro x other same
    exact apart x other y member k same keyed
  rw [of_key_append, none_left, List.nil_append]

/-- The elements of one key in one gathered part of a list are gathered in the list. -/
theorem gathered_of_parts {parts : List (List α)}
    (own : ∀ part ∈ parts, Gathered key part)
    (whole : ∀ part ∈ parts, ∀ r ∈ part, ∀ k, key r = some k →
      ofKey key k part = ofKey key k parts.flatten) : Gathered key parts.flatten := by
  intro a m b three k first last
  have listed : a ∈ parts.flatten := three.subset (by simp)
  obtain ⟨part, among, member⟩ := List.mem_flatten.mp listed
  obtain ⟨before, after, split⟩ := List.append_of_mem among
  have same := whole part among a member k first
  rw [split, List.flatten_append, List.flatten_cons, of_key_append, of_key_append] at same
  have lengths := congrArg List.length same
  simp only [List.length_append] at lengths
  have no_front : ofKey key k before.flatten = [] := List.length_eq_zero_iff.mp (by omega)
  have no_back : ofKey key k after.flatten = [] := List.length_eq_zero_iff.mp (by omega)
  have inside : [a, m, b].Sublist part := by
    rw [split, List.flatten_append, List.flatten_cons] at three
    have front : [a, m, b].Sublist (part ++ after.flatten) := by
      apply sublist_behind three
      intro early
      have held : a ∈ ofKey key k before.flatten := mem_of_key.mpr ⟨early, first⟩
      simp [no_front] at held
    -- The same from the other end.
    have back : [b, m, a].Sublist (after.flatten.reverse ++ part.reverse) := by
      simpa using front.reverse
    have kept : [b, m, a].Sublist part.reverse := by
      apply sublist_behind back
      intro late
      have held : b ∈ ofKey key k after.flatten :=
        mem_of_key.mpr ⟨List.mem_reverse.mp late, last⟩
      simp [no_back] at held
    simpa using kept.reverse
  exact own part among a m b inside k first last

end GatheredKeys
