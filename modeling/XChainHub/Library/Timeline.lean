import Mathlib.Data.List.Sort

/-!
Entries kept in ascending order of distinct dates. An entry placed on a held date replaces
the one there, and what is read up to a date is what was placed no later.
-/
namespace Timeline
variable {α : Type} (date : α → ℕ)

def Ascending (line : List α) : Prop := line.Pairwise (fun a b => date a < date b)

def sortDates (line : List α) : List α := line.insertionSort (fun a b => date a ≤ date b)

def place (line : List α) (a : α) : List α :=
  if line.any (fun b => date b = date a) then line.map (fun b => if date b = date a then a else b)
  else sortDates date (line ++ [a])

def entryAt (line : List α) (d : ℕ) : Option α := line.find? (fun a => date a = d)

/- What a loop over the line has seen when it meets the first later date. -/
def upTo (line : List α) (d : ℕ) : List α := line.takeWhile (fun a => date a ≤ d)

variable {date}

theorem sort_dates_perm (line : List α) : (sortDates date line).Perm line :=
  List.perm_insertionSort _ _

theorem sort_dates_ordered (line : List α) :
    (sortDates date line).Pairwise (fun a b => date a ≤ date b) := by
  have : Std.Total (fun a b : α => date a ≤ date b) := ⟨fun a b => Nat.le_total _ _⟩
  have : IsTrans α (fun a b : α => date a ≤ date b) := ⟨fun a b c => Nat.le_trans⟩
  exact List.pairwise_insertionSort _ line

theorem ascending_iff {line : List α} :
    Ascending date line ↔ line.Pairwise (fun a b => date a ≤ date b) ∧ (line.map date).Nodup := by
  rw [List.Nodup, List.pairwise_map, ← List.pairwise_and_iff]
  exact ⟨fun up => up.imp (fun less => ⟨Nat.le_of_lt less, Nat.ne_of_lt less⟩),
    fun both => both.imp (fun p => Nat.lt_of_le_of_ne p.1 p.2)⟩

theorem place_ascending {line : List α} (up : Ascending date line) (a : α) :
    Ascending date (place date line a) := by
  unfold place
  split
  · unfold Ascending
    rw [List.pairwise_map]
    refine up.imp (fun less => ?_)
    split <;> split <;> omega
  · rename_i absent
    rw [Bool.not_eq_true, List.any_eq_false] at absent
    refine ascending_iff.mpr ⟨sort_dates_ordered _, ?_⟩
    rw [((sort_dates_perm (line ++ [a])).map date).nodup_iff, List.map_append]
    refine List.nodup_append.mpr ⟨(ascending_iff.mp up).2, List.nodup_singleton _, ?_⟩
    intro d member e single same
    obtain ⟨b, held, rfl⟩ := List.mem_map.mp member
    rw [List.map_cons, List.map_nil, List.mem_singleton] at single
    exact absent b held (decide_eq_true (same.trans single))

/-- Under distinct dates the entry of a date is the one member that has it. -/
theorem entry_at_iff {line : List α} (up : Ascending date line) {d : ℕ} {a : α} :
    entryAt date line d = some a ↔ a ∈ line ∧ date a = d := by
  constructor
  · intro found
    exact ⟨List.mem_of_find?_eq_some found, by simpa using List.find?_some found⟩
  · rintro ⟨member, rfl⟩
    cases found : entryAt date line (date a) with
    | none => exact absurd (List.find?_eq_none.mp found a member) (by simp)
    | some b =>
      have same : date b = date a := by simpa using List.find?_some found
      rw [List.inj_on_of_nodup_map (ascending_iff.mp up).2 (List.mem_of_find?_eq_some found) member same]

theorem mem_place {line : List α} {a b : α} :
    b ∈ place date line a ↔ b = a ∨ b ∈ line ∧ date b ≠ date a := by
  unfold place
  split
  · rename_i present
    obtain ⟨c, held, same⟩ := List.any_eq_true.mp present
    rw [decide_eq_true_eq] at same
    rw [List.mem_map]
    constructor
    · rintro ⟨e, old, rfl⟩
      split
      · exact Or.inl rfl
      · rename_i apart
        exact Or.inr ⟨old, apart⟩
    · rintro (rfl | ⟨old, apart⟩)
      · exact ⟨c, held, if_pos same⟩
      · exact ⟨b, old, if_neg apart⟩
  · rename_i absent
    rw [Bool.not_eq_true, List.any_eq_false] at absent
    rw [(sort_dates_perm _).mem_iff, List.mem_append, List.mem_singleton]
    constructor
    · rintro (old | rfl)
      · exact Or.inr ⟨old, fun same => absent b old (decide_eq_true same)⟩
      · exact Or.inl rfl
    · rintro (rfl | ⟨old, -⟩)
      · exact Or.inr rfl
      · exact Or.inl old

theorem entry_at_place_same {line : List α} (up : Ascending date line) (a : α) :
    entryAt date (place date line a) (date a) = some a :=
  (entry_at_iff (place_ascending up a)).mpr ⟨mem_place.mpr (Or.inl rfl), rfl⟩

theorem entry_at_place_other {line : List α} (up : Ascending date line) {a : α} {d : ℕ}
    (other : date a ≠ d) : entryAt date (place date line a) d = entryAt date line d := by
  ext b
  rw [entry_at_iff (place_ascending up a), entry_at_iff up, mem_place]
  constructor
  · rintro ⟨rfl | ⟨old, -⟩, same⟩
    · exact absurd same other
    · exact ⟨old, same⟩
  · rintro ⟨old, rfl⟩
    exact ⟨Or.inr ⟨old, Ne.symm other⟩, rfl⟩

theorem entry_at_later {a : α} {rest : List α} (up : Ascending date (a :: rest)) {d : ℕ}
    (below : d < date a) : entryAt date (a :: rest) d = none := by
  refine List.find?_eq_none.mpr (fun b member => ?_)
  rcases List.mem_cons.mp member with rfl | later
  · simp [Nat.ne_of_gt below]
  · have less := (List.pairwise_cons.mp up).1 b later
    simp [Nat.ne_of_gt (Nat.lt_trans below less)]

theorem up_to_first {a : α} {rest : List α} (up : Ascending date (a :: rest)) :
    upTo date rest (date a) = [] := by
  cases rest with
  | nil => rfl
  | cons b more =>
    have beyond : ¬date b ≤ date a := Nat.not_le_of_lt ((List.pairwise_cons.mp up).1 b List.mem_cons_self)
    simp [upTo, beyond]

theorem up_to_cons (a : α) (rest : List α) (d : ℕ) :
    upTo date (a :: rest) d = if date a ≤ d then a :: upTo date rest d else [] := by
  simp only [upTo, List.takeWhile_cons, decide_eq_true_eq]

theorem entry_at_cons (a : α) (rest : List α) (d : ℕ) :
    entryAt date (a :: rest) d = if date a = d then some a else entryAt date rest d := by
  by_cases same : date a = d <;> simp [entryAt, same]

theorem up_to_zero {line : List α} (up : Ascending date line) :
    upTo date line 0 = (entryAt date line 0).toList := by
  cases line with
  | nil => rfl
  | cons a rest =>
    have none' := up_to_first up
    rw [up_to_cons, entry_at_cons]
    by_cases first : date a = 0
    · rw [first] at none'
      rw [if_pos first, if_pos (Nat.le_of_eq first), none', Option.toList_some]
    · have never := entry_at_later up (Nat.pos_of_ne_zero first)
      rw [entry_at_cons, if_neg first] at never
      rw [if_neg first, if_neg (fun low => first (Nat.le_zero.mp low)), never]
      rfl

/-- One more date shows at most the entry on it. -/
theorem up_to_succ {line : List α} (up : Ascending date line) (d : ℕ) :
    upTo date line (d + 1) = upTo date line d ++ (entryAt date line (d + 1)).toList := by
  induction line with
  | nil => rfl
  | cons a rest ih =>
    have step := ih (List.pairwise_cons.mp up).2
    have none' := up_to_first up
    rcases Nat.lt_trichotomy (date a) (d + 1) with less | same | more
    · rw [up_to_cons, up_to_cons, entry_at_cons, if_pos (Nat.le_of_lt less),
        if_pos (Nat.le_of_lt_succ less), if_neg (Nat.ne_of_lt less), step, List.cons_append]
    · rw [same] at none'
      rw [up_to_cons, up_to_cons, entry_at_cons, if_pos (Nat.le_of_eq same), if_pos same,
        if_neg (by omega), none']
      rfl
    · rw [entry_at_later up more, up_to_cons, up_to_cons, if_neg (by omega), if_neg (by omega)]
      rfl

end Timeline
