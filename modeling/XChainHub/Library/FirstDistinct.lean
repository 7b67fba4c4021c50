import Mathlib.Data.Finset.Card

/-!
How many different keys a list carries, and where the n-th different one stands.
-/
namespace FirstDistinct

variable {α κ : Type} [DecidableEq κ] (key : α → κ)

def distinct (l : List α) : ℕ := (l.map key).dedup.length

theorem distinct_eq_card (l : List α) : distinct key l = (l.map key).toFinset.card :=
  (List.card_toFinset _).symm

theorem distinct_le_of_subset {l m : List α} (subset : l ⊆ m) : distinct key l ≤ distinct key m := by
  rw [distinct_eq_card, distinct_eq_card]
  refine Finset.card_le_card fun k member => ?_
  rw [List.mem_toFinset] at member ⊢
  exact List.map_subset key subset member

theorem distinct_concat (l : List α) (v : α) :
    distinct key (l ++ [v]) = distinct key l + if key v ∈ l.map key then 0 else 1 := by
  have whole : ((l ++ [v]).map key).toFinset = insert (key v) (l.map key).toFinset := by
    ext k
    simp
  rw [distinct_eq_card, distinct_eq_card, whole]
  split
  · rename_i seen
    rw [Finset.insert_eq_self.mpr (List.mem_toFinset.mpr seen), Nat.add_zero]
  · rename_i new
    exact Finset.card_insert_of_notMem fun member => new (List.mem_toFinset.mp member)

/- A sublist that keeps one entry a key has as many entries as there are keys. -/
theorem exists_apart (l : List α) : ∃ team : List α, team.Sublist l ∧
    team.Pairwise (fun a b => key a ≠ key b) ∧
    team.length = distinct key l := by
  refine ⟨l.pwFilter fun a b => key a ≠ key b, List.pwFilter_sublist l, List.pairwise_pwFilter l, ?_⟩
  rw [distinct, List.dedup, List.pwFilter_map, List.length_map]

theorem length_le_distinct {team l : List α} (part : team.Sublist l)
    (apart : team.Pairwise fun a b => key a ≠ key b) : team.length ≤ distinct key l := by
  have nodup : (team.map key).Nodup := List.pairwise_map.mpr apart
  calc team.length = (team.map key).dedup.length := by rw [nodup.dedup, List.length_map]
    _ ≤ distinct key l := distinct_le_of_subset key part.subset

theorem distinct_split {l : List α} {n : ℕ} : n + 1 ≤ distinct key l ↔
    ∃ ahead v behind, l = ahead ++ v :: behind ∧ key v ∉ ahead.map key ∧ distinct key ahead = n := by
  constructor
  · induction l using List.reverseRecOn with
    | nil => exact fun many => absurd many (Nat.not_succ_le_zero n)
    | append_singleton l x ih =>
      intro many
      by_cases early : n + 1 ≤ distinct key l
      · obtain ⟨ahead, v, behind, parts, new, count⟩ := ih early
        exact ⟨ahead, v, behind ++ [x], by rw [parts, List.append_assoc, List.cons_append], new, count⟩
      · rw [distinct_concat] at many
        have new : key x ∉ l.map key := by
          intro seen
          rw [if_pos seen] at many
          omega
        rw [if_neg new] at many
        exact ⟨l, x, [], rfl, new, by omega⟩
  · rintro ⟨ahead, v, behind, rfl, new, rfl⟩
    have upTo : distinct key (ahead ++ [v]) ≤ distinct key (ahead ++ v :: behind) :=
      distinct_le_of_subset key fun a member => by
        rw [List.append_cons]
        exact List.mem_append_left _ member
    rw [distinct_concat, if_neg new] at upTo
    exact upTo

/-- The first k entries carry more than n keys exactly where fewer than k entries stand
    ahead of the key that follows the first n. -/
theorem distinct_take {l : List α} {n k : ℕ} : n + 1 ≤ distinct key (l.take k) ↔
    ∃ ahead v behind, l = ahead ++ v :: behind ∧ key v ∉ ahead.map key ∧ distinct key ahead = n ∧
      ahead.length < k := by
  rw [distinct_split]
  constructor
  · rintro ⟨ahead, v, behind, parts, new, count⟩
    refine ⟨ahead, v, behind ++ l.drop k, ?_, new, count, ?_⟩
    · rw [← List.cons_append, ← List.append_assoc, ← parts, List.take_append_drop]
    · have short : (ahead ++ v :: behind).length ≤ k := by
        rw [← parts]
        exact List.length_take_le k l
      rw [List.length_append, List.length_cons] at short
      omega
  · rintro ⟨ahead, v, behind, rfl, new, count, place⟩
    refine ⟨ahead, v, behind.take (k - ahead.length - 1), ?_, new, count⟩
    rw [List.take_append, List.take_of_length_le place.le]
    obtain ⟨d, more⟩ : ∃ d, k - ahead.length = d + 1 := ⟨k - ahead.length - 1, by omega⟩
    rw [more, List.take_succ_cons, Nat.add_sub_cancel]

end FirstDistinct
