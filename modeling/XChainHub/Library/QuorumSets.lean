import Mathlib.Algebra.Order.BigOperators.Group.Finset
import Mathlib.Data.Finset.Powerset

/-!
Overlap of vote sets inside one finite membership set, by weight and by count.
Members are arbitrary identities and weights live in any ordered additive
group. Nothing here says who votes or how a threshold is chosen.
-/
namespace QuorumSets

section Weighted
variable {K W : Type} [DecidableEq K] [AddCommGroup W] [LinearOrder W] [IsOrderedAddMonoid W]

theorem weight_overlap (w : K → W) {members A B : Finset K}
    (nonneg : ∀ k ∈ members, 0 ≤ w k) (hA : A ⊆ members) (hB : B ⊆ members) :
    ∑ k ∈ A, w k + ∑ k ∈ B, w k ≤ ∑ k ∈ members, w k + ∑ k ∈ A ∩ B, w k := by
  have split : ∑ k ∈ A ∪ B, w k + ∑ k ∈ A ∩ B, w k = ∑ k ∈ A, w k + ∑ k ∈ B, w k :=
    Finset.sum_union_inter
  have joined : ∑ k ∈ A ∪ B, w k ≤ ∑ k ∈ members, w k :=
    Finset.sum_le_sum_of_subset_of_nonneg (Finset.union_subset hA hB)
      (fun k member _ => nonneg k member)
  rw [← split]
  exact add_le_add_left joined _

omit [DecidableEq K] in
theorem weight_monotone (w : K → W) {A B : Finset K}
    (nonneg : ∀ k ∈ B, 0 ≤ w k) (sub : A ⊆ B) :
    ∑ k ∈ A, w k ≤ ∑ k ∈ B, w k :=
  Finset.sum_le_sum_of_subset_of_nonneg sub (fun k member _ => nonneg k member)

end Weighted

section Counted
variable {K : Type} [DecidableEq K]

theorem count_overlap {members A B : Finset K} (hA : A ⊆ members) (hB : B ⊆ members) :
    A.card + B.card ≤ members.card + (A ∩ B).card := by
  have split := Finset.card_union_add_card_inter A B
  have joined := Finset.card_le_card (Finset.union_subset hA hB)
  omega

/-- Two vote sets heavier together than the membership plus the faulty members
    have a common voter outside the faulty set. -/
theorem overlap_escapes {members faulty A B : Finset K} (hA : A ⊆ members) (hB : B ⊆ members)
    (large : faulty.card + members.card < A.card + B.card) :
    ∃ k, k ∈ A ∧ k ∈ B ∧ k ∉ faulty := by
  have overlap := count_overlap hA hB
  have more : faulty.card < (A ∩ B).card := by omega
  obtain ⟨k, common, outside⟩ := Finset.exists_mem_notMem_of_card_lt_card more
  exact ⟨k, (Finset.mem_inter.mp common).1, (Finset.mem_inter.mp common).2, outside⟩

/-- The counting bound is attained: some two vote sets of the given size overlap
    in no more members than the sizes force. -/
theorem least_overlap_attained (members : Finset K) (q : ℕ) (size : q ≤ members.card)
    (majority : members.card ≤ 2 * q) :
    ∃ A B : Finset K, A ⊆ members ∧ B ⊆ members ∧ A.card = q ∧ B.card = q ∧
      (A ∩ B).card + members.card = 2 * q := by
  obtain ⟨A, hA, sizeA⟩ := Finset.exists_subset_card_eq size
  have rest : (members \ A).card = members.card - q := by
    rw [Finset.card_sdiff_of_subset hA, sizeA]
  obtain ⟨B, restB, hB, sizeB⟩ := Finset.exists_subsuperset_card_eq
    (s := members \ A) (t := members) (n := q) Finset.sdiff_subset (by omega) size
  refine ⟨A, B, hA, hB, sizeA, sizeB, ?_⟩
  have cover : A ∪ B = members := by
    apply Finset.Subset.antisymm (Finset.union_subset hA hB)
    intro k member
    by_cases inA : k ∈ A
    · exact Finset.mem_union_left _ inA
    · exact Finset.mem_union_right _ (restB (Finset.mem_sdiff.mpr ⟨member, inA⟩))
  have split := Finset.card_union_add_card_inter A B
  rw [cover] at split
  omega

end Counted
end QuorumSets
