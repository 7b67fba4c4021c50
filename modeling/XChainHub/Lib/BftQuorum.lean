import Mathlib.Data.Rat.Floor
import XChainHub.Library.QuorumSets

/-!
The shared count threshold of lib/bft_quorum.js and the membership count that
CapabilitySnapshot.getQuorum feeds it. Counts are unbounded naturals; both
callers reject a negative or fractional count before the threshold is taken.
-/
namespace XChainHub.BftQuorum
open QuorumSets

/- Math.floor((n - 1) / 3), the Byzantine members the threshold is meant to tolerate. -/
def faultBound (n : ℕ) : ℕ := (n - 1) / 3

/- Math.ceil((n + 1) / 2) is written as the floor of (n + 2) / 2. -/
def bftQuorum (n : ℕ) : ℕ := max (2 * ((n - 1) / 3) + 1) ((n + 1 + 1) / 2)

def bftQuorumOrSingle (n singleNodeQuorum : ℕ) : ℕ :=
  if n ≤ 1 then singleNodeQuorum else bftQuorum n

/- count is Number(snapshot.count), none where that is NaN or infinite.
   validators is none where the raw field is not an array. -/
structure CapabilitySnapshot (Row : Type) where
  count : Option ℚ
  validators : Option (List Row)
  truncated : Bool

def isCount (q : ℚ) : Bool := q.den = 1 && 0 ≤ q

def membershipCount {Row : Type} (s : CapabilitySnapshot Row) : ℕ :=
  match s.count with
  | some q => if isCount q then q.num.toNat else (s.validators.getD []).length
  | none => (s.validators.getD []).length

/- The truncated flag only raises a warning; the quorum is taken all the same. -/
def getQuorum {Row : Type} : Option (CapabilitySnapshot Row) → ℕ
  | none => 0
  | some s => bftQuorumOrSingle (membershipCount s) 0

theorem bft_quorum_majority (n : ℕ) : n < 2 * bftQuorum n := by
  simp only [bftQuorum]
  omega

theorem bft_quorum_reachable (n : ℕ) (two : 2 ≤ n) : bftQuorum n ≤ n - faultBound n := by
  simp only [bftQuorum, faultBound]
  omega

/- The slack over f + 1 survives only where 2f + 1 is exact for n = 3f + 1 or the
   majority floor dominates it. -/
theorem fault_margin_iff (n : ℕ) (two : 2 ≤ n) :
    faultBound n + 1 + n ≤ 2 * bftQuorum n ↔ n % 3 = 1 ∨ n = 2 ∨ n = 3 ∨ n = 6 := by
  simp only [bftQuorum, faultBound]
  omega

theorem quorums_share {K : Type} [DecidableEq K] {members A B : Finset K}
    (hA : A ⊆ members) (hB : B ⊆ members) (quorumA : bftQuorum members.card ≤ A.card)
    (quorumB : bftQuorum members.card ≤ B.card) :
    2 * bftQuorum members.card ≤ members.card + (A ∩ B).card := by
  have overlap := count_overlap hA hB
  omega

/-- Count-mode quorum intersection: the honest members alone reach the threshold,
    two quorums always meet, and they meet beyond the fault bound exactly for
    n = 3f + 1 and the sizes 2, 3 and 6. -/
theorem bft_quorum_intersection (n : ℕ) (two : 2 ≤ n) :
    bftQuorum n ≤ n - faultBound n ∧
    (∀ (K : Type) [DecidableEq K] (members A B : Finset K), members.card = n →
      A ⊆ members → B ⊆ members → bftQuorum n ≤ A.card → bftQuorum n ≤ B.card →
      1 ≤ (A ∩ B).card ∧ 2 * bftQuorum n - n ≤ (A ∩ B).card) ∧
    ((∀ (K : Type) [DecidableEq K] (members A B : Finset K), members.card = n →
      A ⊆ members → B ⊆ members → bftQuorum n ≤ A.card → bftQuorum n ≤ B.card →
      faultBound n + 1 ≤ (A ∩ B).card) ↔
        n % 3 = 1 ∨ n = 2 ∨ n = 3 ∨ n = 6) := by
  have majority := bft_quorum_majority n
  refine ⟨bft_quorum_reachable n two, ?_, ?_⟩
  · intro K _ members A B size hA hB quorumA quorumB
    subst size
    have shared := quorums_share hA hB quorumA quorumB
    omega
  · rw [← fault_margin_iff n two]
    constructor
    · intro every
      have reachable := bft_quorum_reachable n two
      have size : (Finset.univ : Finset (Fin n)).card = n := Finset.card_fin n
      obtain ⟨A, B, hA, hB, sizeA, sizeB, tight⟩ :=
        least_overlap_attained (Finset.univ : Finset (Fin n)) (bftQuorum n) (by omega) (by omega)
      have shared := every (Fin n) Finset.univ A B size hA hB (by omega) (by omega)
      omega
    · intro margin K _ members A B size hA hB quorumA quorumB
      subst size
      have shared := quorums_share hA hB quorumA quorumB
      omega

theorem bft_quorum_intersection_four :
    bftQuorum 4 ≤ 4 - faultBound 4 ∧
    (∀ (K : Type) [DecidableEq K] (members A B : Finset K), members.card = 4 →
      A ⊆ members → B ⊆ members → bftQuorum 4 ≤ A.card → bftQuorum 4 ≤ B.card →
      faultBound 4 + 1 ≤ (A ∩ B).card) := by
  have result := bft_quorum_intersection 4 (by decide)
  exact ⟨result.1, result.2.2.mpr (by decide)⟩

/-- Among five members two quorums of three can share a single member, who may be
    the one Byzantine member the bound allows. -/
theorem five_member_quorums_share_one :
    bftQuorum 5 = 3 ∧ faultBound 5 = 1 ∧
    ¬ (∀ A B : Finset (Fin 5), bftQuorum 5 ≤ A.card → bftQuorum 5 ≤ B.card →
      faultBound 5 + 1 ≤ (A ∩ B).card) := by
  refine ⟨by decide, by decide, ?_⟩
  intro every
  have shared := every {0, 1, 2} {2, 3, 4} (by decide) (by decide)
  exact absurd shared (by decide)

end XChainHub.BftQuorum
