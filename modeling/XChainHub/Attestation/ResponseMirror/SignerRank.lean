import Mathlib.Data.List.Sort
import XChainHub.Consensus.StakeWeightedQuorum

/-!
The replace rule of a mirrored response whose signer set differs from the stored one:
signer_rank.js, and the responsible set of round/responsible_set.js that it ranks by.
-/
namespace XChainHub.ResponseMirror
open StakeWeightedQuorum (asciiLower)

section Responsible

structure Validator where
  pubkey : String
  source : Option String
  deriving DecidableEq

/- The qualified validators of one snapshot in hash order; with weighted quorums a staking source
   keeps its lowest key only. -/
def dedupeSources : List Validator → List String → List Validator
  | [], _ => []
  | v :: vs, seen =>
    match v.source with
    | none => v :: dedupeSources vs seen
    | some source =>
      if source ∈ seen then dedupeSources vs seen else v :: dedupeSources vs (source :: seen)

def rankedValidators (sha256 : String → String) (weighted : Bool) (validators : List Validator)
    (requestId : String) : List String :=
  let hashed := validators.insertionSort (fun a b =>
    sha256 (requestId ++ asciiLower a.pubkey) ≤ sha256 (requestId ++ asciiLower b.pubkey))
  ((if weighted then dedupeSources hashed [] else hashed).map (fun v => asciiLower v.pubkey))

/- widen is the ladder's extra slot count. -/
def computeResponsibleSet (ranked : List String) (redundancy widen : ℕ) : List String :=
  ranked.take (max 1 redundancy + widen)

end Responsible

section Rank

/- Positions of the pubkeys in rank order, ascending; none where one is outside the set or repeats. -/
def signerRankVector (pubkeys responsible : List String) : Option (List ℕ) :=
  let lowered := pubkeys.map asciiLower
  if lowered.Nodup ∧ ∀ k ∈ lowered, k ∈ responsible then
    some ((lowered.map (fun k => responsible.idxOf k)).insertionSort (· ≤ ·))
  else none

/- The order of lists is lexicographic, and a strict prefix is lower. -/
def rankBelow : Option (List ℕ) → Option (List ℕ) → Bool
  | some inc, some sto => inc < sto
  | some _, none => true
  | none, _ => false

def isRankBetterSignerSet (incoming stored responsible : List String) (redundancy : ℕ) : Bool :=
  (signerRankVector incoming responsible).any (fun v => v.length = redundancy) &&
    rankBelow (signerRankVector incoming responsible) (signerRankVector stored responsible)

/- The two lists are compared sorted. -/
def sameSignerList (a b : List String) : Bool := (a.map asciiLower).isPerm (b.map asciiLower)

end Rank

section Laws
variable {a b c responsible : List String}

theorem same_signer_list_perm : sameSignerList a b = true ↔ (a.map asciiLower).Perm (b.map asciiLower) :=
  List.isPerm_iff

theorem rank_vector_same (same : sameSignerList a b = true) :
    signerRankVector a responsible = signerRankVector b responsible := by
  have perm := same_signer_list_perm.mp same
  have members : (∀ k ∈ a.map asciiLower, k ∈ responsible) ↔ ∀ k ∈ b.map asciiLower, k ∈ responsible :=
    ⟨fun each k member => each k (perm.mem_iff.mpr member),
      fun each k member => each k (perm.mem_iff.mp member)⟩
  have sorted : ((a.map asciiLower).map (fun k => responsible.idxOf k)).insertionSort (· ≤ ·) =
      ((b.map asciiLower).map (fun k => responsible.idxOf k)).insertionSort (· ≤ ·) := by
    apply List.Perm.eq_of_pairwise' (List.pairwise_insertionSort _ _) (List.pairwise_insertionSort _ _)
    exact (List.perm_insertionSort _ _).trans ((perm.map _).trans (List.perm_insertionSort _ _).symm)
  simp only [signerRankVector, perm.nodup_iff, members, sorted]

theorem rank_below_trans {x y z : Option (List ℕ)} (lower : rankBelow x y = true)
    (upper : rankBelow y z = true) : rankBelow x z = true := by
  cases x with
  | none => exact absurd lower (by simp [rankBelow])
  | some x =>
    cases y with
    | none => exact absurd upper (by simp [rankBelow])
    | some y =>
      cases z with
      | none => rfl
      | some z =>
        simp only [rankBelow, decide_eq_true_eq] at lower upper ⊢
        exact lt_trans lower upper

theorem rank_below_irrefl (x : Option (List ℕ)) : rankBelow x x = false := by
  cases x with
  | none => rfl
  | some x => simp [rankBelow]

/-- At least as good: the same signers, or signers of a lower rank. -/
def AtLeast (ranked a b : List String) : Prop :=
  sameSignerList a b = true ∨ rankBelow (signerRankVector a ranked) (signerRankVector b ranked) = true

instance (ranked a b : List String) : Decidable (AtLeast ranked a b) :=
  inferInstanceAs (Decidable (_ ∨ _))

theorem at_least_refl (ranked a : List String) : AtLeast ranked a a :=
  Or.inl (same_signer_list_perm.mpr (List.Perm.refl _))

theorem at_least_trans {ranked : List String} (first : AtLeast ranked a b) (second : AtLeast ranked b c) :
    AtLeast ranked a c := by
  rcases first with same | below
  · rcases second with same' | below'
    · exact Or.inl (same_signer_list_perm.mpr
        ((same_signer_list_perm.mp same).trans (same_signer_list_perm.mp same')))
    · exact Or.inr (by rw [rank_vector_same same]; exact below')
  · rcases second with same' | below'
    · exact Or.inr (by rw [← rank_vector_same same']; exact below)
    · exact Or.inr (rank_below_trans below below')

theorem at_least_antisymm {ranked : List String} (first : AtLeast ranked a b)
    (second : AtLeast ranked b a) : sameSignerList a b = true := by
  rcases first with same | below
  · exact same
  · rcases second with same | below'
    · exact same_signer_list_perm.mpr (same_signer_list_perm.mp same).symm
    · have cycle := rank_below_trans below below'
      rw [rank_below_irrefl] at cycle
      exact absurd cycle (by simp)

/-- Ranks in a longer responsible set are the ranks in a shorter one, where it ranks them. -/
theorem rank_vector_widened {n : ℕ} {v : List ℕ} (found : signerRankVector a (responsible.take n) = some v) :
    signerRankVector a responsible = some v := by
  simp only [signerRankVector] at found ⊢
  split at found
  · rename_i known
    have inside : ∀ k ∈ a.map asciiLower, k ∈ responsible :=
      fun k member => List.mem_of_mem_take (known.2 k member)
    rw [if_pos ⟨known.1, inside⟩, ← found]
    congr 2
    apply List.map_congr_left
    intro k member
    conv_lhs => rw [← List.take_append_drop n responsible]
    exact List.idxOf_append_of_mem (known.2 k member)
  · exact absurd found (by simp)

theorem rank_vector_idxs {v : List ℕ} (found : signerRankVector a responsible = some v) :
    ((a.map asciiLower).map (fun k => responsible.idxOf k)).Perm v ∧
      ∀ k ∈ a.map asciiLower, k ∈ responsible := by
  simp only [signerRankVector] at found
  split at found
  · rename_i known
    rw [← Option.some.inj found]
    exact ⟨(List.perm_insertionSort _ _).symm, known.2⟩
  · exact absurd found (by simp)

/-- One rank vector is one signer set. -/
theorem same_rank_same_signers {v : List ℕ} (first : signerRankVector a responsible = some v)
    (second : signerRankVector b responsible = some v) : sameSignerList a b = true := by
  obtain ⟨perm, inside⟩ := rank_vector_idxs first
  obtain ⟨perm', inside'⟩ := rank_vector_idxs second
  have named : ∀ l : List String, (∀ k ∈ l, k ∈ responsible) →
      (l.map (fun k => responsible.idxOf k)).map (fun i => responsible[i]?) = l.map some := by
    intro l members
    rw [List.map_map]
    apply List.map_congr_left
    intro k member
    exact List.getElem?_idxOf (members k member)
  have perms := (perm.trans perm'.symm).map (fun i => responsible[i]?)
  rw [named _ inside, named _ inside'] at perms
  exact same_signer_list_perm.mpr ((List.map_perm_map_iff (Option.some_injective _)).mp perms)

end Laws
end XChainHub.ResponseMirror
