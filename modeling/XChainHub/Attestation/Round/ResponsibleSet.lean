import Mathlib.Data.List.Sort
import XChainHub.Lib.Bcmath
import XChainHub.Lib.BftQuorum
import XChainHub.Library.FirstDistinct
import XChainHub.Library.ScriptValue

/-!
Who may sign for an attestation request: responsible_set.js of attestation/round, and
the admission test that attestation/consensus/propose.js puts before a round. A round
needs as many different keys as its redundancy, while the places of the set are kept
apart by source.
-/
namespace XChainHub.Attestation.Round
open Bcmath DecimalText FirstDistinct ScriptValue

section Set

/- A row of a capability snapshot; a count row has neither source nor weight. -/
structure Validator where
  pubkey : String
  source : Option String
  weight : Value

structure Member where
  pubkey : String
  source : Option String
  hash : String
  deriving DecidableEq

/- /^\d+(\.\d+)?$/ -/
def isPlainDecimal (cs : List Char) : Bool :=
  !(cs.takeWhile Char.isDigit).isEmpty &&
    match cs.dropWhile Char.isDigit with
    | [] => true
    | '.' :: frac => !frac.isEmpty && frac.all Char.isDigit
    | _ => false

def usable : Value → Option String
  | .undefined => none
  | .null => none
  | .bool _ => none
  | v =>
    let s := trim v.asText.toList
    if isPlainDecimal s then some (String.ofList s) else none

def meetsProviderFloor (weight minStake : Value) : Bool :=
  match usable minStake with
  | none => false
  | some floor =>
    match usable weight with
    | none => false
    | some w => bcnum floor ≤ bcnum w

/- The ladder is widenSlots of the widening gate at the tip, the request's block and its
   deadline; the registry is none where it cannot answer. -/
structure Settings where
  sha256 : String → { digest : String // HexText.LowerHex 64 digest }
  toLowerCase : String → String
  getMinStake : Option (String → ℕ → Value)
  widenSlots : ℚ → ℕ → Value → ℕ

variable (cfg : Settings)

def withHash (requestId : String) (v : Validator) : Member :=
  let pk := cfg.toLowerCase v.pubkey
  ⟨pk, v.source, cfg.sha256 (requestId ++ pk)⟩

/- A member without a source is kept. -/
def dedupeSources (seen : List String) : List Member → List Member
  | [] => []
  | v :: rest =>
    match v.source with
    | none => v :: dedupeSources seen rest
    | some source =>
      if source ∈ seen then dedupeSources seen rest
      else v :: dedupeSources (source :: seen) rest

/- The list that computeResponsibleSet slices. -/
def ranking (validators : List Validator) (requestId : String) (weighted : Bool) (minStake : Value) :
    List Member :=
  let kept := if weighted then validators.filter fun v => meetsProviderFloor v.weight minStake else validators
  let sorted := (kept.map (withHash cfg requestId)).insertionSort fun a b => a.hash ≤ b.hash
  if weighted then dedupeSources [] sorted else sorted

def computeResponsibleSet (validators : List Validator) (requestId : String) (redundancy : ℤ)
    (weighted : Bool) (minStake : Value) (widen : ℕ) : List Member :=
  (ranking cfg validators requestId weighted minStake).take ((max 1 redundancy).toNat + widen)

/- latestBlock is Number(latestBlock), none where it is not finite. -/
structure Request where
  rid : String
  providerId : String
  deadlineBlock : Value
  redundancy : ℤ
  snapshotBlk : ℕ
  latestBlock : Option ℚ
  validators : List Validator
  weighted : Bool

structure Seat where
  responsible : List Member
  widen : ℕ
  providerFloor : Value

def providerFloor (r : Request) : Value :=
  match cfg.getMinStake with
  | some getMinStake => getMinStake r.providerId r.snapshotBlk
  | none => .null

def widening (r : Request) : ℕ :=
  match r.latestBlock with
  | some latest => if 0 < latest then cfg.widenSlots latest r.snapshotBlk r.deadlineBlock else 0
  | none => 0

def isNull : Value → Bool
  | .null => true
  | _ => false

def responsibleSetFor (r : Request) : Option Seat :=
  let floor := providerFloor cfg r
  if r.weighted && isNull floor then none
  else
    let widen := widening cfg r
    let responsible := computeResponsibleSet cfg r.validators r.rid r.redundancy r.weighted floor widen
    if (responsible.length : ℤ) < max 1 r.redundancy then none else some ⟨responsible, widen, floor⟩

/- The quorum of the unwidened set, none where the round could not finalize. -/
def admittableQuorum (responsible : List Member) (redundancy : ℤ) : Option ℕ :=
  let baseSize := min responsible.length (max 1 redundancy).toNat
  let quorum := BftQuorum.bftQuorumOrSingle baseSize 0
  if (responsible.length : ℤ) < max (quorum : ℤ) redundancy then none else some quorum

end Set

section Admission

/- A set of signers that checkCommitQuorum can finalize with: different keys, and in
   weighted mode no source behind two of them. -/
def Finalizable (weighted : Bool) (responsible : List Member) (needed : ℤ) : Prop :=
  ∃ team : List Member, team.Sublist responsible ∧ needed ≤ team.length ∧
    team.Pairwise fun a b => a.pubkey ≠ b.pubkey ∧
      (weighted = true → a.source = none ∨ a.source ≠ b.source)

def Opens (cfg : Settings) (r : Request) (responsible : List Member) (quorum : ℕ) : Prop :=
  (∃ seat, responsibleSetFor cfg r = some seat ∧ seat.responsible = responsible) ∧
    admittableQuorum responsible r.redundancy = some quorum

/- Places that hold a key of an earlier place. -/
def repeats (places : List Member) : ℕ := places.length - distinct Member.pubkey places

/- Weighted without a floor, or fewer places than the redundancy. -/
def Refused (cfg : Settings) (r : Request) : Prop :=
  (r.weighted = true ∧ isNull (providerFloor cfg r) = true) ∨
    ((ranking cfg r.validators r.rid r.weighted (providerFloor cfg r)).length : ℤ) < max 1 r.redundancy

/- The key that completes the redundancy is ranked behind no more repeated places than
   the set is widened by. -/
def RepeatsCovered (cfg : Settings) (r : Request) : Prop :=
  ∃ ahead v behind,
    ranking cfg r.validators r.rid r.weighted (providerFloor cfg r) = ahead ++ v :: behind ∧
    v.pubkey ∉ ahead.map Member.pubkey ∧ (distinct Member.pubkey ahead : ℤ) + 1 = r.redundancy ∧
    repeats ahead ≤ widening cfg r

variable {cfg : Settings} {r : Request}

theorem dedupe_unseen {seen : List String} {l : List Member} {v : Member} {source : String}
    (member : v ∈ dedupeSources seen l) (named : v.source = some source) : source ∉ seen := by
  induction l generalizing seen with
  | nil => exact absurd member List.not_mem_nil
  | cons w rest ih =>
    rw [dedupeSources] at member
    split at member
    · rename_i bare
      rcases List.mem_cons.mp member with rfl | later
      · rw [bare] at named
        cases named
      · exact ih later
    · rename_i other found
      split at member
      · exact ih member
      · rename_i new
        rcases List.mem_cons.mp member with rfl | later
        · rw [found, Option.some.injEq] at named
          rwa [← named]
        · exact fun here => ih later (List.mem_cons_of_mem other here)

/- In a deduplicated list no source stands behind two members. -/
theorem dedupe_apart (seen : List String) (l : List Member) :
    (dedupeSources seen l).Pairwise fun a b => a.source = none ∨ a.source ≠ b.source := by
  induction l generalizing seen with
  | nil => exact List.Pairwise.nil
  | cons w rest ih =>
    rw [dedupeSources]
    split
    · rename_i bare
      exact List.pairwise_cons.mpr ⟨fun _ _ => Or.inl bare, ih seen⟩
    · rename_i source found
      split
      · exact ih seen
      · refine List.pairwise_cons.mpr ⟨fun b later => Or.inr fun same => ?_, ih (source :: seen)⟩
        exact dedupe_unseen later (same.symm.trans found) List.mem_cons_self

theorem ranking_apart (validators : List Validator) (requestId : String) (minStake : Value) :
    (ranking cfg validators requestId true minStake).Pairwise
      fun a b => a.source = none ∨ a.source ≠ b.source :=
  dedupe_apart [] _

theorem finalizable_iff {weighted : Bool} {places : List Member} {needed : ℤ}
    (apart : weighted = true → places.Pairwise fun a b => a.source = none ∨ a.source ≠ b.source) :
    Finalizable weighted places needed ↔ needed ≤ distinct Member.pubkey places := by
  constructor
  · rintro ⟨team, part, enough, kept⟩
    have bound := length_le_distinct Member.pubkey part (kept.imp fun both => both.1)
    exact enough.trans (by exact_mod_cast bound)
  · intro enough
    obtain ⟨team, part, keys, count⟩ := exists_apart Member.pubkey places
    refine ⟨team, part, by rwa [count], keys.imp₂ (fun a b key source => ⟨key, source⟩) ?_⟩
    by_cases mode : weighted = true
    · exact ((apart mode).sublist part).imp fun sources _ => sources
    · exact List.pairwise_of_forall fun _ _ on => absurd on mode

theorem quorum_le (n : ℕ) : BftQuorum.bftQuorumOrSingle n 0 ≤ n := by
  unfold BftQuorum.bftQuorumOrSingle BftQuorum.bftQuorum
  split <;> omega

/- The set of a request that is not refused. -/
def places (cfg : Settings) (r : Request) : List Member :=
  computeResponsibleSet cfg r.validators r.rid r.redundancy r.weighted (providerFloor cfg r) (widening cfg r)

theorem refused_closed (refused : Refused cfg r) : responsibleSetFor cfg r = none := by
  rcases refused with ⟨weighted, floor⟩ | few
  · rw [responsibleSetFor]
    dsimp only
    rw [weighted, floor, Bool.and_self, if_pos rfl]
  · rw [responsibleSetFor]
    dsimp only
    split
    · rfl
    · rw [if_pos]
      rw [computeResponsibleSet, List.length_take]
      omega

theorem unrefused (open' : ¬ Refused cfg r) :
    responsibleSetFor cfg r = some ⟨places cfg r, widening cfg r, providerFloor cfg r⟩ ∧
      max 1 r.redundancy ≤ ((places cfg r).length : ℤ) := by
  rw [Refused, not_or, not_lt] at open'
  obtain ⟨floor, many⟩ := open'
  have enough : max 1 r.redundancy ≤ ((places cfg r).length : ℤ) := by
    rw [places, computeResponsibleSet, List.length_take]
    omega
  refine ⟨?_, enough⟩
  rw [responsibleSetFor]
  dsimp only
  rw [if_neg (by rwa [Bool.and_eq_true])]
  exact if_neg (not_lt.mpr enough)

/- The quorum of the unwidened set never exceeds the redundancy. -/
theorem admitted {responsible : List Member} {redundancy : ℤ}
    (enough : max 1 redundancy ≤ (responsible.length : ℤ)) :
    ∃ quorum : ℕ, admittableQuorum responsible redundancy = some quorum ∧
      max (quorum : ℤ) redundancy = max 0 redundancy := by
  have base : min responsible.length (max 1 redundancy).toNat = (max 1 redundancy).toNat := by omega
  have below := quorum_le (max 1 redundancy).toNat
  have needed : max (BftQuorum.bftQuorumOrSingle (max 1 redundancy).toNat 0 : ℤ) redundancy =
      max 0 redundancy := by
    by_cases single : redundancy ≤ 1
    · rw [BftQuorum.bftQuorumOrSingle, if_pos (by omega)]
      rfl
    · omega
  refine ⟨BftQuorum.bftQuorumOrSingle (max 1 redundancy).toNat 0, ?_, needed⟩
  rw [admittableQuorum, base, needed, if_neg (by omega)]

theorem repeats_covered_iff (positive : 0 < r.redundancy) :
    RepeatsCovered cfg r ↔ r.redundancy ≤ distinct Member.pubkey (places cfg r) := by
  obtain ⟨n, size⟩ : ∃ n : ℕ, r.redundancy = n + 1 := ⟨(r.redundancy - 1).toNat, by omega⟩
  have slots : (max 1 r.redundancy).toNat + widening cfg r = n + 1 + widening cfg r := by omega
  have bound : r.redundancy ≤ distinct Member.pubkey (places cfg r) ↔
      n + 1 ≤ distinct Member.pubkey (places cfg r) := by
    rw [size]
    exact_mod_cast Iff.rfl
  rw [bound, places, computeResponsibleSet, slots, distinct_take]
  constructor
  · rintro ⟨ahead, v, behind, parts, new, count, few⟩
    unfold repeats at few
    exact ⟨ahead, v, behind, parts, new, by omega, by omega⟩
  · rintro ⟨ahead, v, behind, parts, new, count, place⟩
    refine ⟨ahead, v, behind, parts, new, by omega, ?_⟩
    unfold repeats
    omega

section Fixtures

def zeros : { digest : String // HexText.LowerHex 64 digest } :=
  ⟨String.ofList (List.replicate 64 '0'), by
    refine ⟨by simp, fun c member => ?_⟩
    rw [String.toList_ofList] at member
    rw [List.eq_of_mem_replicate member]
    decide⟩

def settings : Settings where
  sha256 := fun _ => zeros
  toLowerCase := fun s => s
  getMinStake := some fun _ _ => .text "10"
  widenSlots := fun _ _ _ => 0

/- One key that two sources stake through. -/
def sharedKey : Request where
  rid := "r1"
  providerId := "llm"
  deadlineBlock := .text "9"
  redundancy := 2
  snapshotBlk := 5
  latestBlock := some 6
  validators := [⟨"aa", some "s1", .text "25"⟩, ⟨"aa", some "s2", .text "25"⟩]
  weighted := true

theorem shared_ranking : ranking settings sharedKey.validators "r1" true (.text "10") =
    [⟨"aa", some "s1", zeros⟩, ⟨"aa", some "s2", zeros⟩] := by
  have met : meetsProviderFloor (.text "25") (.text "10") = true := by
    simp only [meetsProviderFloor, usable, Value.asText]
    decide +kernel
  simp [ranking, sharedKey, met, withHash, settings, dedupeSources, List.insertionSort]

end Fixtures
end Admission
end XChainHub.Attestation.Round
