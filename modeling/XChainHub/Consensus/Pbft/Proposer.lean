import Mathlib.Data.Nat.ModEq
import XChainHub.Consensus.Pbft.Views

/-!
Whom the slot of an own proposal designates. propose() elects at the engine's current view
and stamps view 0, so the two agree exactly when the view is a multiple of the number of
members, unless both seats belong to this hub.
-/
namespace XChainHub.Pbft
open GuardedRuns

variable {Config : Type}

/- The member key that a rotation sum designates. -/
def memberSeat (sum : ℚ) (members : OrderedSet String) : Option String :=
  let keys := members.items.insertionSort (· ≤ ·)
  (rotationIndex sum keys.length).bind (fun i => keys[i]?)

/- A member key this hub answers to: its own, or one it takes its address to be bound to. -/
def ownKey (cfg : Params Config) (env : Env) (key : String) : Bool :=
  isLeaderIdentity cfg (some ⟨addrForPubkey cfg env key, some key⟩) cfg.validatorAddr
    (selfPubkey cfg)

def MultipleOf (n : ℕ) (view : ℚ) : Prop := ∃ z : ℕ, view = z * n

/- Two different member keys of this hub sit at the two places. -/
def TwoSeats (cfg : Params Config) (env : Env) (members : OrderedSet String) (stamped elected : ℚ) :
    Prop :=
  ∃ k l, k ≠ l ∧ memberSeat stamped members = some k ∧ memberSeat elected members = some l ∧
    ownKey cfg env k = true ∧ ownKey cfg env l = true

theorem rotation_index_nat {q : ℚ} (nonneg : 0 ≤ q) {n i : ℕ} :
    rotationIndex q n = some i ↔ ∃ m : ℕ, q = m ∧ i = m % n := by
  have sign : 0 ≤ q.num := Rat.num_nonneg.mpr nonneg
  simp only [rotationIndex]
  constructor
  · intro found
    split at found
    · rename_i whole
      split at found
      · simp at found
      · refine ⟨q.num.toNat, ?_, ?_⟩
        · have cast : ((q.num.toNat : ℤ) : ℚ) = q := by
            rw [Int.toNat_of_nonneg sign]
            exact Rat.coe_int_num_of_den_eq_one whole
          exact_mod_cast cast.symm
        · rw [← Option.some.inj found, Int.tmod_eq_emod_of_nonneg sign]
          obtain ⟨w, whole⟩ := Int.eq_ofNat_of_zero_le sign
          rw [whole]
          norm_cast
    · simp at found
  · rintro ⟨m, rfl, rfl⟩
    have rest : (m : ℤ).tmod n = ((m % n : ℕ) : ℤ) := by
      rw [Int.tmod_eq_emod_of_nonneg (Int.natCast_nonneg m)]
      norm_cast
    simp only [Rat.den_natCast, Rat.num_natCast, if_true, rest, Int.toNat_natCast]
    rw [if_neg (not_lt.mpr (Int.natCast_nonneg _))]

theorem member_seat_nat {q : ℚ} (nonneg : 0 ≤ q) {members : OrderedSet String} {k : String} :
    memberSeat q members = some k ↔ ∃ m : ℕ, q = m ∧
      (members.items.insertionSort (· ≤ ·))[m % members.size]? = some k := by
  have size : (members.items.insertionSort (· ≤ ·)).length = members.size := by
    rw [List.length_insertionSort, OrderedSet.size]
  simp only [memberSeat, size, Option.bind_eq_some_iff, rotation_index_nat nonneg]
  constructor
  · rintro ⟨i, ⟨m, same, rfl⟩, seat⟩
    exact ⟨m, same, seat⟩
  · rintro ⟨m, same, seat⟩
    exact ⟨_, ⟨m, same, rfl⟩, seat⟩

/-- From a nonnegative view the two sums designate one key exactly when the view is a
    multiple of the number of members. -/
theorem same_seat_iff {seq view : ℚ} (slot : 0 ≤ seq) (forward : 0 ≤ view)
    {members : OrderedSet String} {k : String}
    (elected : memberSeat (seq + view) members = some k) :
    memberSeat seq members = some k ↔ MultipleOf members.size view := by
  obtain ⟨m, sum, seat⟩ := (member_seat_nat (add_nonneg slot forward)).mp elected
  rw [member_seat_nat slot]
  constructor
  · rintro ⟨s, same, other⟩
    have nodup : (members.items.insertionSort (· ≤ ·)).Nodup :=
      (List.perm_insertionSort (· ≤ ·) members.items).nodup_iff.mpr members.nodup
    have places : m % members.size = s % members.size :=
      (List.getElem?_inj (List.getElem?_eq_some_iff.mp seat).1 nodup).mp (seat.trans other.symm)
    have later : s ≤ m := by
      have bound : (s : ℚ) ≤ m := by rw [← same, ← sum]; linarith
      exact_mod_cast bound
    obtain ⟨z, gap⟩ := (Nat.modEq_iff_dvd' later).mp places.symm
    refine ⟨z, ?_⟩
    have whole : (m : ℚ) = s + members.size * z := by
      have total : m = s + members.size * z := by omega
      exact_mod_cast total
    linarith
  · rintro ⟨z, gap⟩
    have whole : (m : ℚ) = seq + z * members.size := by rw [← gap, sum]
    have later : z * members.size ≤ m := by
      have bound : ((z * members.size : ℕ) : ℚ) ≤ m := by push_cast; linarith
      exact_mod_cast bound
    refine ⟨m - z * members.size, ?_, ?_⟩
    · rw [Nat.cast_sub later]
      push_cast
      linarith
    · rw [Nat.mul_comm] at later ⊢
      rw [← seat, Nat.sub_mul_mod later]

section Proposals
variable {cfg : Params Config} {env : Env}

theorem leader_at_members (seq view : ℚ) (members : OrderedSet String) :
    leaderAt cfg env seq view (some members) = some ((memberSeat (seq + view) members).elim
      ⟨none, none⟩ (fun k => ⟨addrForPubkey cfg env k, some k⟩)) := by
  simp only [leaderAt, memberSeat]
  split
  · rename_i missing
    rw [missing]
    rfl
  · rename_i k found
    rw [found]
    rfl

theorem designated_iff {seq view : ℚ} {members : OrderedSet String} :
    isLeaderIdentity cfg (leaderAt cfg env seq view (some members)) cfg.validatorAddr
        (selfPubkey cfg) = true ↔
      ∃ k, memberSeat (seq + view) members = some k ∧ ownKey cfg env k = true := by
  rw [leader_at_members]
  cases memberSeat (seq + view) members with
  | none => simp [isLeaderIdentity]
  | some k => simp [ownKey]

theorem propose_opens {h : Hub Config} {tid : ℕ} {myTip : Option ℚ} {reply : LockReply}
    {config : Config} {p : Proposal Config} (held : h.task tid = some (.propose config))
    (record : opens cfg h (env, .locked tid myTip reply) = some p) :
    proposeOutcome cfg env h config reply = .round p := by
  simp only [opens, held] at record
  split at record
  · rename_i q outcome
    rw [outcome, Option.some.inj record]
  · simp at record

/- The step that opens an own round broadcasts its PRE_PREPARE, stamped as the record. -/
theorem propose_announces {h : Hub Config} {tid : ℕ} {myTip : Option ℚ} {reply : LockReply}
    {config : Config} {p : Proposal Config} (ready : Ready anyEnvelope h)
    (held : h.task tid = some (.propose config))
    (outcome : proposeOutcome cfg env h config reply = .round p) :
    .broadcast (.prePrepare (some p.seq) (some p.view) (some p.digest) (some p.config)
        p.btcBlockHeight) (p.vote cfg) ∈ (step cfg h (env, .locked tid myTip reply)).trace := by
  simp only [step, resume, held, outcome, announceRound]
  have finished := ready.finish tid
  have slot : Ready anyEnvelope ((h.finishTask tid).takeSlot p.seq) :=
    ⟨finished.linked, finished.buffered, finished.parked⟩
  have cast := (slot.open p).modify h.proposals.length (f := Proposal.castOwn cfg) (fun _ => rfl)
  have checked : Leads cfg env anyEnvelope _ _ := check_prepare_quorum_leads
    (((((h.finishTask tid).takeSlot p.seq).openRecord p).modify h.proposals.length
      (Proposal.castOwn cfg)).emit (.broadcast (.prePrepare (some p.seq) (some p.view)
        (some p.digest) (some p.config) p.btcBlockHeight) (p.vote cfg))) p.seq
  exact (acts_trace (checked (cast.emit _)).1).subset (by simp [Hub.emit])

end Proposals

section Samples

def h1Params : Params String := countParams "h1" "k1"

def fourKeys : OrderedSet String := .ofList ["k0", "k1", "k2", "k3"]

/- Each call of propose locks the four members. -/
def proposals (configs : List String) : List (Env × Event String) :=
  configs.zipIdx.flatMap (fun entry =>
    [(fourHubs, .propose entry.1), (fourHubs, .locked entry.2 (some 100) fourLock)])

/- k1's round of sequence 1 times out; the slots 2 and 3 are not k1's at view 1. -/
def timedOut : List (Env × Event String) :=
  proposals ["A"] ++ [(fourHubs, .leaderTimeout 0)] ++
    (proposals ["A", "B", "C", "D"]).drop 2

def firstRound : Option (Proposal String) :=
  opens h1Params (run (step h1Params) (Hub.started 0) [(fourHubs, .propose "A")])
    (fourHubs, .locked 0 (some 100) fourLock)

end Samples
end XChainHub.Pbft
