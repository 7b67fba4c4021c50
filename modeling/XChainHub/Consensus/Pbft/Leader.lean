import Mathlib.Data.String.Basic
import XChainHub.Consensus.Pbft.State

/-!
The questions the handlers ask: who may be counted, who leads a slot, whether the
hub is federated, whether a vote set meets the round's quorum. From
consensus/pbft/leader.js, consensus/pbft/federation_round.js, consensus/federation.js
and lib/chain_signer_admission.js.
-/
namespace XChainHub.Pbft
open BftQuorum

variable {Config : Type} (cfg : Params Config) (env : Env)

def provenPubkey (envelope : Envelope Config) : Option String :=
  match envelope.sigPubkey with
  | none => none
  | some pk => if pk = "" then none else some (cfg.toLowerCase pk)

def registryHasPubkey (registry : List (String × String)) (pk : String) : Bool :=
  registry.any (fun entry => entry.2 ≠ "" && cfg.toLowerCase entry.2 = pk)

def isAdmissibleSigner (envelope : Envelope Config) : Bool :=
  match env.validatorPubkeys with
  | none => false
  | some registry =>
    match provenPubkey cfg envelope with
    | none => false
    | some pk =>
      let chainSet := env.effectiveSignerSet.getD []
      if pk ∈ chainSet then true
      else if registryHasPubkey cfg registry pk then true
      else if registry.isEmpty then chainSet.isEmpty
      else false

def isKnownSender (envelope : Envelope Config) : Bool := isAdmissibleSigner cfg env envelope

/- The map keeps one entry an address, so the first match is the entry. -/
def resolveSenderPubkey (envelope : Envelope Config) : Option String :=
  match provenPubkey cfg envelope with
  | some pk => some pk
  | none =>
    match env.validatorPubkeys with
    | none => none
    | some registry =>
      match registry.find? (fun entry => entry.1 = envelope.sender) with
      | none => none
      | some entry => if entry.2 = "" then none else some (cfg.toLowerCase entry.2)

def selfPubkey : Option String := cfg.identity.map cfg.toLowerCase

def addSelfPubkey (keys : OrderedSet String) : OrderedSet String :=
  match selfPubkey cfg with
  | none => keys
  | some pk => keys.add pk

def addSenderPubkey (envelope : Envelope Config) (keys : OrderedSet String) : OrderedSet String :=
  match resolveSenderPubkey cfg env envelope with
  | none => keys
  | some pk => keys.add pk

def isFederatedHub : Bool :=
  1 < cfg.minValidators || 1 < env.validatorSet.length || 0 < env.openPeers || 0 < cfg.seedNodes

/- round is the height of the round's async context, none outside any round. -/
def isFederated (round : Option (Option ℚ)) : Bool :=
  1 < cfg.minValidators || 1 < env.validatorSet.length ||
    match round with
    | none => false
    | some height => cfg.federatedHubActive height && isFederatedHub cfg env

def hasDeterministicSnapshot (snapshot : Option Snapshot) : Bool :=
  match snapshot with
  | none => false
  | some s => s.validators.isSome

def snapshotRows (snapshot : Option Snapshot) : List StakeWeightedQuorum.Row :=
  match snapshot with
  | none => []
  | some s => s.validators.getD []

def isEmptyFederationSnapshot (round : Option (Option ℚ)) (snapshot : Option Snapshot) : Bool :=
  isFederated cfg env round && hasDeterministicSnapshot snapshot && (snapshotRows snapshot).isEmpty

def isNonMemberSnapshot (round : Option (Option ℚ)) (snapshot : Option Snapshot) : Bool :=
  if !isFederated cfg env round || (snapshotRows snapshot).isEmpty then false
  else
    match selfPubkey cfg with
    | none => true
    | some self => !(snapshotRows snapshot).any (fun v => cfg.toLowerCase v.pubkey = self)

def liveQuorum : ℕ :=
  let n := if 0 < env.validatorSet.length then env.validatorSet.length else env.openPeers + 1
  bftQuorumOrSingle n 0

/- The engine's getQuorum() where no snapshot is locked. -/
def roundQuorum (snapshot : Option Snapshot) : ℕ :=
  match snapshot with
  | some s => getQuorum (some s)
  | none => liveQuorum env

def normalizeValidators (snapshot : Option Snapshot) (weighted : Bool) :
    StakeWeightedQuorum.Snapshot :=
  if weighted then
    ⟨(snapshotRows snapshot).map (fun v => ⟨cfg.toLowerCase v.pubkey,
        some (v.source.getD ""), some (v.weight.getD "0")⟩),
      hasDeterministicSnapshot snapshot && snapshot.any (·.truncated)⟩
  else ⟨[], false⟩

def memberPubkeySet (snapshot : Option Snapshot) : Option (OrderedSet String) :=
  let keys := ((snapshotRows snapshot).filter (fun v => v.pubkey ≠ "")).map
    (fun v => cfg.toLowerCase v.pubkey)
  if keys.isEmpty then none else some (OrderedSet.ofList keys)

structure Leader where
  addr : Option String
  pubkey : Option String

def addrForPubkey (pubkey : String) : Option String :=
  match env.validatorSet.find? (fun v => v.pubkey.map cfg.toLowerCase = some pubkey) with
  | some v => some v.addr
  | none =>
    let found := ((env.validatorPubkeys.getD []).filter
      (fun entry => entry.2 ≠ "" && cfg.toLowerCase entry.2 = pubkey)).map Prod.fst
    match found.min? with
    | some addr => some addr
    | none => if selfPubkey cfg = some pubkey then some cfg.validatorAddr else none

/- The array index (seq + view) % n, none where the array has no such property:
   a fractional sum, or a negative remainder. -/
def rotationIndex (sum : ℚ) (n : ℕ) : Option ℕ :=
  if sum.den = 1 then
    let r := sum.num.tmod n
    if r < 0 then none else some r.toNat
  else none

def leaderAt (seq view : ℚ) (memberPubkeys : Option (OrderedSet String)) : Option Leader :=
  match memberPubkeys with
  | some members =>
    let keys := members.items.insertionSort (· ≤ ·)
    match (rotationIndex (seq + view) keys.length).bind (fun i => keys[i]?) with
    | none => some ⟨none, none⟩
    | some pubkey => some ⟨addrForPubkey cfg env pubkey, some pubkey⟩
  | none =>
    if env.validatorSet.isEmpty then none
    else
      ((rotationIndex (seq + view) env.validatorSet.length).bind
        (fun i => env.validatorSet[i]?)).map (fun v => ⟨some v.addr, v.pubkey⟩)

def isLeaderIdentity (leader : Option Leader) (addr : String) (pubkey : Option String) : Bool :=
  match leader with
  | none => false
  | some l =>
    (l.addr = some addr && addr ≠ "") ||
      match l.pubkey with
      | none => false
      | some lpk => lpk ≠ "" && pubkey = some (cfg.toLowerCase lpk)

def leaderIdentityOk (seq view : ℚ) (envelope : Envelope Config)
    (memberPubkeys : Option (OrderedSet String)) : Bool :=
  match leaderAt cfg env seq view memberPubkeys with
  | none => false
  | some leader =>
    isLeaderIdentity cfg (some leader) envelope.sender (resolveSenderPubkey cfg env envelope)

def equivVote (seq view : ℚ) (digest : String) (blockHeight : Option ℚ) : Option EquivVote :=
  if cfg.equivHeaderActive blockHeight && cfg.identity.isSome then
    some ⟨seq, view, blockHeight, digest⟩
  else none

/- Signing keys decide in both modes; addresses only while no key is known. -/
def quorumMet (quorum : ℕ) (weighted : Bool) (validators : StakeWeightedQuorum.Snapshot)
    (addrs keys : OrderedSet String) : Bool :=
  if weighted then
    StakeWeightedQuorum.meetsStakeThreshold cfg.toLowerCase validators keys.items
  else decide (quorum ≤ if 0 < keys.size then keys.size else addrs.size)

theorem add_self_pubkey_mem {keys : OrderedSet String} {k : String} :
    k ∈ addSelfPubkey cfg keys ↔ selfPubkey cfg = some k ∨ k ∈ keys := by
  simp only [addSelfPubkey]
  split
  · rename_i missing
    simp [missing]
  · rename_i pk present
    simp [present, eq_comm]

theorem add_sender_pubkey_mem {envelope : Envelope Config} {keys : OrderedSet String}
    {k : String} : k ∈ addSenderPubkey cfg env envelope keys ↔
      resolveSenderPubkey cfg env envelope = some k ∨ k ∈ keys := by
  simp only [addSenderPubkey]
  split
  · rename_i missing
    simp [missing]
  · rename_i pk present
    simp [present, eq_comm]

/-- An admitted envelope carries a proven key, and that key is the one counted. -/
theorem known_sender_key {envelope : Envelope Config}
    (known : isKnownSender cfg env envelope = true) :
    ∃ pk, provenPubkey cfg envelope = some pk ∧ resolveSenderPubkey cfg env envelope = some pk := by
  simp only [isKnownSender, isAdmissibleSigner] at known
  split at known
  · simp at known
  · split at known
    · simp at known
    · rename_i pk proven
      exact ⟨pk, proven, by simp [resolveSenderPubkey, proven]⟩

end XChainHub.Pbft
