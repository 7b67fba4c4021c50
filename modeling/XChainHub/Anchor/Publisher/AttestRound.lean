import XChainHub.Anchor.Publisher.BundleWire
import XChainHub.Consensus.EquivocationHeader
import XChainHub.Consensus.StakeWeightedQuorum
import XChainHub.Lib.BftQuorum
import XChainHub.Library.GuardedRuns
import XChainHub.Library.OrderedMap
import XChainHub.Identity

/-!
The publisher-attestation round of anchor/publisher/attest_round.js on the hub
that leads it: its own signature, the XANCPUB_SIGN messages as they come in, the
timer, and the pairs it resolves with.
-/
namespace XChainHub.Anchor.Publisher
open ScriptValue HexText DelimitedText NumberText GuardedRuns ValidatorIdentity BftQuorum
  EquivocationHeader StakeWeightedQuorum

structure Bundle where
  network : String
  snapshotBlock : Number

structure Resolution where
  met : Bool
  sigs : List SignaturePair
  deriving DecidableEq

structure AttestRound where
  bundle : Bundle
  canonical : String
  quorum : ℕ
  weighted : Bool
  validators : Snapshot
  signatures : OrderedMap String String
  resolved : Option Resolution

inductive AttestEvent where
  | sign (data : Value)
  | timeout

def anchorRewardAmount : String := "10.00000000"

section Round
variable (js : Builtins) (crypto : Ed25519)

def attestationCanonical (activation : String → Option ℤ) (b : Bundle) (publisher : String) :
    String :=
  let base := String.intercalate "|" ["XANCPUB", "anchor_bundle", b.snapshotBlock.text,
    b.snapshotBlock.text, js.toLowerCase publisher, anchorRewardAmount]
  if isEquivHeaderActive activation b.snapshotBlock.parseInt b.network then
    buildEquivCanonical "XCHECKPOINT"
      ("XANCPUB|bundle|" ++ b.network ++ "|" ++ b.snapshotBlock.text) "0" base
  else base

def checkAttestQuorum (round : AttestRound) : AttestRound :=
  match round.resolved with
  | some _ => round
  | none =>
    let met := if round.weighted then
        meetsStakeThreshold js.toLowerCase round.validators round.signatures.keys.items
      else round.quorum ≤ round.signatures.size
    if met then { round with resolved := some ⟨true, round.signatures.entries⟩ } else round

def signerOf (data : Value) : String :=
  js.toLowerCase ((data.field "sig_pubkey").orElse (.text "")).asText

def handleAttestSign (round : AttestRound) (data : Value) : AttestRound :=
  if round.resolved.isSome || data.isFalsy then round
  else if (data.field "network").asText ≠ round.bundle.network ||
      !strictEquals ((data.field "snapshot_block").asNumber js) round.bundle.snapshotBlock then
    round
  else if !round.validators.rows.any (fun v => v.pubkey = signerOf js data) then round
  else if !verify crypto round.canonical ((data.field "sig").orElse (.text "")).asText
      (signerOf js data) then round
  else checkAttestQuorum js
    { round with signatures := round.signatures.set (signerOf js data) (data.field "sig").asText }

def attestStep (round : AttestRound) : AttestEvent → AttestRound
  | .sign data => handleAttestSign js crypto round data
  | .timeout =>
    if round.resolved.isSome then round
    else { round with resolved := some ⟨false, round.signatures.entries⟩ }

/- The opening: settled at once, or a round on the wire. abstains stands for abstainWithoutPeers
   and claimed for claimAttestSlot; no signing set is one that did not resolve. -/
def runPublisherAttestationRound (identity : Identity) (activation : String → Option ℤ)
    (b : Bundle) (signingSet : Option Snapshot) (weighted abstains claimed : Bool) :
    Resolution ⊕ AttestRound :=
  match signingSet with
  | none => .inl ⟨false, []⟩
  | some set =>
    let me := js.toLowerCase identity.getPubkeyHex
    let snapCount := set.rows.length
    let canonical := attestationCanonical js activation b me
    if snapCount = 0 || !set.rows.any (fun v => v.pubkey = me) || abstains || !claimed then
      .inl ⟨false, []⟩
    else
      let mySig := identity.sign canonical
      if snapCount ≤ 1 then .inl ⟨true, [(me, mySig)]⟩
      else .inr (checkAttestQuorum js
        { bundle := b, canonical, quorum := bftQuorumOrSingle snapCount 1, weighted
          validators := set, signatures := OrderedMap.empty.set me mySig, resolved := none })

/- What the caller of the round gets once these events are in. -/
def attestOutcome (opening : Resolution ⊕ AttestRound) (events : List AttestEvent) :
    Option Resolution :=
  match opening with
  | .inl settled => some settled
  | .inr round => (run (attestStep js crypto) round events).resolved

end Round

section Collecting
variable {js : Builtins} {crypto : Ed25519}

/- Where a pair of the round comes from: this hub's own, or a message. -/
def Sent (js : Builtins) (own : SignaturePair) (events : List AttestEvent) (s : SignaturePair) :
    Prop :=
  s = own ∨ ∃ data, .sign data ∈ events ∧ s = (signerOf js data, (data.field "sig").asText)

/- The pairs a round holds, and the pairs it resolved with. -/
structure RoundKept (js : Builtins) (own : SignaturePair) (events : List AttestEvent)
    (round : AttestRound) : Prop where
  held : ∀ s ∈ round.signatures.entries, Collected s ∧ Sent js own events s
  resolved : ∀ r ∈ round.resolved, ∀ s ∈ r.sigs, Collected s ∧ Sent js own events s

theorem RoundKept.resolve {own : SignaturePair} {events : List AttestEvent} {round : AttestRound}
    (kept : RoundKept js own events round) (met : Bool) :
    RoundKept js own events { round with resolved := some ⟨met, round.signatures.entries⟩ } := by
  constructor
  · exact kept.held
  · intro r settled s member
    rw [Option.mem_some_iff] at settled
    subst settled
    exact kept.held s member

theorem check_attest_kept {own : SignaturePair} {events : List AttestEvent} {round : AttestRound}
    (kept : RoundKept js own events round) :
    RoundKept js own events (checkAttestQuorum js round) := by
  unfold checkAttestQuorum
  split
  · exact kept
  · simp only
    split
    · split
      · exact kept.resolve true
      · exact kept
    · split
      · exact kept.resolve true
      · exact kept

theorem lowered_signer {data : Value} {canonical sig : String}
    (verified : verify crypto canonical sig (signerOf js data) = true) :
    LowerHex 64 (signerOf js data) := by
  obtain ⟨-, sized, hex⟩ := verified_signature verified
  have lower := lower_of_hex js sized hex
  rw [signerOf, js.lower_twice] at lower
  exact lower

theorem handle_attest_sign_kept {own : SignaturePair} {events : List AttestEvent}
    {round : AttestRound} {data : Value} (kept : RoundKept js own events round)
    (sent : AttestEvent.sign data ∈ events) :
    RoundKept js own events (handleAttestSign js crypto round data) := by
  unfold handleAttestSign
  split
  · exact kept
  split
  · exact kept
  split
  · exact kept
  split
  · exact kept
  · rename_i verified
    rw [Bool.not_eq_true, Bool.not_eq_false'] at verified
    have signer := lowered_signer verified
    have shown : ((data.field "sig").orElse (.text "")).asText = (data.field "sig").asText := by
      unfold Value.orElse
      split
      · rename_i falsy
        rw [Value.orElse, if_pos falsy] at verified
        exact absurd verified (by simp [Value.asText, verify])
      · rfl
    rw [shown] at verified
    apply check_attest_kept
    constructor
    · rintro ⟨key, sig⟩ member
      rcases OrderedMap.mem_set member with ⟨rfl, rfl⟩ | ⟨-, older⟩
      · exact ⟨⟨signer, (verified_signature verified).1⟩, Or.inr ⟨data, sent, rfl⟩⟩
      · exact kept.held (key, sig) older
    · exact kept.resolved

theorem attest_step_kept {own : SignaturePair} {events : List AttestEvent} {round : AttestRound}
    (e : AttestEvent) (kept : RoundKept js own events round) (sent : e ∈ events) :
    RoundKept js own events (attestStep js crypto round e) := by
  cases e with
  | sign data => exact handle_attest_sign_kept kept sent
  | timeout =>
    unfold attestStep
    simp only
    split
    · exact kept
    · exact kept.resolve false

theorem attest_run_kept (crypto : Ed25519) {own : SignaturePair} {all events : List AttestEvent}
    {round : AttestRound} (kept : RoundKept js own all round) (sent : ∀ e ∈ events, e ∈ all) :
    RoundKept js own all (run (attestStep js crypto) round events) := by
  induction events generalizing round with
  | nil => exact kept
  | cons e events ih =>
    apply ih (attest_step_kept e kept (sent e List.mem_cons_self))
    intro later member
    exact sent later (List.mem_cons_of_mem _ member)

theorem own_collected (identity : Identity) (canonical : String) :
    Collected (js.toLowerCase identity.getPubkeyHex, identity.sign canonical) := by
  constructor
  · rw [lower_hex_fixed js (own_pubkey_lower identity)]
    exact own_pubkey_lower identity
  · simp only [Identity.sign, String.toList_ofList]
    rw [hex_bytes_text, identity.signature_length]

theorem outcome_collected {identity : Identity} {activation : String → Option ℤ} {b : Bundle}
    {signingSet : Option Snapshot} {weighted abstains claimed : Bool} {events : List AttestEvent}
    {r : Resolution}
    (outcome : attestOutcome js crypto (runPublisherAttestationRound js identity activation b
      signingSet weighted abstains claimed) events = some r) :
    ∀ s ∈ r.sigs, Collected s ∧
      Sent js (js.toLowerCase identity.getPubkeyHex, identity.sign
        (attestationCanonical js activation b (js.toLowerCase identity.getPubkeyHex)))
        events s := by
  unfold runPublisherAttestationRound at outcome
  split at outcome
  · rw [attestOutcome, Option.some.injEq] at outcome
    subst outcome
    intro s member
    exact absurd member (by simp)
  · rename_i set
    simp only at outcome
    split at outcome
    · rw [attestOutcome, Option.some.injEq] at outcome
      subst outcome
      intro s member
      exact absurd member (by simp)
    · split at outcome
      · rw [attestOutcome, Option.some.injEq] at outcome
        subst outcome
        intro s member
        rw [List.mem_singleton] at member
        subst member
        exact ⟨own_collected identity _, Or.inl rfl⟩
      · rw [attestOutcome] at outcome
        have start : RoundKept js (js.toLowerCase identity.getPubkeyHex, identity.sign
            (attestationCanonical js activation b (js.toLowerCase identity.getPubkeyHex))) events
            { bundle := b
              canonical := attestationCanonical js activation b
                (js.toLowerCase identity.getPubkeyHex)
              quorum := bftQuorumOrSingle set.rows.length 1, weighted, validators := set
              signatures := OrderedMap.empty.set (js.toLowerCase identity.getPubkeyHex)
                (identity.sign (attestationCanonical js activation b
                  (js.toLowerCase identity.getPubkeyHex)))
              resolved := none } := by
          constructor
          · rintro ⟨key, sig⟩ member
            rcases OrderedMap.mem_set member with ⟨rfl, rfl⟩ | ⟨-, older⟩
            · exact ⟨own_collected identity _, Or.inl rfl⟩
            · exact absurd older (by simp [OrderedMap.empty])
          · intro r settled
            exact absurd settled (by simp)
        have kept := attest_run_kept crypto (check_attest_kept start) (fun e member => member)
        exact kept.resolved r outcome

end Collecting

/- What a round's payloads have to satisfy, for the v0 and for the v3 wire. -/
def V7Sound (js : Builtins) (publisher : String) (sigs : List SignaturePair)
    (sections : List BundleRow) : Prop :=
  WireSound js (buildV7Payload js sections publisher)
    (appendPublisherTail js (v7Front js sections) publisher sigs) sigs

def V3Sound (js : Builtins) (publisher : String) (sigs : List SignaturePair)
    (header : Option (String × ℕ)) (sections : List BundleRow) (archive : Option ArchiveSection) :
    Prop :=
  WireSound js (buildV3Payload js header sections archive publisher)
    (appendPublisherTail js (v3Front js header sections archive) publisher sigs) sigs

/-- Over whatever messages a round met its quorum, its payloads are sound just when the bundle's own
    fields hold no bar and no collected signature text goes on after its 128 digits; and every
    collected text but this hub's own came in a message. -/
theorem attested_wire_sound_iff (js : Builtins) (crypto : Ed25519) (identity : Identity)
    (activation : String → Option ℤ) (b : Bundle) (signingSet : Option Snapshot)
    (weighted abstains claimed : Bool) (events : List AttestEvent) (sigs : List SignaturePair)
    (resolved : attestOutcome js crypto (runPublisherAttestationRound js identity activation b
      signingSet weighted abstains claimed) events = some ⟨true, sigs⟩) :
    (∀ sections, V7Sound js (js.toLowerCase identity.getPubkeyHex) sigs sections ↔
      (∀ f ∈ v7Front js sections, '|' ∉ f.toList) ∧ ∀ s ∈ sigs, s.2.toList.length = 128) ∧
    (∀ header sections archive,
      V3Sound js (js.toLowerCase identity.getPubkeyHex) sigs header sections archive ↔
        (∀ f ∈ v3Front js header sections archive, '|' ∉ f.toList) ∧
          ∀ s ∈ sigs, s.2.toList.length = 128) ∧
    ((∀ data, .sign data ∈ events → (data.field "sig").asText.toList.length ≤ 128) →
      ∀ s ∈ sigs, s.2.toList.length = 128) := by
  have kept := outcome_collected resolved
  have collected : ∀ s ∈ sigs, Collected s := fun s member => (kept s member).1
  have own : LowerHex 64 (js.toLowerCase identity.getPubkeyHex) :=
    (own_collected identity "").1
  refine ⟨?_, ?_, ?_⟩
  · intro sections
    exact wire_sound_iff own collected (v7_counts js sections _ sigs)
  · intro header sections archive
    exact wire_sound_iff own collected (v3_counts js header sections archive _ sigs)
  · intro short s member
    have long := collected_long (collected s member)
    rcases (kept s member).2 with rfl | ⟨data, sent, rfl⟩
    · have signed := own_signature_lower identity
        (attestationCanonical js activation b (js.toLowerCase identity.getPubkeyHex))
      exact signed.1
    · have bound := short data sent
      simp only at long ⊢
      omega

section Sample

def sampleBytes (count byte : ℕ) : List ℕ := List.replicate count byte

/- Keys are their raw bytes, and every payload has the one signature 0xab.... -/
def sampleCrypto : Ed25519 where
  PublicKey := List ℕ
  createPublicKey raw := if raw.length = 32 then some raw else none
  verify _ _ sig := sig = sampleBytes 64 171
  raw_length := raw_of_sized
  signature_length key payload sig verified := by
    rw [decide_eq_true_iff] at verified
    rw [verified]
    rfl

def sampleIdentity : Identity where
  rawPubkey := sampleBytes 32 17
  signBytes _ := sampleBytes 64 171
  pubkey_length := rfl
  signature_length _ := rfl

def samplePeer : String := String.ofList (hexText (sampleBytes 32 34))

def sampleSigners : Snapshot :=
  ⟨[⟨sampleIdentity.getPubkeyHex, some "a", some "1"⟩, ⟨samplePeer, some "b", some "1"⟩], false⟩

def sampleBundle : Bundle := ⟨"regtest", Number.ofNat 900⟩

def sampleSignature : String := String.ofList (hexText (sampleBytes 64 171))

def coSigned (sig : String) : AttestEvent :=
  .sign (.object [("network", .text "regtest"), ("snapshot_block", .number (Number.ofNat 900)),
    ("sig_pubkey", .text samplePeer), ("sig", .text sig)])

def sampleRow : BundleRow where
  chain := "BTC"
  network := "regtest"
  blockIndex := 894
  blockHash := samplePeer
  ledgerHash := samplePeer
  actionsHash := samplePeer
  contractHash := samplePeer
  checkpointSeq := 900
  snapshotBlock := 900
  stateRoot := samplePeer
  stateRootVersion := "1"
  blockMerkleRoot := samplePeer
  blockMerkleVersion := "1"
  validatorSignatures := [(samplePeer, sampleSignature)]

def sampleOutcome (sig : String) : Option Resolution :=
  attestOutcome decimalBuiltins sampleCrypto
    (runPublisherAttestationRound decimalBuiltins sampleIdentity (fun _ => none) sampleBundle
      (some sampleSigners) false false true) [coSigned sig]

def injectedSigs : { sigs : List SignaturePair //
    sampleOutcome (sampleSignature ++ "|1|2") = some ⟨true, sigs⟩ } :=
  ⟨[(sampleIdentity.getPubkeyHex, sampleSignature), (samplePeer, sampleSignature ++ "|1|2")],
    by decide +kernel⟩

def plainSigs : { sigs : List SignaturePair //
    sampleOutcome sampleSignature = some ⟨true, sigs⟩ } :=
  ⟨[(sampleIdentity.getPubkeyHex, sampleSignature), (samplePeer, sampleSignature)],
    by decide +kernel⟩

/- The front of the sample row with what it is written of. -/
def plainFront : { rows : List BundleRow //
    ∀ f ∈ v7Front decimalBuiltins rows, '|' ∉ f.toList } :=
  ⟨[sampleRow], by decide +kernel⟩

theorem sample_signature_length : sampleSignature.toList.length = 128 := by
  simp [sampleSignature, sampleBytes, hexText]

/- A co-signature with two more fields behind its digits is counted and written out. -/
theorem trailing_fields_injected :
    ∃ sigs, sampleOutcome (sampleSignature ++ "|1|2") = some ⟨true, sigs⟩ ∧
      ¬ V7Sound decimalBuiltins (decimalBuiltins.toLowerCase sampleIdentity.getPubkeyHex) sigs
        [sampleRow] := by
  refine ⟨injectedSigs.val, injectedSigs.property, ?_⟩
  intro sound
  have signature := sound.signatures (samplePeer, sampleSignature ++ "|1|2") (by simp [injectedSigs])
  have long : ¬ LowerHex 128 (decimalBuiltins.toLowerCase (sampleSignature ++ "|1|2")) := by
    intro ⟨length, _⟩
    simp [decimalBuiltins, sample_signature_length] at length
  exact long signature

theorem plain_co_signature_sound :
    V7Sound decimalBuiltins (decimalBuiltins.toLowerCase sampleIdentity.getPubkeyHex)
      [(sampleIdentity.getPubkeyHex, sampleSignature), (samplePeer, sampleSignature)]
      [sampleRow] := by
  have exactly := attested_wire_sound_iff decimalBuiltins sampleCrypto sampleIdentity
    (fun _ => none) sampleBundle (some sampleSigners) false false true
    [coSigned sampleSignature] _ plainSigs.property
  apply (exactly.1 [sampleRow]).mpr
  constructor
  · exact plainFront.property
  · intro s member
    rcases List.mem_cons.mp member with rfl | member
    · exact sample_signature_length
    · rw [List.mem_singleton.mp member]
      exact sample_signature_length

end Sample

end XChainHub.Anchor.Publisher
