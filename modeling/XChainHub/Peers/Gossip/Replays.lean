import XChainHub.Library.GuardedRuns
import XChainHub.Peers.Gossip.Inbound

/-!
No signed envelope reaches the handlers twice. The cache guards every envelope that it was
given an id of for as long as the freshness check lets it in, while the pruner drops no such
id early and no peer sends back a relay authentication of this hub.
-/
namespace XChainHub.Gossip
open GuardedRuns ReplayWindow

/- The freshness check may still let the envelope in, now or later. -/
def Live (cfg : Params) (e : Envelope) (now : ℤ) : Prop := (now : ℚ) ≤ e.timestamp + cfg.maxSkew

instance (cfg : Params) (e : Envelope) (now : ℤ) : Decidable (Live cfg e now) :=
  inferInstanceAs (Decidable ((now : ℚ) ≤ e.timestamp + cfg.maxSkew))

/- The envelopes whose ids were put in the cache, and those signed for a relay. -/
def cached (os : List Output) : List Envelope :=
  os.filterMap (fun
    | .emitted e => some e
    | .authored e => some e
    | .relayAuth _ => none)

def relayAuths (os : List Output) : List Envelope :=
  os.filterMap (fun
    | .relayAuth e => some e
    | _ => none)

section Conditions
variable (cfg : Params) (pm : PeerManager) (e : Event)

/- The envelope whose id an event puts in the cache, and when. -/
def remembers : Option (Envelope × ℕ) :=
  match e with
  | .inbound f =>
    match received cfg f with
    | some envelope => if pm.seenIds.has envelope.id then none else some (envelope, f.added)
    | none => none
  | .broadcast type data members made added =>
    if authoringHeld cfg members then none else some (buildEnvelope cfg type data made, added)
  | .sendToPeer type data members connected made added =>
    if authoringHeld cfg members then none
    else if connected then some (buildEnvelope cfg type data made, added)
    else none
  | .prune _ => none

/- The clock does not go back, and a full cache gives up no id whose envelope is live. -/
structure Premises : Prop where
  clock : (pm.clock :: e.readings).Pairwise (· ≤ ·)
  room : ∀ x ∈ remembers cfg pm e, ∀ oldest ∈ evicted cfg.dedupCacheMax pm.seenIds,
    ∀ old ∈ cached pm.trace, old.id = oldest → ¬ Live cfg old x.2

/- A tick of the pruner drops no id whose envelope is live. -/
def PrunesLapsed : Prop :=
  match e with
  | .prune now => ∀ old ∈ cached pm.trace, Live cfg old now →
      ∀ expiry ∈ pm.seenIds.get old.id, (now : ℤ) < expiry
  | _ => True

/- No frame carries as its envelope what this hub signed for a relay. -/
def KeepsRelayAuths : Prop :=
  match e with
  | .inbound f => ∀ envelope ∈ received cfg f, ∀ auth ∈ relayAuths pm.trace, ¬ auth.Same envelope
  | _ => True

structure Guard : Prop extends Premises cfg pm e where
  prunes : PrunesLapsed cfg pm e
  relays : KeepsRelayAuths cfg pm e

instance : Decidable (Premises cfg pm e) :=
  decidable_of_iff ((pm.clock :: e.readings).Pairwise (· ≤ ·) ∧
      ∀ x ∈ remembers cfg pm e, ∀ oldest ∈ evicted cfg.dedupCacheMax pm.seenIds,
        ∀ old ∈ cached pm.trace, old.id = oldest → ¬ Live cfg old x.2)
    ⟨fun both => ⟨both.1, both.2⟩, fun kept => ⟨kept.clock, kept.room⟩⟩

instance : Decidable (PrunesLapsed cfg pm e) := by
  unfold PrunesLapsed
  split <;> infer_instance

instance : Decidable (KeepsRelayAuths cfg pm e) := by
  unfold KeepsRelayAuths
  split <;> infer_instance

instance : Decidable (Guard cfg pm e) :=
  decidable_of_iff (Premises cfg pm e ∧ PrunesLapsed cfg pm e ∧ KeepsRelayAuths cfg pm e)
    ⟨fun all => ⟨all.1, all.2.1, all.2.2⟩, fun kept => ⟨kept.toPremises, kept.prunes, kept.relays⟩⟩

end Conditions

/- y emits an envelope under the signature of that of x. -/
def Repeats (x y : Output) : Prop :=
  match y with
  | .emitted e => x.envelope.Same e
  | _ => False

instance (x y : Output) : Decidable (Repeats x y) := by
  unfold Repeats
  split <;> infer_instance

/- What is emitted stands under a signature of its own. -/
def Distinct (os : List Output) : Prop := os.Pairwise (fun x y => ¬ Repeats x y)

instance (os : List Output) : Decidable (Distinct os) :=
  inferInstanceAs (Decidable (os.Pairwise _))

structure Shielded (cfg : Params) (pm : PeerManager) : Prop where
  guarding : Guarding Envelope.id (Live cfg) (pm.clock : ℤ) pm.seenIds (cached pm.trace)
  distinct : Distinct pm.trace

section Steps
variable {cfg : Params} {pm : PeerManager} {e : Event}

theorem live_earlier {m : Envelope} {a b : ℤ} (order : a ≤ b) (live : Live cfg m b) : Live cfg m a :=
  (Int.cast_le.mpr order).trans live

theorem same_live {a b : Envelope} (same : a.Same b) {now : ℤ} (live : Live cfg b now) :
    Live cfg a now := by
  rw [Live, same.timestamp]
  exact live

theorem valid_live {now : ℕ} {v : ScriptValue.Value} {envelope : Envelope}
    (valid : validateInboundEnvelope cfg now v = some envelope) : Live cfg envelope now := by
  simp only [validateInboundEnvelope] at valid
  split at valid
  · split at valid
    · rename_i timestamp stamped
      split at valid
      · simp at valid
      · split at valid
        · simp at valid
        · rename_i fresh
          simp only [Option.some.injEq] at valid
          subst valid
          have near := (abs_le.mp (not_lt.mp fresh)).2
          have later : (now : ℚ) ≤ timestamp + cfg.maxSkew := by linarith
          simpa [Live] using later
    · simp at valid
  · simp at valid

theorem received_live {f : Frame} {envelope : Envelope} (arrives : received cfg f = some envelope) :
    Live cfg envelope f.checked := by
  simp only [received] at arrives
  split at arrives
  · simp at arrives
  · rename_i valid found
    obtain ⟨v, -, checked⟩ := Option.bind_eq_some_iff.mp found
    split at arrives
    · simp at arrives
    · split at arrives
      · simp at arrives
      · split at arrives
        · simp only [Option.some.injEq] at arrives
          rw [← arrives]
          exact valid_live checked
        · simp at arrives

theorem distinct_append {os more : List Output} (distinct : Distinct os) (among : Distinct more)
    (across : ∀ x ∈ os, ∀ e, .emitted e ∈ more → ¬ x.envelope.Same e) : Distinct (os ++ more) := by
  refine List.pairwise_append.mpr ⟨distinct, among, ?_⟩
  intro x before y new
  cases y with
  | emitted e => exact across x before e new
  | authored e => exact not_false
  | relayAuth e => exact not_false

theorem guarding_clock {seen : OrderedMap String ℤ} {known : List Envelope} {a b : ℕ} (order : a ≤ b)
    (guarding : Guarding Envelope.id (Live cfg) (a : ℤ) seen known) :
    Guarding Envelope.id (Live cfg) (b : ℤ) seen known :=
  guarding_later (fun _ live => live_earlier (Int.ofNat_le.mpr order) live) guarding

/- An id goes into the cache while the premises hold: the cache guards its envelope too. -/
theorem remembered_guarding {envelope : Envelope} {added : ℕ} (premises : Premises cfg pm e)
    (puts : remembers cfg pm e = some (envelope, added)) (later : pm.clock ≤ added)
    (shielded : Shielded cfg pm) :
    Guarding Envelope.id (Live cfg) (added : ℤ)
      (addToDedup cfg pm envelope.id added).seenIds (cached pm.trace ++ [envelope]) :=
  guarding_remember (fun oldest dropped m known same =>
    premises.room (envelope, added) puts oldest dropped m known same)
    (guarding_clock later shielded.guarding)

theorem idle_shielded {later : ℕ} (order : pm.clock ≤ later) (shielded : Shielded cfg pm) :
    Shielded cfg { pm with clock := later } :=
  ⟨guarding_clock order shielded.guarding, shielded.distinct⟩

theorem inbound_shielded {f : Frame} (premises : Premises cfg pm (.inbound f))
    (relays : KeepsRelayAuths cfg pm (.inbound f)) (shielded : Shielded cfg pm) :
    Shielded cfg (step cfg pm (.inbound f)) := by
  have order := premises.clock
  simp only [Event.readings, List.pairwise_cons, List.forall_mem_cons] at order
  obtain ⟨⟨checked, -, added, -, stamped, -⟩, -, -, ⟨-, last, -⟩, -⟩ := order
  simp only [step, handleEvent, handleInbound, Event.readings]
  cases arrives : received cfg f with
  | none => exact idle_shielded stamped shielded
  | some envelope =>
    cases seen : pm.seenIds.has envelope.id with
    | true =>
      simp only [seen, if_true]
      exact idle_shielded stamped shielded
    | false =>
      simp only [seen, Bool.false_eq_true, if_false]
      have puts : remembers cfg pm (.inbound f) = some (envelope, f.added) := by
        simp [remembers, arrives, seen]
      have guarding := remembered_guarding premises puts added shielded
      refine ⟨?_, ?_⟩
      · have known : cached (pm.trace ++ [.emitted envelope, .relayAuth (buildEnvelope cfg
            RELAY_AUTH_TYPE (relayBinding envelope.value) f.relaying)]) =
            cached pm.trace ++ [envelope] := by
          simp [cached, List.filterMap_append]
        simp only [PeerManager.put, add_to_dedup_trace, known]
        exact guarding_clock last guarding
      · refine distinct_append shielded.distinct ?_ ?_
        · simp [Distinct, Repeats]
        · intro x before sent emission same
          have sent_eq : sent = envelope := by simpa using emission
          subst sent_eq
          -- what was remembered under this signature is as live as the envelope that came
          have guarded := guarding_clock checked shielded.guarding
          have live := same_live same (received_live arrives)
          have held (known : x.envelope ∈ cached pm.trace) : False := by
            have present := guarded _ known live
            rw [same.id, seen] at present
            simp at present
          cases x with
          | emitted e => exact held (List.mem_filterMap.mpr ⟨_, before, rfl⟩)
          | authored e => exact held (List.mem_filterMap.mpr ⟨_, before, rfl⟩)
          | relayAuth e =>
            exact relays sent arrives e (List.mem_filterMap.mpr ⟨_, before, rfl⟩) same

theorem author_shielded {envelope : Envelope} {added : ℕ} (premises : Premises cfg pm e)
    (puts : remembers cfg pm e = some (envelope, added)) (later : pm.clock ≤ added)
    (shielded : Shielded cfg pm) :
    Shielded cfg { author cfg pm envelope added with clock := added } := by
  refine ⟨?_, ?_⟩
  · have known : cached (pm.trace ++ [.authored envelope]) = cached pm.trace ++ [envelope] := by
      simp [cached, List.filterMap_append]
    simp only [author, PeerManager.put, add_to_dedup_trace, known]
    exact remembered_guarding premises puts later shielded
  · refine distinct_append shielded.distinct ?_ ?_
    · simp [Distinct]
    · intro x before sent emission
      simp at emission

theorem prune_shielded {now : ℕ} (premises : Premises cfg pm (.prune now))
    (prunes : PrunesLapsed cfg pm (.prune now)) (shielded : Shielded cfg pm) :
    Shielded cfg (step cfg pm (.prune now)) := by
  have order : pm.clock ≤ now := by simpa [Event.readings] using premises.clock
  exact ⟨guarding_prune prunes (guarding_clock order shielded.guarding), shielded.distinct⟩

/-- The step lemma: each event keeps what is live in the cache and emits nothing anew. -/
theorem step_shielded (shielded : Shielded cfg pm) (guard : Guard cfg pm e) :
    Shielded cfg (step cfg pm e) := by
  cases e with
  | inbound f => exact inbound_shielded guard.toPremises guard.relays shielded
  | prune now => exact prune_shielded guard.toPremises guard.prunes shielded
  | broadcast type data members made added =>
    have order : pm.clock ≤ added := by
      have clock := guard.clock
      simp only [Event.readings, List.pairwise_cons, List.forall_mem_cons] at clock
      exact clock.1.2.2.1
    simp only [step, handleEvent, broadcast, Event.readings]
    cases held : authoringHeld cfg members with
    | true =>
      simp only [if_true]
      exact idle_shielded order shielded
    | false =>
      simp only [Bool.false_eq_true, if_false]
      exact author_shielded guard.toPremises (by simp [remembers, held]) order shielded
  | sendToPeer type data members connected made added =>
    have order : pm.clock ≤ added := by
      have clock := guard.clock
      simp only [Event.readings, List.pairwise_cons, List.forall_mem_cons] at clock
      exact clock.1.2.2.1
    simp only [step, handleEvent, sendToPeer, Event.readings]
    cases held : authoringHeld cfg members with
    | true =>
      simp only [if_true]
      exact idle_shielded order shielded
    | false =>
      cases connected with
      | true =>
        simp only [Bool.false_eq_true, if_false, if_true]
        exact author_shielded guard.toPremises (by simp [remembers, held]) order shielded
      | false =>
        simp only [Bool.false_eq_true, if_false]
        exact idle_shielded order shielded

end Steps

/-- While the pruner drops no id of a live envelope and no frame brings back a relay
    authentication of this hub, in every run no envelope is emitted that stands under the
    signature of one emitted, or authored by this hub, before. -/
theorem no_envelope_twice (cfg : Params) (clock : ℕ) {es : List Event}
    (guarded : Admitted (step cfg) (Guard cfg) (.started clock) es) :
    Distinct (run (step cfg) (.started clock) es).trace := by
  have start : Shielded cfg (.started clock) := by
    refine ⟨?_, .nil⟩
    intro m known
    simp [PeerManager.started, cached] at known
  exact (run_invariant (Shielded cfg) (fun _ _ shielded guard => step_shielded shielded guard) start
    guarded).distinct

section Fixtures
open ScriptValue ValidatorIdentity

/- A key signs every payload with its own byte. -/
def bytewise : Ed25519 where
  PublicKey := List ℕ
  createPublicKey raw := if raw.length = 32 then some raw else none
  verify key _ sig := sig = key ++ key && sig.length = 64
  raw_length := raw_of_sized
  signature_length key payload sig verified := by
    simp only [Bool.and_eq_true, decide_eq_true_eq] at verified
    exact verified.2

def identityOf (byte : ℕ) : Identity where
  rawPubkey := List.replicate 32 byte
  signBytes _ := List.replicate 64 byte
  pubkey_length := replicated_key byte
  signature_length _ := List.length_replicate

/- The hub of an address and a key byte, every time left at its default. -/
def hubAt (addr : String) (byte : ℕ) : Params where
  validatorAddr := addr
  identity := some (identityOf byte)
  requireSigs := true
  denyPubkeys := []
  dedupTtl := none
  maxSkewMs := none
  dedupCacheMax := 100000
  js := decimalBuiltins
  crypto := bytewise
  bufferFrom := fun _ => none

def signers : Members :=
  ⟨some ([17, 34, 51].map (fun byte => (identityOf byte).getPubkeyHex)), none⟩

def heartbeat (stamp : ℕ) : Envelope :=
  buildEnvelope (hubAt "peer" 34) "HEARTBEAT" .undefined ⟨stamp, stamp, "u1"⟩

def frameAt (now : ℕ) (v : Value) (uuid : String) : Event :=
  .inbound ⟨some v, true, signers, now, now, now, ⟨now, now, uuid⟩⟩

def ownHub : Params := hubAt "own" 17

/- An envelope comes twice, and the pruner drops its id when the envelope is stale. -/
def repeatedFrames : List Event :=
  [frameAt 1000000 (heartbeat 999000).value "r1", frameAt 1000500 (heartbeat 999000).value "r2",
    .broadcast "HEARTBEAT" .undefined signers ⟨1000600, 1000600, "u2"⟩ 1000601,
    .prune 1060000]

/- The run with its admission and what it hands on. -/
def framesDropped : { events : List Event //
    (run (step ownHub) (.started 999000) events).trace.map (fun o => o.envelope.id) =
      ["v1:peer:999000:u1", "v1:own:1000000:r1", "v1:own:1000600:u2"] ∧
    Admitted (step ownHub) (Guard ownHub) (.started 999000) events } :=
  ⟨repeatedFrames, by decide +kernel⟩

/-- The second frame is dropped. -/
theorem repeated_frame_dropped :
    (run (step ownHub) (.started 999000) repeatedFrames).trace.map (fun o => o.envelope.id) =
      ["v1:peer:999000:u1", "v1:own:1000000:r1", "v1:own:1000600:u2"] ∧
    Distinct (run (step ownHub) (.started 999000) repeatedFrames).trace := by
  have ran : (run (step ownHub) (.started 999000) repeatedFrames).trace.map (fun o => o.envelope.id) =
      ["v1:peer:999000:u1", "v1:own:1000000:r1", "v1:own:1000600:u2"] ∧
      Admitted (step ownHub) (Guard ownHub) (.started 999000) repeatedFrames :=
    framesDropped.property
  exact ⟨ran.1, no_envelope_twice ownHub 999000 ran.2⟩

/- An envelope stamped a minute ahead of the hub's clock, sent again after a tick. -/
def stampedAhead : List Event :=
  [frameAt 1000000 (heartbeat 1060000).value "r1", .prune 1060000,
    frameAt 1060001 (heartbeat 1060000).value "r2"]

/- What the hub signed for its relay of the first frame, sent back behind the relay
   authentication of a third member. -/
def sentBack : Value :=
  let own := buildEnvelope ownHub RELAY_AUTH_TYPE (relayBinding (heartbeat 999000).value)
    ⟨1000000, 1000000, "r1"⟩
  let auth := buildEnvelope (hubAt "third" 51) RELAY_AUTH_TYPE (relayBinding own.value)
    ⟨1000500, 1000500, "t1"⟩
  .object (envelopeFields ownHub RELAY_AUTH_TYPE (relayBinding (heartbeat 999000).value)
    ⟨1000000, 1000000, "r1"⟩ ++ [("relay_auth", auth.value)])

def relayedBack : List Event :=
  [frameAt 1000000 (heartbeat 999000).value "r1", frameAt 1000500 sentBack "r2"]

abbrev ReplayedRun : Type :=
  { events : List Event // Admitted (step ownHub) (Premises ownHub) (.started 999000) events ∧
    ¬ Distinct (run (step ownHub) (.started 999000) events).trace }

def aheadReplayed : ReplayedRun := ⟨stampedAhead, by decide +kernel⟩

def backReplayed : ReplayedRun := ⟨relayedBack, by decide +kernel⟩

/-- One envelope reaches the handlers twice, and one that this hub signed reaches them. -/
theorem replays_reach_handlers :
    (Admitted (step ownHub) (Premises ownHub) (.started 999000) stampedAhead ∧
      ¬ Distinct (run (step ownHub) (.started 999000) stampedAhead).trace) ∧
    Admitted (step ownHub) (Premises ownHub) (.started 999000) relayedBack ∧
      ¬ Distinct (run (step ownHub) (.started 999000) relayedBack).trace :=
  ⟨aheadReplayed.property, backReplayed.property⟩

end Fixtures

end XChainHub.Gossip
