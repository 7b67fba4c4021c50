import XChainHub.Library.ReplayWindow
import XChainHub.Peers.Gossip.Messages

/-!
What reaches the handlers of one hub: peers/gossip/inbound.js with the dedup cache of
peers/gossip/upkeep.js and what messages.js puts in it. A handler reads the clock as often
as the code does; the rate ceiling's answer comes with the frame.
-/
namespace XChainHub.Gossip
open ScriptValue NumberText ReplayWindow

/- A frame as JSON.parse reads it, none where that throws, with the readings of the clock its
   handler takes: for the check of the envelope, for that of its relay authentication and for
   the dedup entry. -/
structure Frame where
  parsed : Option Value
  admitted : Bool
  members : Members
  checked : ℕ
  bound : ℕ
  added : ℕ
  relaying : Making

inductive Output where
  | emitted (envelope : Envelope)
  | authored (envelope : Envelope)
  | relayAuth (envelope : Envelope)

def Output.envelope : Output → Envelope
  | .emitted e => e
  | .authored e => e
  | .relayAuth e => e

structure PeerManager where
  clock : ℕ
  seenIds : OrderedMap String ℤ
  trace : List Output

def PeerManager.started (clock : ℕ) : PeerManager := ⟨clock, .empty, []⟩

inductive Event where
  | inbound (frame : Frame)
  | broadcast (type : String) (data : Value) (members : Members) (made : Making) (added : ℕ)
  | sendToPeer (type : String) (data : Value) (members : Members) (connected : Bool)
      (made : Making) (added : ℕ)
  | prune (now : ℕ)

def Event.readings : Event → List ℕ
  | .inbound f => [f.checked, f.bound, f.added, f.relaying.named, f.relaying.stamped]
  | .broadcast _ _ _ made added => [made.named, made.stamped, added]
  | .sendToPeer _ _ _ _ made added => [made.named, made.stamped, added]
  | .prune now => [now]

/- n || other, for a setting read as a number. -/
def orDefault (setting : Option ℤ) (other : ℤ) : ℤ :=
  match setting with
  | some n => if n = 0 then other else n
  | none => other

def Params.dedupTTL (cfg : Params) : ℤ := orDefault cfg.dedupTtl 60000

def Params.maxSkew (cfg : Params) : ℤ := min (orDefault cfg.maxSkewMs cfg.dedupTTL) cfg.dedupTTL

variable (cfg : Params)

/- An envelope that is no object has none of the fields. -/
def validateInboundEnvelope (now : ℕ) (v : Value) : Option Envelope :=
  match typed : v.field "type", named : v.field "id", sent : v.field "sender",
      numbered : v.field "timestamp" with
  | .text type, .text id, .text sender, .number n =>
    match stamped : n.rational with
    | some timestamp =>
      if type = "" || id = "" || sender = "" then none
      else if cfg.maxSkew < |(now : ℚ) - timestamp| then none
      else some ⟨v, type, id, sender, timestamp, typed, named, sent, ⟨n, numbered, stamped⟩⟩
    | none => none
  | _, _, _, _ => none

def RELAY_AUTH_TYPE : String := "P2P_RELAY_AUTH"

def relayBinding (v : Value) : Value :=
  let carried (name : String) := if v.has name then [(name, v.field name)] else []
  .object ([("id", v.field "id"), ("type", v.field "type"), ("sender", v.field "sender"),
    ("timestamp", v.field "timestamp")] ++ carried "data" ++ carried "sig_pubkey" ++ carried "sig")

/- None where the authentication is refused, some none where there is none. -/
def relayAuthenticator (now : ℕ) (envelope : Envelope) : Option (Option Envelope) :=
  if envelope.value.has "relay_auth" then
    match validateInboundEnvelope cfg now (envelope.value.field "relay_auth") with
    | none => none
    | some auth =>
      if auth.type = RELAY_AUTH_TYPE &&
          (auth.value.field "data").deepEqual (relayBinding envelope.value) then some (some auth)
      else none
  else some none

/- The envelope that speaks for the connection: the relay's own, or the one carried. -/
def authenticatedConnectionEnvelope (f : Frame) (envelope : Envelope) : Option Envelope :=
  match relayAuthenticator cfg f.bound envelope with
  | none => none
  | some relayAuth =>
    if !f.admitted then none
    else
      match relayAuth with
      | none => some envelope
      | some auth => if verifySignature cfg f.members auth then some auth else none

/- The envelope with which handleInbound comes to the dedup test. -/
def received (f : Frame) : Option Envelope :=
  match f.parsed.bind (validateInboundEnvelope cfg f.checked) with
  | none => none
  | some envelope =>
    match authenticatedConnectionEnvelope cfg f envelope with
    | none => none
    | some connectionEnvelope =>
      -- the hub's own envelopes come back only behind another's relay authentication
      if connectionEnvelope.sender = cfg.validatorAddr then none
      else if verifySignature cfg f.members envelope then some envelope
      else none

def addToDedup (pm : PeerManager) (id : String) (now : ℕ) : PeerManager :=
  { pm with seenIds := remember cfg.dedupCacheMax id ((now : ℤ) + cfg.dedupTTL) pm.seenIds }

theorem add_to_dedup_trace (pm : PeerManager) (id : String) (now : ℕ) :
    (addToDedup cfg pm id now).trace = pm.trace := rfl

def PeerManager.put (pm : PeerManager) (os : List Output) : PeerManager :=
  { pm with trace := pm.trace ++ os }

def handleInbound (pm : PeerManager) (f : Frame) : PeerManager :=
  match received cfg f with
  | none => pm
  | some envelope =>
    if pm.seenIds.has envelope.id then pm
    else
      (addToDedup cfg pm envelope.id f.added).put [.emitted envelope,
        .relayAuth (buildEnvelope cfg RELAY_AUTH_TYPE (relayBinding envelope.value) f.relaying)]

def author (pm : PeerManager) (envelope : Envelope) (added : ℕ) : PeerManager :=
  (addToDedup cfg pm envelope.id added).put [.authored envelope]

def broadcast (pm : PeerManager) (type : String) (data : Value) (members : Members)
    (made : Making) (added : ℕ) : PeerManager :=
  if authoringHeld cfg members then pm else author cfg pm (buildEnvelope cfg type data made) added

def sendToPeer (pm : PeerManager) (type : String) (data : Value) (members : Members)
    (connected : Bool) (made : Making) (added : ℕ) : PeerManager :=
  if authoringHeld cfg members then pm
  else if connected then author cfg pm (buildEnvelope cfg type data made) added
  else pm

def pruneDedup (pm : PeerManager) (now : ℕ) : PeerManager :=
  { pm with seenIds := prune (now : ℤ) pm.seenIds }

def handleEvent (pm : PeerManager) : Event → PeerManager
  | .inbound f => handleInbound cfg pm f
  | .broadcast type data members made added => broadcast cfg pm type data members made added
  | .sendToPeer type data members connected made added =>
    sendToPeer cfg pm type data members connected made added
  | .prune now => pruneDedup pm now

def step (pm : PeerManager) (e : Event) : PeerManager :=
  { handleEvent cfg pm e with clock := e.readings.getLastD pm.clock }

end XChainHub.Gossip
