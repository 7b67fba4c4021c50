import XChainHub.Library.JsonText
import XChainHub.Library.OrderedMap
import XChainHub.Identity

/-!
The signed envelopes of the mesh: peers/gossip/messages.js with the payload of
validators/identity.js. An envelope is the JSON object on the wire beside the fields that
every hub reads off it. Node's Buffer.from of a signature that is no string is a parameter.
-/
namespace XChainHub.Gossip
open ScriptValue NumberText JsonText ValidatorIdentity

structure Envelope where
  value : Value
  type : String
  id : String
  sender : String
  timestamp : ℚ
  typed : value.field "type" = .text type
  named : value.field "id" = .text id
  sent : value.field "sender" = .text sender
  stamped : ∃ n, value.field "timestamp" = .number n ∧ n.rational = some timestamp

/- What the signature covers. -/
def signedFields (v : Value) : Value :=
  .object [("id", v.field "id"), ("type", v.field "type"), ("sender", v.field "sender"),
    ("timestamp", v.field "timestamp"), ("data", v.field "data"),
    ("sig_pubkey", v.field "sig_pubkey")]

def getSignablePayload (v : Value) : String := stringify (signedFields v)

/- Two envelopes under one signature. -/
def Envelope.Same (a b : Envelope) : Prop := signedFields a.value = signedFields b.value

instance (a b : Envelope) : Decidable (a.Same b) :=
  inferInstanceAs (Decidable (signedFields a.value = signedFields b.value))

theorem Envelope.Same.id {a b : Envelope} (same : a.Same b) : a.id = b.id := by
  simp only [Envelope.Same, signedFields, Value.object.injEq, List.cons.injEq, Prod.mk.injEq,
    a.named, b.named, Value.text.injEq] at same
  exact same.1.2

theorem Envelope.Same.timestamp {a b : Envelope} (same : a.Same b) :
    a.timestamp = b.timestamp := by
  obtain ⟨n, left, value⟩ := a.stamped
  obtain ⟨m, right, other⟩ := b.stamped
  simp only [Envelope.Same, signedFields, Value.object.injEq, List.cons.injEq, Prod.mk.injEq, left,
    right, Value.number.injEq] at same
  rw [same.2.2.2.1.2, other, Option.some.injEq] at value
  exact value.symm

/- Constants of one hub's PeerManager; a time left out of the configuration is none. -/
structure Params where
  validatorAddr : String
  identity : Option Identity
  requireSigs : Bool
  denyPubkeys : List String
  dedupTtl : Option ℤ
  maxSkewMs : Option ℤ
  dedupCacheMax : ℕ
  js : Builtins
  crypto : Ed25519
  bufferFrom : Value → Option (List ℕ)

/- The signer set and the registry as a message finds them. -/
structure Members where
  effectiveSignerSet : Option (List String)
  validatorPubkeys : Option (OrderedMap String String)

variable (cfg : Params) (members : Members)

def registryHasPubkey (pubkeyHexLower : String) : Bool :=
  match members.validatorPubkeys with
  | none => false
  | some registry =>
    registry.entries.any (fun e => e.2 ≠ "" && cfg.js.toLowerCase e.2 = pubkeyHexLower)

def verify (payload : String) (sig : Value) (pubkeyHex : String) : Bool :=
  match sig with
  | .text sigHex => ValidatorIdentity.verify cfg.crypto payload sigHex pubkeyHex
  | _ =>
    if sig.isFalsy || pubkeyHex = "" then false
    else
      match pubkeyFromHex cfg.crypto pubkeyHex, cfg.bufferFrom sig with
      | some key, some bytes => cfg.crypto.verify key payload bytes
      | _, _ => false

/- Membership before the signature, the binding of the sender to the key last. -/
def verifyCarriedKey (envelope : Envelope) (sigPubkey : String) : Bool :=
  let pk := cfg.js.toLowerCase sigPubkey
  if pk ∈ cfg.denyPubkeys then false
  else
    let inSet := (members.effectiveSignerSet.any (fun keys => pk ∈ keys)) ||
      registryHasPubkey cfg members pk
    if !inSet then !cfg.requireSigs
    else if !verify cfg (getSignablePayload envelope.value) (envelope.value.field "sig") pk then false
    else
      match members.validatorPubkeys.bind (fun registry => registry.get envelope.sender) with
      | some registered => registered = "" || cfg.js.toLowerCase registered = pk
      | none => true

def verifySignature (envelope : Envelope) : Bool :=
  let sig := envelope.value.field "sig"
  if sig.isFalsy then !cfg.requireSigs
  else
    match (envelope.value.field "sig_pubkey").textOf.filter (· ≠ "") with
    | some sigPubkey => verifyCarriedKey cfg members envelope sigPubkey
    | none =>
      match members.validatorPubkeys with
      | none => !cfg.requireSigs
      | some registry =>
        match (registry.get envelope.sender).filter (· ≠ "") with
        | none => !cfg.requireSigs
        | some pubkeyHex => verify cfg (getSignablePayload envelope.value) sig pubkeyHex

/- A hub outside the signer set it knows does not author. -/
def authoringHeld : Bool :=
  match cfg.identity, members.effectiveSignerSet with
  | some identity, some keys =>
    cfg.requireSigs && !keys.isEmpty && cfg.js.toLowerCase identity.getPubkeyHex ∉ keys
  | _, _ => false

/- The two readings of the clock and the random part of an id that an envelope is made with. -/
structure Making where
  named : ℕ
  stamped : ℕ
  uuid : String
  deriving DecidableEq

def makeId (made : Making) : String :=
  "v1:" ++ cfg.validatorAddr ++ ":" ++ toString made.named ++ ":" ++ made.uuid

def unsignedFields (type : String) (data : Value) (made : Making) : List (String × Value) :=
  [("type", .text type), ("id", .text (makeId cfg made)), ("sender", .text cfg.validatorAddr),
    ("timestamp", .number (Number.ofNat made.stamped)), ("data", data.orElse (.object []))]

def envelopeFields (type : String) (data : Value) (made : Making) : List (String × Value) :=
  match cfg.identity with
  | none => unsignedFields cfg type data made
  | some identity =>
    let carried := unsignedFields cfg type data made ++
      [("sig_pubkey", .text identity.getPubkeyHex)]
    carried ++ [("sig", .text (identity.sign (getSignablePayload (.object carried))))]

def buildEnvelope (type : String) (data : Value) (made : Making) : Envelope where
  value := .object (envelopeFields cfg type data made)
  type := type
  id := makeId cfg made
  sender := cfg.validatorAddr
  timestamp := made.stamped
  typed := by
    simp only [envelopeFields]
    split <;> simp [Value.field, unsignedFields]
  named := by
    simp only [envelopeFields]
    split <;> simp [Value.field, unsignedFields]
  sent := by
    simp only [envelopeFields]
    split <;> simp [Value.field, unsignedFields]
  stamped := by
    refine ⟨Number.ofNat made.stamped, ?_, rational_of_nat _⟩
    simp only [envelopeFields]
    split <;> simp [Value.field, unsignedFields]

end XChainHub.Gossip
