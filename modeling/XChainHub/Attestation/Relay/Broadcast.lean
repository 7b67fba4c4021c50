import XChainHub.Library.GuardedRuns
import XChainHub.Attestation.Relay.Wal

/-!
Finalized legs on the wire: attestation/relay/broadcast.js. A send is awaited, so its
outcome is an event of its own; the sweep waits for the send it began.
-/
namespace XChainHub.Attestation.Relay
open PaidLog IdempotentBroadcast

section Sends
variable (env : Env)

variable (cfg : Params) in
/- Everything before the await of broadcast(): the entry when the leg goes out now. -/
def prepareLegSend (h : Hub) (k : Key) : Hub × Option Entry :=
  match (h.wire k.1).get k.2 with
  | none => (h, none)
  | some entry =>
    if k.2 ∈ h.published k.1 then (h, none)
    else if !env.rail entry.coin then (h, none)
    else if !env.budget then (h, none)
    else
      let armed := appendWal cfg h env.append ⟨k.2, k.1, .intent, none⟩
      if env.append = .written then (armed, some entry) else (armed, none)

variable (cfg : Params) in
/- broadcast() up to its await; the answer is the send it awaits. -/
def broadcast (h : Hub) (k : Key) : Hub × Option ℕ :=
  match prepareLegSend env cfg h k with
  | (h, none) => (h, none)
  | (h, some entry) =>
    ({ h with sends := h.sends ++ [some ⟨k, entry⟩], log := .begun k :: h.log },
      some h.sends.length)

variable (cfg : Params) in
def onRoundFinalized (h : Hub) (row : Row) (sigs : List Sig) : Hub :=
  match Leg.ofPhase row.phase with
  | none => h
  | some leg =>
    let rid := cfg.toLowerCase row.requestId
    if sigs = [] then h
    else if (wireFault cfg leg row sigs.length).isSome then h
    else
      let coin := match leg with | .response => row.originChain | .request => homeChain
      let rank := myRank cfg rid sigs
      let entry : Entry := ⟨buildWire cfg leg row sigs, coin, env.now, rank⟩
      let h := { h with wire := Function.update h.wire leg ((h.wire leg).set rid entry) }
      if rank = some 0 then (broadcast env cfg h (leg, rid)).1 else h

def homeHasRequest (rid : String) : Bool := rid ∈ env.homePending ∨ rid ∈ env.homeRelayed

def legLanded (leg : Leg) (rid : String) (entry : Entry) : Bool :=
  match leg with
  | .request => homeHasRequest env rid
  | .response =>
    match env.originPending entry.coin with
    | none => false
    | some pending => rid ∉ pending

variable (cfg : Params) in
/- An entry the sweep hands to broadcast(): a rank that waited out its failover window. -/
def stepsIn (entry : Entry) : Bool :=
  match entry.rank with
  | none => false
  | some rank => rank ≠ 0 && (rank : ℤ) * cfg.failoverWindowMs ≤ env.now - entry.finalizedAt

variable (cfg : Params) in
/- One turn of the sweep's inner loop. -/
def sweepVisit (h : Hub) (leg : Leg) (rid : String) : Hub :=
  match (h.wire leg).get rid with
  | none => h
  | some entry =>
    if rid ∈ h.published leg ∨ legLanded env leg rid entry then
      { h with wire := Function.update h.wire leg ((h.wire leg).erase rid) }
    else if stepsIn env cfg entry then
      let sent := broadcast env cfg h (leg, rid)
      { sent.1 with sweep := some ⟨leg, sent.2⟩ }
    else h

end Sends

section Settle
variable (cfg : Params)

def noteLegSent (h : Hub) (append : Append) (k : Key) : Hub :=
  appendWal cfg
    { h with
      published := Function.update h.published k.1 ((h.published k.1).add k.2)
      wire := Function.update h.wire k.1 ((h.wire k.1).erase k.2)
      log := .paid k :: h.log } append ⟨k.2, k.1, .sent, none⟩

def noteLegSendFailed (h : Hub) (append : Append) (k : Key) (preSend : Bool) (e : SendError) : Hub :=
  if !preSend && isAmbiguousSendError e then
    appendWal cfg
      { h with
        published := Function.update h.published k.1 ((h.published k.1).add k.2)
        log := .paid k :: h.log } append ⟨k.2, k.1, .sent, none⟩
  else
    appendWal cfg { h with log := .refused k :: h.log } append ⟨k.2, k.1, .failed, none⟩

/- error is none where the broadcaster returned; preSend is the tag of defaultBroadcast. -/
def settle (h : Hub) (n : ℕ) (error : Option (Bool × SendError)) (append : Append) : Hub :=
  match h.sends[n]?.join with
  | none => h
  | some send =>
    let h := { h with sends := h.sends.set n none }
    match error with
    | none => noteLegSent cfg h append send.key
    | some (preSend, e) => noteLegSendFailed cfg h append send.key preSend e

end Settle

def inFlight (h : Hub) : List Key := (occupied h.sends).map Send.key

/- The process dies: the sends it awaited are cut off, and a new one loads the log. -/
def restart (cfg : Params) (h : Hub) (compacted : Bool) : Hub :=
  start cfg (Hub.started h.wal ((inFlight h).map Mark.paid ++ h.log) h.forgotten)
    compacted

inductive Event where
  | finalized (env : Env) (row : Row) (sigs : List Sig)
  | sweepStart
  | sweepVisit (env : Env) (rid : String)
  | sweepNext
  | sweepEnd (compacted : Bool)
  | settled (n : ℕ) (error : Option (Bool × SendError)) (append : Append)
  | deadline (coin rid : String) (block : ℤ)
  | tip (coin : String) (height : ℤ)
  | restart (compacted : Bool)

/- The sweep goes on once the send it awaits has settled. -/
def Hub.sweeping (h : Hub) : Option Leg :=
  match h.sweep with
  | none => none
  | some s =>
    match s.awaits with
    | none => some s.leg
    | some n => if (h.sends[n]?.join).isSome then none else some s.leg

def step (cfg : Params) (h : Hub) : Event → Hub
  | .finalized env row sigs => onRoundFinalized env cfg h row sigs
  | .sweepStart => if h.sweep.isSome then h else { h with sweep := some ⟨.request, none⟩ }
  | .sweepVisit env rid =>
    match h.sweeping with
    | none => h
    | some leg => sweepVisit env cfg h leg rid
  | .sweepNext =>
    match h.sweeping with
    | some .request => { h with sweep := some ⟨.response, none⟩ }
    | _ => h
  | .sweepEnd compacted =>
    match h.sweeping with
    | some .response => evictExpired cfg { h with sweep := none } compacted
    | _ => h
  | .settled n error append => settle cfg h n error append
  | .deadline coin rid block => noteDeadline cfg h coin rid block
  | .tip coin height => { h with originLatest := Function.update h.originLatest coin (some height) }
  | .restart compacted => restart cfg h compacted

end XChainHub.Attestation.Relay
