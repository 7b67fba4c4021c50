import Mathlib.Data.Int.Notation

/-!
Which failures of a send may have reached the node: lib/guards/idempotent_broadcast.js.
-/
namespace XChainHub.IdempotentBroadcast

/- What the classifiers read of an error. An HTTP answer with an unreadable status has
   no status; a missing message or code is the empty text. -/
structure SendError where
  message : String := ""
  code : String := ""
  response : Option (Option ℤ) := none
  rpcCode : Option ℤ := none
  rpcReason : Option String := none
  fundsCommitted : Bool := false
  neverSent : Bool := false
  deriving DecidableEq

def encoderTransportFallback : String := "Transaction broadcast failed"

def isAlreadyKnownTx (e : SendError) : Bool := e.rpcReason = some "TX_ALREADY_IN_CHAIN"

def answeredBelow500 (e : SendError) : Bool := e.response.join.any (· < 500)

def isNodeRejectedTx (e : SendError) : Bool :=
  e.rpcCode = some (-32010) && e.rpcReason = some "NODE_REJECTED" &&
    !e.response.join.any (500 ≤ ·)

def neverConnected (e : SendError) : Bool :=
  e.code = "ECONNREFUSED" || e.code = "ENOTFOUND" || e.code = "EAI_AGAIN"

def isAmbiguousSendError (e : SendError) : Bool :=
  if e.fundsCommitted then true
  else if isAlreadyKnownTx e then true
  else if e.neverSent then false
  else if isNodeRejectedTx e then false
  else if e.message = "Encoder RPC error: " ++ encoderTransportFallback && !answeredBelow500 e then
    true
  else if "Encoder RPC error".toList.isPrefixOf e.message.toList then false
  else if answeredBelow500 e then false
  else if neverConnected e then false
  else true

def isNeverSentError (e : SendError) : Bool :=
  if e.fundsCommitted then false
  else if isAlreadyKnownTx e then false
  else if e.neverSent then true
  else if answeredBelow500 e then true
  else neverConnected e

/-- A send that never left the process is safe to repeat, unless the node's transport failed
    under the encoder: the one message that outranks an unconnected code. -/
theorem never_sent_not_ambiguous {e : SendError} (never : isNeverSentError e = true)
    (named : e.message ≠ "Encoder RPC error: " ++ encoderTransportFallback) :
    isAmbiguousSendError e = false := by
  unfold isNeverSentError at never
  unfold isAmbiguousSendError
  split at never
  · exact absurd never (by simp)
  · rename_i uncommitted
    rw [if_neg uncommitted]
    split at never
    · exact absurd never (by simp)
    · rename_i unknown
      rw [if_neg unknown]
      split at never
      · rename_i tagged
        rw [if_pos tagged]
      · rename_i untagged
        rw [if_neg untagged]
        split
        · rfl
        · rw [if_neg (by simp [named])]
          split
          · rfl
          · split
            · rfl
            · rename_i _ unanswered
              rw [if_neg unanswered] at never
              rw [if_pos never]

theorem refused_connection_repeatable :
    isAmbiguousSendError { message := "connect", code := "ECONNREFUSED" } = false :=
  never_sent_not_ambiguous (by decide) (by decide)

end XChainHub.IdempotentBroadcast
