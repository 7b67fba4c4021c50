import XChainHub.Library.KeyedEntries
import XChainHub.Peers.HubDb.Published

/-!
The margins of consensus/gates/mirror_admission_margin_gate.js at the stamp, at the refusal and
at the consumer's barrier, with the stamp of lib/admission_height.js.
-/
namespace XChainHub.HubDb
open KeyedEntries MirrorAdmissionGate

section Eras

/- A chain margin or an activation that is not set is none. -/
def stampMarginAt (m : ℤ) (mChain height : Option ℤ) (tip : ℤ) : ℤ :=
  match mChain, height with
  | some c, some h => if h ≤ tip + c then c else m
  | _, _ => m

def rowMarginAt (m : ℤ) (mChain height : Option ℤ) (admitted : ℤ) : ℤ :=
  match mChain, height with
  | some c, some h => if h ≤ admitted then c else m
  | _, _ => m

def consumerTargetAt (m : ℤ) (mChain height : Option ℤ) (blockHeight : ℤ) : ℤ :=
  match mChain, height with
  | some c, some h => if blockHeight < h then blockHeight - m else blockHeight - c
  | _, _ => blockHeight - m

def stampedAt (m : ℤ) (mChain height : Option ℤ) (tip : ℤ) : ℤ :=
  tip + stampMarginAt m mChain height tip

variable {m : ℤ} {mChain height : Option ℤ}

/-- The margin that a stamped height selects is the one it was stamped with. -/
theorem stamped_tip (wider : ∀ c ∈ mChain, m ≤ c) (tip : ℤ) :
    stampedAt m mChain height tip -
      rowMarginAt m mChain height (stampedAt m mChain height tip) = tip := by
  cases mChain with
  | none => simp [stampedAt, stampMarginAt, rowMarginAt]
  | some c =>
    cases height with
    | none => simp [stampedAt, stampMarginAt, rowMarginAt]
    | some h =>
      have above : m ≤ c := wider c rfl
      by_cases late : h ≤ tip + c
      · have stamp : stampedAt m (some c) (some h) tip = tip + c := by
          simp only [stampedAt, stampMarginAt, if_pos late]
        rw [stamp]
        simp only [rowMarginAt, if_pos late]
        omega
      · have stamp : stampedAt m (some c) (some h) tip = tip + m := by
          simp only [stampedAt, stampMarginAt, if_neg late]
        -- The smaller margin keeps the height on the same side of the activation.
        have early : ¬ h ≤ tip + m := by omega
        rw [stamp]
        simp only [rowMarginAt, if_neg early]
        omega

theorem stamped_before_target (wider : ∀ c ∈ mChain, m ≤ c) {tip blockHeight : ℤ}
    (admitted : stampedAt m mChain height tip ≤ blockHeight) :
    tip ≤ consumerTargetAt m mChain height blockHeight := by
  cases mChain with
  | none =>
    simp only [stampedAt, stampMarginAt] at admitted
    simp only [consumerTargetAt]
    omega
  | some c =>
    cases height with
    | none =>
      simp only [stampedAt, stampMarginAt] at admitted
      simp only [consumerTargetAt]
      omega
    | some h =>
      have above : m ≤ c := wider c rfl
      simp only [stampedAt, stampMarginAt] at admitted
      simp only [consumerTargetAt]
      split at admitted
      · rename_i late
        rw [if_neg (show ¬ blockHeight < h by omega)]
        omega
      · split <;> omega

end Eras

section Tables

def stampMarginBlocks (table chain network : String) (tip : ℤ) : ℤ :=
  stampMarginAt (baseMarginBlocks table) (chainMarginBlocks table chain)
    (activationHeight chain network) tip

def consumerTargetHeight (table chain network : String) (blockHeight : ℤ) : ℤ :=
  consumerTargetAt (baseMarginBlocks table) (chainMarginBlocks table chain)
    (activationHeight chain network) blockHeight

theorem row_margin_blocks_at (table chain network : String) (admitted : ℤ) :
    rowMarginBlocks table chain network admitted =
      rowMarginAt (baseMarginBlocks table) (chainMarginBlocks table chain)
        (activationHeight chain network) admitted := by
  cases chain_ : chainMarginBlocks table chain with
  | none => simp [rowMarginBlocks, rowMarginAt, chain_]
  | some c =>
    cases height_ : activationHeight chain network with
    | none => simp [rowMarginBlocks, rowMarginAt, chain_, height_]
    | some h => simp only [rowMarginBlocks, rowMarginAt, chain_, height_]

theorem chain_margin_wider (table chain : String) :
    ∀ c ∈ chainMarginBlocks table chain, baseMarginBlocks table ≤ c := by
  have all : ∀ margins ∈ chainMarginTable, ∀ e ∈ margins.2, baseMarginBlocks e.1 ≤ e.2 := by
    decide
  intro c found
  obtain ⟨margins, listed, entry⟩ := Option.bind_eq_some_iff.mp found
  exact all (chain, margins) (lookup_listed listed) (table, c) (lookup_listed entry)

end Tables

section Stamp

/- A tip is usable where it is a number that is a safe integer of zero or more. -/
def usableTip : AdmitHeight → Option ℤ
  | .number q => if isSafeInteger q && 0 ≤ q then some q.num else none
  | _ => none

def ownTip (tips : OrderedMap String AdmitHeight) (c : String) : Option ℤ :=
  (tips.get c).bind usableTip

def missingAdmissionTips (readSet : List String) (tips : OrderedMap String AdmitHeight) :
    List String :=
  readSet.filterMap fun chain =>
    match normalizeChain chain with
    | none => some chain
    | some c => if (ownTip tips c).isNone then some c else none

/- A chain that is named twice has one entry. -/
def admitBlocks (readSet : List String) (tips : OrderedMap String AdmitHeight)
    (table network : String) : Option AdmissionMap :=
  if (DecimalText.trim network.toList).isEmpty then none
  else
    (readSet.mapM normalizeChain).bind fun chains =>
      if chains.isEmpty || !(missingAdmissionTips chains tips).isEmpty then none
      else some (chains.eraseDups.map fun c =>
        let tip := (ownTip tips c).getD 0
        (c, .number ((tip + stampMarginBlocks table c network tip : ℤ) : ℚ)))

/- The entry was stamped from the tip. -/
def StampedFrom (table network : String) (tip : ℤ) (e : String × AdmitHeight) : Prop :=
  columnNumber e.2 = some ((tip + stampMarginBlocks table e.1 network tip : ℤ) : ℚ)

end Stamp

section Barrier

/- A row that went out, with one of its entries, against a claim made before it. -/
structure Bound (cfg : Config) (s : Sent) (k : Claim) (e : String × AdmitHeight) (tip : ℤ) :
    Prop where
  table : k.table = s.table
  chain : e.1 = k.chain
  listed : ∃ map, rowHeights s.table s.row = some (some map) ∧ e ∈ map
  stamped : StampedFrom s.table cfg.network tip e
  safe : isSafeInteger ((tip + stampMarginBlocks s.table e.1 cfg.network tip : ℤ) : ℚ) = true
  published : usable (k.under s.caps).height = true

/-- A claim in force that reaches the consumer's target at a block comes after every row that
    binds at the block. -/
theorem target_reached {cfg : Config} {s : Sent} {k : Claim} {e : String × AdmitHeight} {tip : ℤ}
    (bound : Bound cfg s k e tip) (stays : StaysAbove cfg s k) {blockHeight : ℤ}
    (reached : consumerTargetHeight s.table e.1 cfg.network blockHeight ≤ (k.under s.caps).height) :
    blockHeight < tip + stampMarginBlocks s.table e.1 cfg.network tip := by
  obtain ⟨map, read, member⟩ := bound.listed
  by_contra admitted
  have early := stamped_before_target (chain_margin_wider s.table e.1) (not_lt.mp admitted)
  have back := @stamped_tip _ _ (activationHeight e.1 cfg.network) (chain_margin_wider s.table e.1) tip
  have opening : openingTip cfg s.table e = some tip := by
    rw [openingTip, bound.stamped]
    simp only [bound.safe, if_true, Rat.num_intCast, Option.some.injEq, row_margin_blocks_at]
    exact back
  have clear := stays bound.published
  have table : (k.under s.caps).table = s.table := bound.table
  simp only [contradicts, table, decide_true, Bool.true_and, read,
    List.any_eq_false, Bool.and_eq_true, decide_eq_true_eq, not_and] at clear
  refine clear e member bound.chain ?_
  rw [opening, Option.any_some, decide_eq_true_eq]
  exact early.trans reached

end Barrier

/-- Stamp, refusal and barrier agree on the margin on both sides of the activation, so a consumer
    that has seen every row opened at its target has seen every row it binds, and a claim in force
    that reaches the target leaves out no row that is sent later. -/
theorem one_margin_across_activation {m : ℤ} {mChain height : Option ℤ}
    (wider : ∀ c ∈ mChain, m ≤ c) :
    (∀ tip, stampedAt m mChain height tip -
      rowMarginAt m mChain height (stampedAt m mChain height tip) = tip) ∧
    (∀ tip blockHeight, stampedAt m mChain height tip ≤ blockHeight →
      tip ≤ consumerTargetAt m mChain height blockHeight) ∧
    (∀ (Round : Type) (tip : Round → ℤ) (seen : Round → Prop) blockHeight,
      (∀ r, tip r ≤ consumerTargetAt m mChain height blockHeight → seen r) →
        ∀ r, stampedAt m mChain height (tip r) ≤ blockHeight → seen r) ∧
    ∀ cfg evs, ∀ s ∈ (GuardedRuns.run (step cfg) .start evs).sent,
      withdrawsPriceRound s.table s.row = false → ∀ k ∈ s.standing, ∀ e tip, Bound cfg s k e tip →
        ∀ blockHeight,
          consumerTargetHeight s.table e.1 cfg.network blockHeight ≤ (k.under s.caps).height →
            blockHeight < tip + stampMarginBlocks s.table e.1 cfg.network tip := by
  refine ⟨stamped_tip wider, fun tip blockHeight => stamped_before_target wider, ?_, ?_⟩
  · intro Round tip seen blockHeight certified r admitted
    exact certified r (stamped_before_target wider admitted)
  · intro cfg evs s sent kept k standing e tip bound blockHeight reached
    exact target_reached bound ((run_sound cfg evs).sent s sent kept k standing) reached

/-- A tip ten blocks below the activation, whose wider margin passes it. -/
theorem doge_margin_at_activation :
    stampedAt 4 (some 14) (some 1000) 990 -
      rowMarginAt 4 (some 14) (some 1000) (stampedAt 4 (some 14) (some 1000) 990) = 990 :=
  (one_margin_across_activation (by rintro c ⟨⟩; decide)).1 990

end XChainHub.HubDb
