import XChainHub.Library.GuardedRuns
import XChainHub.CrossChain.RelayRows.Rails

/-!
The writes of finalized rows on one hub and what the stored signatures verify over. Each
statement of a write runs in a step of its own, and retractions come in between.
-/
namespace XChainHub.CrossChain.RelayRows
open RevivedRows
open Dex (Gates MatchRow)
open Bridge (TransferRow)
open Call (CallColumns)

/- A finalized event on its way to the table; reviving once its INSERT IGNORE changed no row. -/
structure Write (Row : Type) where
  ev : Signed Row
  reviving : Bool
  deriving DecidableEq

structure Store (Row K : Type) where
  table : Table K (Signed Row)
  writes : List (Write Row)

/- dropped: the snapshot was not persisted, a retraction fenced the write, or a statement threw. -/
inductive RowEvent (Row K : Type) where
  | finalized (ev : Signed Row)
  | statement (n : ℕ)
  | dropped (n : ℕ)
  | retracted (ids : List K)

section Steps
variable {Row K : Type} [DecidableEq K] (rail : Rail Row K) (s : Store Row K)

def Store.empty : Store Row K := ⟨OrderedMap.empty, []⟩

def stored (ev : Signed Row) : Signed Row := { ev with row := rail.columns ev.row }

def merged (ev kept : Signed Row) : Signed Row := { ev with row := rail.rewrite kept.row ev.row }

def isRetracted (ids : List K) (k : K) (_ : Signed Row) : Bool := k ∈ ids

/- The revive is asked for only when the INSERT IGNORE met a row. -/
def runStatement (n : ℕ) (w : Write Row) : Store Row K :=
  let k := rail.key w.ev.row
  if rail.upserts then
    ⟨upsert (merged rail w.ev) k (stored rail w.ev) s.table, s.writes.eraseIdx n⟩
  else if w.reviving then ⟨revive (merged rail w.ev) k s.table, s.writes.eraseIdx n⟩
  else if s.table.has k then ⟨s.table, s.writes.set n ⟨w.ev, true⟩⟩
  else ⟨insertNew k (stored rail w.ev) s.table, s.writes.eraseIdx n⟩

def storeStep (e : RowEvent Row K) : Store Row K :=
  match e with
  | .finalized ev => { s with writes := s.writes ++ [⟨ev, false⟩] }
  | .statement n => (s.writes[n]?).elim s (runStatement rail s n)
  | .dropped n => { s with writes := s.writes.eraseIdx n }
  | .retracted ids => { s with table := withdraw (isRetracted ids) s.table }

/- A statement that adds a row finds its admission map in its columns, and one that rewrites a
   row finds the signed columns that it leaves alone to be the new row's. -/
def Meets (w : Write Row) : Prop :=
  match s.table.get (rail.key w.ev.row) with
  | none => rail.upserts = true ∨ w.reviving = false → rail.carried w.ev.row = true
  | some h => rail.upserts = true ∨ w.reviving = true ∧ h.live = false →
    rail.agrees h.row.row w.ev.row = true

instance (w : Write Row) : Decidable (Meets rail s w) := by
  unfold Meets
  split <;> infer_instance

end Steps

section Rows
variable {Row K : Type} {verify : String → String → String → Bool} {rail : Rail Row K}

theorem stored_verified {ev : Signed Row} (sound : Verified verify rail.canonicalMatch ev)
    (carried : rail.carried ev.row = true) : Verified verify rail.canonicalMatch (stored rail ev) := by
  intro p member
  rw [stored, rail.canonical_columns ev.row ev.view carried]
  exact sound p member

theorem merged_verified {ev kept : Signed Row} (sound : Verified verify rail.canonicalMatch ev)
    (agrees : rail.agrees kept.row ev.row = true) : Verified verify rail.canonicalMatch (merged rail ev kept) := by
  intro p member
  rw [merged, rail.canonical_rewrite kept.row ev.row ev.view agrees]
  exact sound p member

end Rows

section Invariant
variable {Row K : Type} [DecidableEq K] (verify : String → String → String → Bool) (rail : Rail Row K)

/- The signatures of a finalized event verify over its own row. -/
def Sound : RowEvent Row K → Prop
  | .finalized ev => Verified verify rail.canonicalMatch ev
  | _ => True

instance : (e : RowEvent Row K) → Decidable (Sound verify rail e)
  | .finalized ev => inferInstanceAs (Decidable (Verified verify rail.canonicalMatch ev))
  | .statement _ | .dropped _ | .retracted _ => isTrue trivial

def MeetsAt (s : Store Row K) : RowEvent Row K → Prop
  | .statement n => ∀ w ∈ s.writes[n]?, Meets rail s w
  | _ => True

instance (s : Store Row K) : (e : RowEvent Row K) → Decidable (MeetsAt rail s e)
  | .statement n => inferInstanceAs (Decidable (∀ w ∈ s.writes[n]?, Meets rail s w))
  | .finalized _ | .dropped _ | .retracted _ => isTrue trivial

structure AllVerified (s : Store Row K) : Prop where
  table : AllLive (Verified verify rail.canonicalMatch) s.table
  writes : ∀ w ∈ s.writes, Verified verify rail.canonicalMatch w.ev

variable {verify rail} {s : Store Row K}

theorem run_statement_verified (all : AllVerified verify rail s) {n : ℕ} {w : Write Row}
    (pending : s.writes[n]? = some w) (meets : Meets rail s w) :
    AllVerified verify rail (runStatement rail s n w) := by
  have sound := all.writes w (List.mem_of_getElem? pending)
  have rest : ∀ w' ∈ s.writes.eraseIdx n, Verified verify rail.canonicalMatch w'.ev :=
    fun w' member => all.writes w' (List.mem_of_mem_eraseIdx member)
  have fresh : s.table.get (rail.key w.ev.row) = none → rail.upserts = true ∨ w.reviving = false →
      Verified verify rail.canonicalMatch (stored rail w.ev) := by
    intro absent inserting
    rw [Meets, absent] at meets
    exact stored_verified sound (meets inserting)
  have rewritten : ∀ h, s.table.get (rail.key w.ev.row) = some h →
      rail.upserts = true ∨ w.reviving = true ∧ h.live = false →
      Verified verify rail.canonicalMatch (merged rail w.ev h.row) := by
    intro h held reached
    rw [Meets, held] at meets
    exact merged_verified sound (meets reached)
  dsimp only [runStatement]
  split
  · rename_i upserts
    have upserted := upsert_live all.table (fun absent => fresh absent (Or.inl upserts))
      (fun h held => rewritten h held (Or.inl upserts))
    exact ⟨upserted, rest⟩
  · split
    · rename_i reviving
      exact ⟨revive_live all.table (fun h held gone => rewritten h held (Or.inr ⟨reviving, gone⟩)), rest⟩
    · rename_i inserting
      split
      · refine ⟨all.table, ?_⟩
        intro w' member
        rcases List.mem_or_eq_of_mem_set member with old | rfl
        · exact all.writes w' old
        · exact sound
      · exact ⟨insert_new_live all.table (fun absent => fresh absent (Or.inr (Bool.eq_false_iff.mpr inserting))), rest⟩

theorem store_step_verified (all : AllVerified verify rail s) {e : RowEvent Row K}
    (sound : Sound verify rail e) (meets : MeetsAt rail s e) :
    AllVerified verify rail (storeStep rail s e) := by
  cases e with
  | finalized ev =>
    refine ⟨all.table, ?_⟩
    intro w member
    rcases List.mem_append.mp member with old | new
    · exact all.writes w old
    · rw [List.mem_singleton.mp new]
      exact sound
  | statement n =>
    cases pending : s.writes[n]? with
    | none =>
      rw [storeStep, pending]
      exact all
    | some w =>
      rw [storeStep, pending]
      exact run_statement_verified all pending (meets w pending)
  | dropped n => exact ⟨all.table, fun w member => all.writes w (List.mem_of_mem_eraseIdx member)⟩
  | retracted ids => exact ⟨withdraw_live all.table (isRetracted ids), all.writes⟩

theorem empty_verified : AllVerified verify rail Store.empty :=
  ⟨empty_live, fun _ member => absurd member List.not_mem_nil⟩

end Invariant

section Hub
variable (collate : String → String) (sha256 : String → String) (g : Gates)
  (verify : String → String → String → Bool)

structure Hub where
  dex : Store MatchRow String
  bridge : Store TransferRow String
  call : Store CallColumns (String × String)

inductive Event where
  | dex (e : RowEvent MatchRow String)
  | bridge (e : RowEvent TransferRow String)
  | call (e : RowEvent CallColumns (String × String))

def step (h : Hub) : Event → Hub
  | .dex e => { h with dex := storeStep (matchRail collate g) h.dex e }
  | .bridge e => { h with bridge := storeStep (transferRail collate g) h.bridge e }
  | .call e => { h with call := storeStep (callRail collate sha256 g) h.call e }

def Hub.start : Hub := ⟨Store.empty, Store.empty, Store.empty⟩

def SignaturesHold (_ : Hub) : Event → Prop
  | .dex e => Sound verify (matchRail collate g) e
  | .bridge e => Sound verify (transferRail collate g) e
  | .call e => Sound verify (callRail collate sha256 g) e

def ColumnsHold (h : Hub) : Event → Prop
  | .dex e => MeetsAt (matchRail collate g) h.dex e
  | .bridge e => MeetsAt (transferRail collate g) h.bridge e
  | .call e => MeetsAt (callRail collate sha256 g) h.call e

/- Every finalized row of the three tables verifies. -/
def RowsVerify (h : Hub) : Prop :=
  AllLive (Verified verify (matchRail collate g).canonicalMatch) h.dex.table ∧
    AllLive (Verified verify (transferRail collate g).canonicalMatch) h.bridge.table ∧
    AllLive (Verified verify (callRail collate sha256 g).canonicalMatch) h.call.table

structure HubVerified (h : Hub) : Prop where
  dex : AllVerified verify (matchRail collate g) h.dex
  bridge : AllVerified verify (transferRail collate g) h.bridge
  call : AllVerified verify (callRail collate sha256 g) h.call

variable {collate sha256 g verify}

theorem step_verified (h : Hub) (e : Event) (all : HubVerified collate sha256 g verify h)
    (held : SignaturesHold collate sha256 g verify h e ∧ ColumnsHold collate sha256 g h e) :
    HubVerified collate sha256 g verify (step collate sha256 g h e) := by
  obtain ⟨sound, meets⟩ := held
  cases e with
  | dex e => exact { all with dex := store_step_verified all.dex sound meets }
  | bridge e => exact { all with bridge := store_step_verified all.bridge sound meets }
  | call e => exact { all with call := store_step_verified all.call sound meets }

end Hub

section Samples

/- Every row is in the admission era, and no other gate is active. -/
def sampleGates : Gates where
  royaltyActive := fun _ _ => false
  admissionEra := fun _ _ => true
  equivActivation := fun _ => none
  parseBlock := fun _ => none
  stakeWeightedActive := fun _ _ => false
  numberText := fun _ => "0"
  plainNumber := fun _ => by decide

/- A signature quotes the bytes it is over; ids compare up to case. -/
def sampleVerify (canonical sig pubkey : String) : Bool := pubkey = "k" && sig = canonical

def sampleCollate (id : String) : String := id.map Char.toLower

def signedRow {Row K : Type} (rail : Rail Row K) (r : Row) : Signed Row :=
  ⟨r, [("k", (rail.canonicalMatch r 0).getD "")], 0⟩

def admitAt (btc : ℚ) : MirrorAdmissionGate.AdmitColumns := ⟨some (.number btc), none, none⟩

def sampleMatch (effectiveTime : String) (btc : ℚ) : MatchRow where
  matchId := "m"
  plainId := by decide
  snapshotBlock := "100"
  network := some "testnet"
  a := ⟨"BTC", "1", some "XCHAIN", "5", "0", "pa", some "order", some "0", none⟩
  b := ⟨"LTC", "2", some "XCHAIN", "5", "0", "pb", some "order", some "0", none⟩
  effectiveTime := effectiveTime
  admitColumns := admitAt btc
  admitBlocks := none

def sampleTransfer (snapshotBlock effectiveTime : String) (btc : ℚ) : TransferRow :=
  ⟨"t", snapshotBlock, "XCHAIN", "8", "LTC", "7", "src", "BTC", "dst", "1.0", effectiveTime, some "testnet",
    admitAt btc, none, "1"⟩

def sampleCall (callId effectiveTime : String) (btc : ℚ) : CallColumns :=
  ⟨callId, "dispatch", "100", some "testnet", "LTC", "3", "4", "BTC", "5", "run", some "[]", "1000", "0",
    effectiveTime, none, none, admitAt btc, none, "1"⟩

abbrev dexRail := matchRail sampleCollate sampleGates
abbrev bridgeRail := transferRail sampleCollate sampleGates
abbrev xcallRail := callRail sampleCollate id sampleGates

/- One finalization, a reorg of its source, and a finalization under the same id. -/
def again {Row K : Type} (rail : Rail Row K) (first second : Row) : List (RowEvent Row K) :=
  [.finalized (signedRow rail first), .statement 0, .retracted [rail.key first],
    .finalized (signedRow rail second), .statement 0, .statement 0]

def inMemory (r : MatchRow) : MatchRow :=
  { r with
    admitColumns := ⟨none, none, none⟩
    admitBlocks := some [("BTC", .number 104)] }

abbrev sampleStep := step sampleCollate id sampleGates

instance (h : Hub) (e : Event) : Decidable (SignaturesHold sampleCollate id sampleGates sampleVerify h e) :=
  match e with
  | .dex e => inferInstanceAs (Decidable (Sound sampleVerify dexRail e))
  | .bridge e => inferInstanceAs (Decidable (Sound sampleVerify bridgeRail e))
  | .call e => inferInstanceAs (Decidable (Sound sampleVerify xcallRail e))

instance (h : Hub) (e : Event) : Decidable (ColumnsHold sampleCollate id sampleGates h e) :=
  match e with
  | .dex e => inferInstanceAs (Decidable (MeetsAt dexRail h.dex e))
  | .bridge e => inferInstanceAs (Decidable (MeetsAt bridgeRail h.bridge e))
  | .call e => inferInstanceAs (Decidable (MeetsAt xcallRail h.call e))

instance (h : Hub) : Decidable (RowsVerify sampleCollate id sampleGates sampleVerify h) :=
  inferInstanceAs (Decidable (_ ∧ _ ∧ _))

abbrev SampleSigned := GuardedRuns.Admitted sampleStep (SignaturesHold sampleCollate id sampleGates sampleVerify)

abbrev SampleVerifies (es : List Event) : Prop :=
  RowsVerify sampleCollate id sampleGates sampleVerify (GuardedRuns.run sampleStep .start es)

def sampleRun : List Event :=
  (again dexRail (sampleMatch "1000" 104) (sampleMatch "2000" 104)).map .dex ++
    (again bridgeRail (sampleTransfer "100" "1000" 104) (sampleTransfer "101" "2000" 104)).map .bridge ++
    (again xcallRail (sampleCall "c" "1000" 104) (sampleCall "c" "2000" 109)).map .call

theorem sample_facts : SampleSigned .start sampleRun ∧
    GuardedRuns.Admitted sampleStep (ColumnsHold sampleCollate id sampleGates) .start sampleRun := by
  decide +kernel

end Samples
end XChainHub.CrossChain.RelayRows
