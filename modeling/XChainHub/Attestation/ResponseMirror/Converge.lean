import XChainHub.Library.GuardedRuns
import XChainHub.Library.KeepBest
import XChainHub.Attestation.ResponseMirror.Mirror

/-!
Two response mirrors that are handed the same verifying rows of a request, over every order and
interleaving of their handlers.
-/
namespace XChainHub.ResponseMirror
open GuardedRuns KeepBest
open StakeWeightedQuorum (asciiLower ascii_lower_idem)
open SlotHeap (slotAt Every)

section Property
variable (ctx : Context) (rid : String)

/- The row's signers are the other's, or rank lower among all that may ever be responsible. -/
def Row.AtLeast (a b : Row) : Prop :=
  ResponseMirror.AtLeast (ranked ctx rid) a.signerPubkeys b.signerPubkeys

instance (a b : Row) : Decidable (Row.AtLeast ctx rid a b) := inferInstanceAs (Decidable (_ ∨ _))

/- No row of the request is parked or under way. -/
def Quiet (h : Hub) : Prop :=
  h.parked.get rid = none ∧
    Every (fun t => t.row.requestId ≠ rid ∧ ∀ r ∈ t.rest, r.requestId ≠ rid) h.tasks

def SameRow : Option Row → Option Row → Prop
  | none, none => True
  | some a, some b => a.body = b.body ∧ sameSignerList a.signerPubkeys b.signerPubkeys = true
  | _, _ => False

/- A row of the request verifies at every tip at which it is looked at, its snapshots are read, and
   the request resolves at the park retry. -/
def InDomain (answer : Option ℕ) (t : Task) : Prop :=
  match t.stage with
  | .resolve => (ctx.request rid).mirrorEra = true ∧ (t.retry = true → answer ≠ none)
  | .verify latestBlock => answer ≠ none ∧ verifyGossipedRow ctx t.row latestBlock = true
  | .converge _ => (ctx.request rid).mirrorEra = true
  | .convergeVerify _ latestBlock => answer ≠ none ∧ verifyGossipedRow ctx t.row latestBlock = true
  | .rank _ _ => answer ≠ none
  | _ => True

/- The entry that is parked already stands for the row, and the oldest one that makes room is of
   another request. -/
def ParkKeeps (h : Hub) (row : Row) : Prop :=
  match h.parked.get row.requestId with
  | some p => row.requestId = rid → p.key = row.key ∧ Row.AtLeast ctx rid p row
  | none => parkMax ≤ h.parked.size → (h.parked.entries.head?).map Prod.fst ≠ some rid

/- Exactly redundancy signatures, and the listed signers are theirs. -/
def Exact (row : Row) : Prop :=
  row.signatures.length = max 1 (ctx.request row.requestId).redundancy ∧ pairedSignerList row ≠ none

instance (row : Row) : Decidable (Exact ctx row) := inferInstanceAs (Decidable (_ ∧ _))

/- Where a row of the request is not stored, what is stored is at least as good. -/
def StageKeeps (h : Hub) (answer : Option ℕ) (t : Task) : Prop :=
  match t.stage with
  | .insert => ∀ stored ∈ h.rows.get t.row.key, stored.AtLeast ctx rid t.row
  | .converge held => answer = none → held.AtLeast ctx rid t.row
  | .rank held _ => Exact ctx t.row ∨ held.AtLeast ctx rid t.row
  | .replace held =>
    ∀ stored ∈ h.rows.get t.row.key,
      if stored.signatures = held.signatures then t.row.AtLeast ctx rid stored
      else stored.AtLeast ctx rid t.row
  | _ => True

def TaskKeeps (h : Hub) (answer : Option ℕ) (t : Task) : Prop :=
  (t.row.requestId = rid → InDomain ctx rid answer t ∧ StageKeeps ctx rid h answer t) ∧
    (t.stage = .resolve ∧ answer = none ∧ t.retry = false → ParkKeeps ctx rid h t.row)

def Lookups (h : Hub) : Event → Prop
  | .resume n answer =>
    match slotAt h.tasks n with
    | none => True
    | some t => t.row.requestId = rid → InDomain ctx rid answer t
  | _ => True

def Keeps (h : Hub) : Event → Prop
  | .resume n answer =>
    match slotAt h.tasks n with
    | none => True
    | some t => TaskKeeps ctx rid h answer t
  | _ => True

instance (answer : Option ℕ) (t : Task) : Decidable (InDomain ctx rid answer t) := by
  unfold InDomain
  split <;> infer_instance

instance (h : Hub) (row : Row) : Decidable (ParkKeeps ctx rid h row) := by
  unfold ParkKeeps
  split <;> infer_instance

instance (h : Hub) (answer : Option ℕ) (t : Task) : Decidable (StageKeeps ctx rid h answer t) := by
  unfold StageKeeps
  split <;> infer_instance

instance (h : Hub) (answer : Option ℕ) (t : Task) : Decidable (TaskKeeps ctx rid h answer t) :=
  inferInstanceAs (Decidable (_ ∧ _))

instance (h : Hub) (e : Event) : Decidable (Lookups ctx rid h e) := by
  unfold Lookups
  split
  · split <;> infer_instance
  · infer_instance

instance (h : Hub) (e : Event) : Decidable (Keeps ctx rid h e) := by
  unfold Keeps
  split
  · split <;> infer_instance
  · infer_instance

end Property

section Ranks
variable {ctx : Context} {rid : String} {a b c : Row}

theorem row_at_least_refl (a : Row) : a.AtLeast ctx rid a := at_least_refl _ _

theorem row_at_least_trans (a b c : Row) (first : a.AtLeast ctx rid b) (second : b.AtLeast ctx rid c) :
    a.AtLeast ctx rid c := at_least_trans first second

theorem first_entries_sublist (sigs : List Signature) (seen : List String) :
    (firstEntries sigs seen).Sublist sigs := by
  induction sigs generalizing seen with
  | nil => exact List.Sublist.refl _
  | cons s sigs ih =>
    simp only [firstEntries]
    split
    · exact (ih seen).cons s
    · exact (ih (s.pubkey :: seen)).cons_cons s

theorem first_entries_fresh (sigs : List Signature) (seen : List String) :
    ((firstEntries sigs seen).map Signature.pubkey).Nodup ∧
      ∀ s ∈ firstEntries sigs seen, s.pubkey ∉ seen := by
  induction sigs generalizing seen with
  | nil => simp [firstEntries]
  | cons s sigs ih =>
    simp only [firstEntries]
    split
    · exact ih seen
    · rename_i fresh
      obtain ⟨nodup, apart⟩ := ih (s.pubkey :: seen)
      constructor
      · rw [List.map_cons, List.nodup_cons]
        refine ⟨?_, nodup⟩
        intro again
        obtain ⟨s', member, same⟩ := List.mem_map.mp again
        exact apart s' member (same ▸ List.mem_cons_self)
      · intro s' member
        rcases List.mem_cons.mp member with rfl | later
        · exact fresh
        · exact fun old => apart s' later (List.mem_cons_of_mem _ old)

/-- A verifying row of exactly redundancy signatures is signed by that many responsible members. -/
theorem exact_row_responsible {row : Row} {latestBlock : ℕ} (exact_ : Exact ctx row)
    (verified : verifyGossipedRow ctx row latestBlock = true) :
    (row.signatures.map Signature.pubkey).Nodup ∧
      ∀ s ∈ row.signatures, s.pubkey ∈ responsibleRankOrder ctx row latestBlock := by
  simp only [verifyGossipedRow, Bool.and_eq_true, decide_eq_true_eq] at verified
  have sub := first_entries_sublist row.signatures []
  have enough : row.signatures.length ≤ ((firstEntries row.signatures []).filter (fun s =>
      s.pubkey ∈ responsibleRankOrder ctx row latestBlock && ctx.signed row s)).length := by
    rw [exact_.1]
    exact verified.2
  have filtered := List.length_filter_le (fun s => decide (s.pubkey ∈ responsibleRankOrder ctx row latestBlock)
    && ctx.signed row s) (firstEntries row.signatures [])
  have all : firstEntries row.signatures [] = row.signatures :=
    sub.eq_of_length (Nat.le_antisymm sub.length_le (Nat.le_trans enough filtered))
  constructor
  · rw [← all]
    exact (first_entries_fresh row.signatures []).1
  · intro s member
    rw [all] at enough
    have kept := List.filter_sublist.eq_of_length (Nat.le_antisymm (List.length_filter_le _ _) enough)
    have passed := (List.mem_filter.mp (kept ▸ member)).2
    rw [Bool.and_eq_true, decide_eq_true_eq] at passed
    exact passed.1

theorem paired_same_signers {row : Row} {pubkeys : List String}
    (paired : pairedSignerList row = some pubkeys) :
    pubkeys = row.signatures.map Signature.pubkey ∧ pubkeys.map asciiLower = pubkeys ∧
      sameSignerList pubkeys row.signerPubkeys = true := by
  simp only [pairedSignerList] at paired
  split at paired
  · rename_i listed
    cases paired
    have lowered : (row.signatures.map Signature.pubkey).map asciiLower =
        row.signatures.map Signature.pubkey := by
      rw [← listed, List.map_map]
      exact List.map_congr_left (fun k _ => ascii_lower_idem k)
    refine ⟨rfl, lowered, same_signer_list_perm.mpr ?_⟩
    rw [lowered, listed]
  · exact absurd paired (by simp)

/-- What such a row does not outrank is at least as good. -/
theorem exact_row_outranks {row held : Row} {latestBlock : ℕ} (exact_ : Exact ctx row)
    (verified : verifyGossipedRow ctx row latestBlock = true)
    (below : outranks ctx row held latestBlock = false) : held.AtLeast ctx row.requestId row := by
  obtain ⟨nodup, responsible⟩ := exact_row_responsible exact_ verified
  obtain ⟨pubkeys, paired⟩ := Option.ne_none_iff_exists'.mp exact_.2
  obtain ⟨named, lowered, same⟩ := paired_same_signers paired
  have ranks : signerRankVector pubkeys (responsibleRankOrder ctx row latestBlock) =
      some ((pubkeys.map (fun k => (responsibleRankOrder ctx row latestBlock).idxOf k)).insertionSort
        (· ≤ ·)) := by
    simp only [signerRankVector, lowered]
    refine if_pos ⟨named ▸ nodup, ?_⟩
    intro k member
    rw [named] at member
    obtain ⟨s, signed, rfl⟩ := List.mem_map.mp member
    exact responsible s signed
  have size : pubkeys.length = max 1 (ctx.request row.requestId).redundancy := by
    rw [named, List.length_map]
    exact exact_.1
  have incoming := ranks
  rw [rank_vector_same same] at incoming
  simp only [outranks, paired, Option.any_some, isRankBetterSignerSet, ranks, List.length_insertionSort,
    List.length_map, size, decide_true, Bool.true_and] at below
  cases stored : signerRankVector held.signerPubkeys (responsibleRankOrder ctx row latestBlock) with
  | none => simp [stored, rankBelow] at below
  | some w =>
    simp only [stored, rankBelow, decide_eq_false_iff_not] at below
    rcases lt_or_eq_of_le (not_lt.mp below) with lower | equal
    · refine Or.inr ?_
      rw [rank_vector_widened stored, rank_vector_widened incoming]
      exact decide_eq_true lower
    · exact Or.inl (same_rank_same_signers (equal ▸ stored) incoming)

end Ranks

section Sources
variable {ctx : Context} {h : Hub} {n : ℕ} {t : Task}

@[simp] theorem finish_rows (h : Hub) (n : ℕ) (t : Task) : (h.finish n t).rows = h.rows := by
  simp only [Hub.finish]
  split <;> rfl

@[simp] theorem finish_parked (h : Hub) (n : ℕ) (t : Task) : (h.finish n t).parked = h.parked := by
  simp only [Hub.finish]
  split <;> rfl

@[simp] theorem finish_received (h : Hub) (n : ℕ) (t : Task) : (h.finish n t).received = h.received := by
  simp only [Hub.finish]
  split <;> rfl

/- A stored row has the body of a received row of its key, and the signers of one. -/
def Stands (received : List Row) (stored : Row) : Prop :=
  (∃ r ∈ received, r.key = stored.key ∧ r.body = stored.body) ∧
    ∃ r ∈ received, r.key = stored.key ∧ r.signerPubkeys = stored.signerPubkeys

theorem stands_grows {received : List Row} {stored : Row} (row : Row) (stands : Stands received stored) :
    Stands (row :: received) stored := by
  obtain ⟨⟨r, handed, same⟩, s, handed', same'⟩ := stands
  exact ⟨⟨r, List.mem_cons_of_mem _ handed, same⟩, s, List.mem_cons_of_mem _ handed', same'⟩

def Received (received : List Row) (t : Task) : Prop := t.row ∈ received ∧ ∀ r ∈ t.rest, r ∈ received

/- What holds in every run: everything at hand was received. -/
structure Sourced (h : Hub) : Prop where
  rows : ∀ key stored, h.rows.get key = some stored → key = stored.key ∧ Stands h.received stored
  parked : ∀ rid p, h.parked.get rid = some p → rid = p.requestId ∧ p ∈ h.received
  tasks : Every (Received h.received) h.tasks

theorem sourced_empty : Sourced emptyHub where
  rows := by
    intro key stored held
    exact absurd held (by simp [emptyHub])
  parked := by
    intro rid p held
    exact absurd held (by simp [emptyHub])
  tasks := SlotHeap.every_nil

theorem sourced_next (sourced : Sourced h) (held : slotAt h.tasks n = some t) {t' : Task}
    (received : Received h.received t') : Sourced (h.next n t') := by
  refine ⟨sourced.rows, sourced.parked, SlotHeap.every_set sourced.tasks held ?_⟩
  rintro _ ⟨⟩
  exact received

theorem sourced_finish (sourced : Sourced h) (held : slotAt h.tasks n = some t) :
    Sourced (h.finish n t) := by
  obtain ⟨-, rest⟩ := sourced.tasks n t held
  simp only [Hub.finish]
  split
  · refine ⟨sourced.rows, sourced.parked, SlotHeap.every_set sourced.tasks held ?_⟩
    rintro _ ⟨⟩
  · rename_i row later pending
    rw [pending] at rest
    exact sourced_next sourced held
      ⟨rest row List.mem_cons_self, fun r member => rest r (List.mem_cons_of_mem _ member)⟩

theorem sourced_inserted (sourced : Sourced h) {row : Row} (received : row ∈ h.received) :
    Sourced (insertAndBroadcast h row) := by
  refine ⟨?_, sourced.parked, sourced.tasks⟩
  intro key stored found
  simp only [insertAndBroadcast, createAttestationResponseMirrorRow] at found
  split at found
  · exact sourced.rows key stored found
  · by_cases same : key = row.key
    · rw [same, OrderedMap.get_set_same] at found
      cases found
      exact ⟨same, ⟨row, received, rfl, rfl⟩, row, received, rfl, rfl⟩
    · rw [OrderedMap.get_set_other same] at found
      exact sourced.rows key stored found

theorem sourced_converged (sourced : Sourced h) {row : Row} (received : row ∈ h.received) (held : Row) :
    Sourced (convergeSignerSet h held row) := by
  refine ⟨?_, sourced.parked, sourced.tasks⟩
  intro key stored found
  simp only [convergeSignerSet, updateAttestationResponseSignerSet] at found
  split at found
  · exact sourced.rows key stored found
  · rename_i old stored'
    split at found
    · by_cases same : key = row.key
      · rw [same, OrderedMap.get_set_same] at found
        cases found
        obtain ⟨keyed, body, -⟩ := sourced.rows _ _ stored'
        refine ⟨same.trans keyed, body, row, received, ?_, rfl⟩
        exact keyed
      · rw [OrderedMap.get_set_other same] at found
        exact sourced.rows key stored found
    · exact sourced.rows key stored found

theorem evicted_held {parked : OrderedMap String Row} {rid : String} {p : Row}
    (held : (evictOldest parked).get rid = some p) : parked.get rid = some p := by
  simp only [evictOldest] at held
  split at held
  · split at held
    · exact held
    · rename_i oldest later entries
      by_cases same : rid = oldest.1
      · rw [same, OrderedMap.get_erase_same] at held
        exact absurd held (by simp)
      · rwa [OrderedMap.get_erase_other same] at held
  · exact held

theorem sourced_parked (sourced : Sourced h) {row : Row} (received : row ∈ h.received) :
    Sourced (park h row) := by
  simp only [park]
  split
  · exact sourced
  · refine ⟨sourced.rows, ?_, sourced.tasks⟩
    intro rid p found
    by_cases same : rid = row.requestId
    · rw [same, OrderedMap.get_set_same] at found
      cases found
      exact ⟨same, received⟩
    · rw [OrderedMap.get_set_other same] at found
      exact sourced.parked rid p (evicted_held found)

theorem sourced_resume (sourced : Sourced h) (held : slotAt h.tasks n = some t) (answer : Option ℕ) :
    Sourced (resume ctx h n t answer) := by
  have received := sourced.tasks n t held
  have finished := sourced_finish sourced held
  have moved : ∀ stage, Sourced (h.next n { t with stage := stage }) :=
    fun stage => sourced_next sourced held received
  simp only [resume]
  cases t.stage with
  | read row =>
    cases row with
    | none => exact moved _
    | some row =>
      simp only
      split
      · exact finished
      · exact moved _
  | resolve =>
    cases answer with
    | none =>
      simp only [parkOrDrop]
      split
      · exact finished
      · refine sourced_finish (sourced_parked sourced received.1) ?_
        simp only [park]
        split <;> exact held
    | some latestBlock =>
      simp only
      split
      · exact moved _
      · exact finished
  | verify latestBlock =>
    simp only
    split
    · exact moved _
    · exact finished
  | insert => exact sourced_next (sourced_inserted sourced received.1) held received
  | converge row =>
    cases answer with
    | none => exact finished
    | some latestBlock =>
      simp only
      split
      · exact moved _
      · exact finished
  | convergeVerify row latestBlock =>
    simp only
    split
    · exact moved _
    · exact finished
  | rank row latestBlock =>
    simp only
    split
    · exact moved _
    · exact finished
  | replace row => exact sourced_next (sourced_converged sourced received.1 row) held received
  | settled => exact finished

theorem received_grows {received : List Row} (row : Row) (t : Task) (kept : Received received t) :
    Received (row :: received) t :=
  ⟨List.mem_cons_of_mem _ kept.1, fun r member => List.mem_cons_of_mem _ (kept.2 r member)⟩

/- A delivery of any kind opens a task of the row. -/
theorem sourced_delivered (sourced : Sourced h) {t : Task} (alone : t.rest = []) :
    Sourced { h with tasks := h.tasks ++ [some t], received := t.row :: h.received } := by
  refine ⟨?_, ?_, ?_⟩
  · intro key stored found
    exact ⟨(sourced.rows key stored found).1, stands_grows _ (sourced.rows key stored found).2⟩
  · intro rid p found
    exact ⟨(sourced.parked rid p found).1, List.mem_cons_of_mem _ (sourced.parked rid p found).2⟩
  · refine SlotHeap.every_push (SlotHeap.every_weaken (received_grows t.row) sourced.tasks) ?_
    exact ⟨List.mem_cons_self, by simp [alone]⟩

theorem drained_received (sourced : Sourced h) :
    ∀ r ∈ h.parked.entries.map Prod.snd, r ∈ h.received := by
  intro r member
  obtain ⟨e, entry, rfl⟩ := List.mem_map.mp member
  exact (sourced.parked e.1 e.2 (OrderedMap.get_of_mem entry)).2

theorem sourced_step (sourced : Sourced h) (e : Event) : Sourced (step ctx h e) := by
  cases e with
  | handleResult row => exact sourced_delivered sourced (t := ingestGossipRow h row false []) rfl
  | handleFinalized row => exact sourced_delivered sourced (t := ⟨row, false, [], .insert⟩) rfl
  | drainParked =>
    have drained := drained_received sourced
    simp only [step, drainParked]
    split
    · exact sourced
    · rename_i row rest entries
      rw [entries] at drained
      refine ⟨sourced.rows, ?_, SlotHeap.every_push sourced.tasks ?_⟩
      · intro rid p found
        exact absurd found (by simp)
      · exact ⟨drained row List.mem_cons_self, fun r member => drained r (List.mem_cons_of_mem _ member)⟩
  | resume n answer =>
    simp only [step]
    split
    · exact sourced
    · rename_i t held
      exact sourced_resume sourced held answer

end Sources

section Representatives
variable {ctx : Context} {rid : String} {h : Hub} {n : ℕ} {t : Task}

/- A row of the request that is stored or parked. -/
def Kept (rid : String) (h : Hub) (r : Row) : Prop :=
  r.requestId = rid ∧ (h.rows.get r.key = some r ∨ h.parked.get rid = some r)

def UnderWay (rid : String) (h : Hub) (r : Row) : Prop :=
  r.requestId = rid ∧ ∃ n t, slotAt h.tasks n = some t ∧ (r = t.row ∨ r ∈ t.rest)

def AtHand (rid : String) (h : Hub) (r : Row) : Prop := Kept rid h r ∨ UnderWay rid h r

def HandedOver (rid : String) (h : Hub) (r : Row) : Prop := r ∈ h.received ∧ r.requestId = rid

/- What is stored under a row's key is at least as good as another row. -/
def StoredOver (ctx : Context) (rid : String) (rows : Rows) (row other : Row) : Prop :=
  ∃ stored, rows.get row.key = some stored ∧ stored.AtLeast ctx rid other

def StageOk (ctx : Context) (rid : String) (rows : Rows) (t : Task) : Prop :=
  t.row.requestId = rid →
    match t.stage with
    | .read (some held) => StoredOver ctx rid rows t.row held
    | .converge held => StoredOver ctx rid rows t.row held
    | .convergeVerify held _ => StoredOver ctx rid rows t.row held
    | .rank held latestBlock =>
      StoredOver ctx rid rows t.row held ∧ verifyGossipedRow ctx t.row latestBlock = true
    | .replace held => StoredOver ctx rid rows t.row held
    | .settled => StoredOver ctx rid rows t.row t.row
    | _ => True

/- What an admitted run keeps: each row received has one at hand that is at least as good. -/
structure Settled (ctx : Context) (rid : String) (h : Hub) : Prop where
  represents : Represents Row.key (Row.AtLeast ctx rid) (AtHand rid h) (HandedOver rid h)
  stages : Every (StageOk ctx rid h.rows) h.tasks

theorem settled_empty : Settled ctx rid emptyHub where
  represents := by
    rintro r ⟨handed, -⟩
    exact absurd handed (by simp [emptyHub])
  stages := SlotHeap.every_nil

theorem stored_over_improves {rows rows' : Rows} {row other : Row}
    (improved : ∀ stored, rows.get row.key = some stored →
      ∃ stored', rows'.get row.key = some stored' ∧ stored'.AtLeast ctx rid stored)
    (over_ : StoredOver ctx rid rows row other) : StoredOver ctx rid rows' row other := by
  obtain ⟨stored, found, better⟩ := over_
  obtain ⟨stored', found', better'⟩ := improved stored found
  exact ⟨stored', found', row_at_least_trans _ _ _ better' better⟩

theorem stage_ok_improves {rows rows' : Rows}
    (improved : ∀ key stored, key.1 = rid → rows.get key = some stored →
      ∃ stored', rows'.get key = some stored' ∧ stored'.AtLeast ctx rid stored)
    (t : Task) (ok : StageOk ctx rid rows t) : StageOk ctx rid rows' t := by
  intro own
  have kept : ∀ other, StoredOver ctx rid rows t.row other → StoredOver ctx rid rows' t.row other :=
    fun other => stored_over_improves (improved t.row.key · own)
  have before := ok own
  revert before
  cases t.stage with
  | read held =>
    cases held with
    | none => exact id
    | some held => exact kept held
  | resolve => exact id
  | verify latestBlock => exact id
  | insert => exact id
  | converge held => exact kept held
  | convergeVerify held latestBlock => exact kept held
  | rank held latestBlock => exact fun both => ⟨kept held both.1, both.2⟩
  | replace held => exact kept held
  | settled => exact kept t.row

theorem settled_next (settled : Settled ctx rid h) (held : slotAt h.tasks n = some t) {stage : Stage}
    (ok : StageOk ctx rid h.rows { t with stage := stage }) :
    Settled ctx rid (h.next n { t with stage := stage }) := by
  constructor
  · refine represents_moved row_at_least_trans ?_ settled.represents
    rintro b (kept | ⟨own, m, t', slot, mine⟩)
    · exact ⟨b, Or.inl kept, rfl, row_at_least_refl b⟩
    · refine ⟨b, Or.inr ⟨own, ?_⟩, rfl, row_at_least_refl b⟩
      by_cases same : m = n
      · rw [same, held] at slot
        cases slot
        exact ⟨n, _, SlotHeap.slot_set_same held, mine⟩
      · exact ⟨m, t', by rw [Hub.next, SlotHeap.slot_set_other same]; exact slot, mine⟩
  · refine SlotHeap.every_set settled.stages held ?_
    rintro _ ⟨⟩
    exact ok

theorem ingest_stage_ok (h : Hub) (row : Row) (retry : Bool) (rest : List Row) :
    StageOk ctx rid h.rows (ingestGossipRow h row retry rest) := by
  intro _
  simp only [ingestGossipRow]
  cases found : h.rows.get row.key with
  | none => trivial
  | some held => exact ⟨held, found, row_at_least_refl held⟩

/- A handler may end once a kept row stands for its own. -/
theorem settled_finish (settled : Settled ctx rid h) (held : slotAt h.tasks n = some t)
    (stands : t.row.requestId = rid → ∃ b, Kept rid h b ∧ b.key = t.row.key ∧ b.AtLeast ctx rid t.row) :
    Settled ctx rid (h.finish n t) := by
  have kept : ∀ b, Kept rid h b → Kept rid (h.finish n t) b := by
    intro b
    simp only [Kept, finish_rows, finish_parked]
    exact id
  constructor
  · intro r
    simp only [HandedOver, finish_received]
    intro handed
    obtain ⟨b, atHand, keyed, better⟩ := settled.represents r handed
    rcases atHand with stays | ⟨own, m, t', slot, mine⟩
    · exact ⟨b, Or.inl (kept b stays), keyed, better⟩
    · by_cases same : m = n
      · rw [same, held] at slot
        cases slot
        rcases mine with rfl | later
        · obtain ⟨b', stays, keyed', better'⟩ := stands own
          exact ⟨b', Or.inl (kept b' stays), keyed'.trans keyed, row_at_least_trans _ _ _ better' better⟩
        · refine ⟨b, Or.inr ⟨own, n, ?_⟩, keyed, better⟩
          simp only [Hub.finish]
          split
          · rename_i none'
            rw [none'] at later
            exact absurd later (by simp)
          · rename_i row rest pending
            rw [pending] at later
            exact ⟨_, SlotHeap.slot_set_same held, List.mem_cons.mp later⟩
      · refine ⟨b, Or.inr ⟨own, m, t', ?_, mine⟩, keyed, better⟩
        simp only [Hub.finish]
        split
        · exact (SlotHeap.slot_set_other same).trans slot
        · exact (SlotHeap.slot_set_other same).trans slot
  · simp only [Hub.finish]
    split
    · refine SlotHeap.every_set settled.stages held ?_
      rintro _ ⟨⟩
    · refine SlotHeap.every_set settled.stages held ?_
      rintro _ ⟨⟩
      exact ingest_stage_ok h _ _ _

/- Where the stored rows of the request only improve, nothing received is lost. -/
theorem settled_improved (settled : Settled ctx rid h) {rows : Rows}
    (improved : ∀ key stored, key.1 = rid → h.rows.get key = some stored →
      ∃ stored', rows.get key = some stored' ∧ stored'.key = key ∧ stored'.AtLeast ctx rid stored) :
    Settled ctx rid { h with rows := rows } := by
  constructor
  · refine represents_moved row_at_least_trans ?_ settled.represents
    rintro b (⟨own, found | parked⟩ | underWay)
    · obtain ⟨b', found', keyed, better⟩ := improved b.key b own found
      refine ⟨b', Or.inl ⟨?_, Or.inl ?_⟩, keyed, better⟩
      · exact (congrArg Prod.fst keyed).trans own
      · rw [keyed]
        exact found'
    · exact ⟨b, Or.inl ⟨own, Or.inr parked⟩, rfl, row_at_least_refl b⟩
    · exact ⟨b, Or.inr underWay, rfl, row_at_least_refl b⟩
  · refine SlotHeap.every_weaken (stage_ok_improves ?_) settled.stages
    intro key stored own found
    obtain ⟨stored', found', -, better⟩ := improved key stored own found
    exact ⟨stored', found', better⟩

theorem inserted_improves (sourced : Sourced h) (row : Row) (key : String × ℕ) (stored : Row)
    (found : h.rows.get key = some stored) :
    ∃ stored', (createAttestationResponseMirrorRow h.rows row).get key = some stored' ∧
      stored'.key = key ∧ stored'.AtLeast ctx rid stored := by
  refine ⟨stored, ?_, (sourced.rows key stored found).1.symm, row_at_least_refl stored⟩
  simp only [createAttestationResponseMirrorRow]
  split
  · exact found
  · rename_i absent
    rw [OrderedMap.get_set_other]
    · exact found
    · rintro rfl
      exact absent (by simp [OrderedMap.has, found])

theorem inserted_stored {row : Row}
    (stands : ∀ stored ∈ h.rows.get row.key, stored.AtLeast ctx rid row) :
    StoredOver ctx rid (createAttestationResponseMirrorRow h.rows row) row row := by
  simp only [createAttestationResponseMirrorRow]
  split
  · rename_i present
    obtain ⟨stored, found⟩ := Option.isSome_iff_exists.mp present
    exact ⟨stored, found, stands stored found⟩
  · exact ⟨row, OrderedMap.get_set_same _ _ _, row_at_least_refl row⟩

theorem converged_improves (sourced : Sourced h) {held row : Row}
    (stands : row.requestId = rid → ∀ stored ∈ h.rows.get row.key,
      if stored.signatures = held.signatures then row.AtLeast ctx rid stored
      else stored.AtLeast ctx rid row)
    (key : String × ℕ) (stored : Row) (own : key.1 = rid) (found : h.rows.get key = some stored) :
    ∃ stored', (updateAttestationResponseSignerSet h.rows held row).get key = some stored' ∧
      stored'.key = key ∧ stored'.AtLeast ctx rid stored := by
  have unchanged : ∃ stored', h.rows.get key = some stored' ∧ stored'.key = key ∧
      stored'.AtLeast ctx rid stored :=
    ⟨stored, found, (sourced.rows key stored found).1.symm, row_at_least_refl stored⟩
  simp only [updateAttestationResponseSignerSet]
  split
  · exact unchanged
  · rename_i old atRow
    split
    · rename_i swaps
      by_cases same : key = row.key
      · rw [same, atRow] at found
        cases found
        rw [same]
        refine ⟨_, OrderedMap.get_set_same _ _ _, (sourced.rows _ _ atRow).1.symm, ?_⟩
        have better := stands (by rw [← own, same]; rfl) stored atRow
        rwa [if_pos swaps] at better
      · rw [OrderedMap.get_set_other same]
        exact unchanged
    · exact unchanged

theorem converged_stored {held row : Row} (present : StoredOver ctx rid h.rows row held)
    (stands : ∀ stored ∈ h.rows.get row.key,
      if stored.signatures = held.signatures then row.AtLeast ctx rid stored
      else stored.AtLeast ctx rid row) :
    StoredOver ctx rid (updateAttestationResponseSignerSet h.rows held row) row row := by
  obtain ⟨stored, found, -⟩ := present
  have better := stands stored found
  simp only [updateAttestationResponseSignerSet, found]
  split
  · exact ⟨_, OrderedMap.get_set_same _ _ _, at_least_refl _ _⟩
  · rename_i other
    rw [if_neg other] at better
    exact ⟨stored, found, better⟩

theorem evict_keeps {parked : OrderedMap String Row}
    (spares : parkMax ≤ parked.size → (parked.entries.head?).map Prod.fst ≠ some rid) :
    (evictOldest parked).get rid = parked.get rid := by
  simp only [evictOldest]
  split
  · rename_i full
    split
    · rfl
    · rename_i oldest later entries
      apply OrderedMap.get_erase_other
      rintro rfl
      exact spares full (by simp [entries])
  · rfl

theorem park_keeps {row : Row} (keeps : ParkKeeps ctx rid h row) (r : Row) (kept : Kept rid h r) :
    Kept rid (park h row) r := by
  obtain ⟨own, here⟩ := kept
  simp only [park]
  split
  · exact ⟨own, here⟩
  · rename_i absent
    refine ⟨own, here.imp id ?_⟩
    intro parked
    have missing : h.parked.get row.requestId = none := by
      simpa [OrderedMap.has] using absent
    have other : rid ≠ row.requestId := by
      rintro rfl
      exact absurd (parked.symm.trans missing) (by simp)
    simp only [ParkKeeps, missing] at keeps
    rw [OrderedMap.get_set_other other, evict_keeps keeps]
    exact parked

theorem park_stands {row : Row} (own : row.requestId = rid) (keeps : ParkKeeps ctx rid h row)
    (sourced : Sourced h) : ∃ b, Kept rid (park h row) b ∧ b.key = row.key ∧ b.AtLeast ctx rid row := by
  cases parked : h.parked.get row.requestId with
  | none =>
    refine ⟨row, ⟨own, Or.inr ?_⟩, rfl, row_at_least_refl row⟩
    simp [park, OrderedMap.has, parked, ← own]
  | some p =>
    simp only [ParkKeeps, parked] at keeps
    obtain ⟨keyed, better⟩ := keeps own
    refine ⟨p, ⟨(sourced.parked _ p parked).1.symm.trans own, Or.inr ?_⟩, keyed, better⟩
    simp [park, OrderedMap.has, parked, ← own]

theorem settled_parked (settled : Settled ctx rid h) {row : Row} (keeps : ParkKeeps ctx rid h row) :
    Settled ctx rid (park h row) := by
  have tasks : (park h row).tasks = h.tasks := by
    simp only [park]
    split <;> rfl
  have received : (park h row).received = h.received := by
    simp only [park]
    split <;> rfl
  have rows : (park h row).rows = h.rows := by
    simp only [park]
    split <;> rfl
  constructor
  · intro r handed
    rw [HandedOver, received] at handed
    obtain ⟨b, atHand, keyed, better⟩ := settled.represents r handed
    refine ⟨b, atHand.imp (park_keeps keeps b) ?_, keyed, better⟩
    rintro ⟨own, n, t, slot, mine⟩
    exact ⟨own, n, t, by rw [tasks]; exact slot, mine⟩
  · rw [tasks, rows]
    exact settled.stages

/- A handler may end where the stored row stands for its own. -/
theorem settled_finish_stored (settled : Settled ctx rid h) (sourced : Sourced h)
    (held : slotAt h.tasks n = some t)
    (stored : t.row.requestId = rid → StoredOver ctx rid h.rows t.row t.row) :
    Settled ctx rid (h.finish n t) := by
  apply settled_finish settled held
  intro own
  obtain ⟨b, found, better⟩ := stored own
  have keyed := (sourced.rows _ b found).1
  refine ⟨b, ⟨?_, Or.inl ?_⟩, keyed.symm, better⟩
  · rw [← own]
    exact (congrArg Prod.fst keyed).symm
  · rw [← keyed]
    exact found

theorem stored_over_held {rows : Rows} {row held : Row} (present : StoredOver ctx rid rows row held)
    (better : held.AtLeast ctx rid row) : StoredOver ctx rid rows row row := by
  obtain ⟨stored, found, over_⟩ := present
  exact ⟨stored, found, row_at_least_trans _ _ _ over_ better⟩

theorem settled_resume (settled : Settled ctx rid h) (sourced : Sourced h)
    (held : slotAt h.tasks n = some t) {answer : Option ℕ} (keeps : TaskKeeps ctx rid h answer t) :
    Settled ctx rid (resume ctx h n t answer) := by
  have stages := settled.stages n t held
  obtain ⟨own, parks⟩ := keeps
  simp only [resume]
  cases stage : t.stage with
  | read found =>
    simp only [StageOk, stage] at stages
    cases found with
    | none => exact settled_next settled held (fun _ => trivial)
    | some found =>
      simp only
      split
      · rename_i same
        exact settled_finish_stored settled sourced held
          (fun mine => stored_over_held (stages mine) (Or.inl same))
      · exact settled_next settled held (fun mine => stages mine)
  | resolve =>
    simp only [InDomain, stage] at own
    cases answer with
    | none =>
      simp only [parkOrDrop]
      split
      · rename_i retry
        exact settled_finish_stored settled sourced held
          (fun mine => absurd rfl ((own mine).1.2 retry))
      · rename_i delivery
        have keeps := parks ⟨stage, rfl, eq_false_of_ne_true delivery⟩
        have slot : slotAt (park h t.row).tasks n = some t := by
          simp only [park]
          split <;> exact held
        exact settled_finish (settled_parked settled keeps) slot
          (fun mine => park_stands mine keeps sourced)
    | some latestBlock =>
      simp only
      split
      · exact settled_next settled held (fun _ => trivial)
      · rename_i legacy
        refine settled_finish_stored settled sourced held (fun mine => absurd ?_ legacy)
        rw [mine]
        exact (own mine).1.1
  | verify latestBlock =>
    simp only [InDomain, stage] at own
    simp only
    split
    · exact settled_next settled held (fun _ => trivial)
    · rename_i refused
      refine settled_finish_stored settled sourced held (fun mine => absurd ?_ refused)
      simp [(own mine).1.2, Option.isSome_iff_ne_none.mpr (own mine).1.1]
  | insert =>
    simp only [StageKeeps, stage] at own
    have inserted : Settled ctx rid (insertAndBroadcast h t.row) :=
      settled_improved settled (fun key stored _ => inserted_improves sourced t.row key stored)
    exact settled_next inserted held (fun mine => inserted_stored (own mine).2)
  | converge found =>
    simp only [StageOk, stage] at stages
    simp only [InDomain, StageKeeps, stage] at own
    cases answer with
    | none =>
      exact settled_finish_stored settled sourced held
        (fun mine => stored_over_held (stages mine) ((own mine).2 rfl))
    | some latestBlock =>
      simp only
      split
      · exact settled_next settled held (fun mine => stages mine)
      · rename_i legacy
        refine settled_finish_stored settled sourced held (fun mine => absurd ?_ legacy)
        rw [mine]
        exact (own mine).1
  | convergeVerify found latestBlock =>
    simp only [StageOk, stage] at stages
    simp only [InDomain, stage] at own
    simp only
    split
    · rename_i passed
      rw [Bool.and_eq_true] at passed
      exact settled_next settled held (fun mine => ⟨stages mine, passed.2⟩)
    · rename_i refused
      refine settled_finish_stored settled sourced held (fun mine => absurd ?_ refused)
      simp [(own mine).1.2, Option.isSome_iff_ne_none.mpr (own mine).1.1]
  | rank found latestBlock =>
    simp only [StageOk, stage] at stages
    simp only [InDomain, StageKeeps, stage] at own
    simp only
    split
    · exact settled_next settled held (fun mine => (stages mine).1)
    · rename_i stays
      refine settled_finish_stored settled sourced held (fun mine => ?_)
      apply stored_over_held (stages mine).1
      rcases (own mine).2 with exact_ | better
      · have below : outranks ctx t.row found latestBlock = false := by
          simpa [Option.isSome_iff_ne_none.mpr (own mine).1] using stays
        exact mine ▸ exact_row_outranks exact_ (stages mine).2 below
      · exact better
  | replace found =>
    simp only [StageOk, stage] at stages
    simp only [StageKeeps, stage] at own
    have converged : Settled ctx rid (convergeSignerSet h found t.row) :=
      settled_improved settled (converged_improves sourced (fun mine => (own mine).2))
    exact settled_next converged held (fun mine => converged_stored (stages mine) (own mine).2)
  | settled =>
    simp only [StageOk, stage] at stages
    exact settled_finish_stored settled sourced held stages

/- A delivery puts the row at hand. -/
theorem settled_delivered (settled : Settled ctx rid h) {t : Task} (ok : StageOk ctx rid h.rows t) :
    Settled ctx rid { h with tasks := h.tasks ++ [some t], received := t.row :: h.received } := by
  have opened : slotAt (h.tasks ++ [some t]) h.tasks.length = some t := by
    simp [slotAt]
  constructor
  · rintro r ⟨handed, own⟩
    rcases List.mem_cons.mp handed with rfl | before
    · exact ⟨t.row, Or.inr ⟨own, _, t, opened, Or.inl rfl⟩, rfl, row_at_least_refl _⟩
    · obtain ⟨b, atHand, keyed, better⟩ := settled.represents r ⟨before, own⟩
      refine ⟨b, atHand.imp id ?_, keyed, better⟩
      rintro ⟨own', n, t', slot, mine⟩
      exact ⟨own', n, t', SlotHeap.slot_push_old slot, mine⟩
  · exact SlotHeap.every_push settled.stages ok

theorem settled_drained (settled : Settled ctx rid h) : Settled ctx rid (drainParked h) := by
  simp only [drainParked]
  split
  · exact settled
  · rename_i row rest entries
    have opened : slotAt (h.tasks ++ [some (ingestGossipRow h row true rest)]) h.tasks.length =
        some (ingestGossipRow h row true rest) := by
      simp [slotAt]
    constructor
    · refine represents_moved row_at_least_trans ?_ settled.represents
      rintro b (⟨own, stored | parked⟩ | ⟨own, n, t, slot, mine⟩)
      · exact ⟨b, Or.inl ⟨own, Or.inl stored⟩, rfl, row_at_least_refl b⟩
      · have drained : b ∈ row :: rest := by
          rw [← entries]
          exact List.mem_map.mpr ⟨_, OrderedMap.mem_of_get parked, rfl⟩
        exact ⟨b, Or.inr ⟨own, _, _, opened, List.mem_cons.mp drained⟩, rfl, row_at_least_refl b⟩
      · exact ⟨b, Or.inr ⟨own, n, t, SlotHeap.slot_push_old slot, mine⟩, rfl, row_at_least_refl b⟩
    · exact SlotHeap.every_push settled.stages (ingest_stage_ok h row true rest)

theorem settled_step (settled : Settled ctx rid h) (sourced : Sourced h) {e : Event}
    (keeps : Keeps ctx rid h e) : Settled ctx rid (step ctx h e) := by
  cases e with
  | handleResult row => exact settled_delivered settled (ingest_stage_ok h row false [])
  | handleFinalized row => exact settled_delivered settled (t := ⟨row, false, [], .insert⟩) (fun _ => trivial)
  | drainParked => exact settled_drained settled
  | resume n answer =>
    simp only [step]
    split
    · exact settled
    · rename_i t held
      simp only [Keeps, held] at keeps
      exact settled_resume settled sourced held keeps

end Representatives

section Main
variable {ctx : Context} {rid : String}

theorem kept_runs {es : List Event} (admitted : Admitted (step ctx) (Keeps ctx rid) emptyHub es) :
    Sourced (run (step ctx) emptyHub es) ∧ Settled ctx rid (run (step ctx) emptyHub es) :=
  run_invariant (fun h => Sourced h ∧ Settled ctx rid h)
    (fun _ e kept keeps => ⟨sourced_step kept.1 e, settled_step kept.2 kept.1 keeps⟩)
    ⟨sourced_empty, settled_empty⟩ admitted

/- A stored row of the request. -/
def Holds (rid : String) (h : Hub) (r : Row) : Prop := r.requestId = rid ∧ h.rows.get r.key = some r

/-- In a quiet mirror a stored row stands for each row received. -/
theorem quiet_represents {h : Hub} (quiet : Quiet rid h) (settled : Settled ctx rid h) :
    Represents Row.key (Row.AtLeast ctx rid) (Holds rid h) (HandedOver rid h) := by
  refine represents_moved row_at_least_trans ?_ settled.represents
  rintro b (⟨own, stored | parked⟩ | ⟨own, n, t, slot, mine⟩)
  · exact ⟨b, ⟨own, stored⟩, rfl, row_at_least_refl b⟩
  · rw [quiet.1] at parked
    exact absurd parked (by simp)
  · obtain ⟨apart, later⟩ := quiet.2 n t slot
    rcases mine with rfl | rest
    · exact absurd own apart
    · exact absurd own (later b rest)

theorem holds_stands {h : Hub} (sourced : Sourced h) {b : Row} (holds : Holds rid h b) :
    ∃ r, HandedOver rid h r ∧ r.key = b.key ∧ ∀ c : Row, c.AtLeast ctx rid r → c.AtLeast ctx rid b := by
  obtain ⟨-, -, r, received, keyed, signers⟩ := sourced.rows _ b holds.2
  refine ⟨r, ⟨received, (congrArg Prod.fst keyed).trans holds.1⟩, keyed, ?_⟩
  intro c better
  rw [Row.AtLeast, ← signers]
  exact better

theorem holds_unique {h : Hub} {a b : Row} (first : Holds rid h a) (second : Holds rid h b)
    (keyed : a.key = b.key) : a = b := by
  have found := first.2
  rw [keyed, second.2] at found
  exact (Option.some.inj found).symm

theorem holds_at {h : Hub} (sourced : Sourced h) {time : ℕ} {a : Row}
    (found : h.rows.get (rid, time) = some a) : a.key = (rid, time) ∧ Holds rid h a := by
  have keyed := (sourced.rows _ a found).1
  exact ⟨keyed.symm, (congrArg Prod.fst keyed).symm, keyed ▸ found⟩

/-- A key held by a mirror is held by one that was handed the same rows and is quiet. -/
theorem key_held_by_other {h h' : Hub} (sourced : Sourced h) (quiet' : Quiet rid h')
    (settled' : Settled ctx rid h') (same : ∀ r, HandedOver rid h r → HandedOver rid h' r) {time : ℕ}
    {a : Row} (found : h.rows.get (rid, time) = some a) : ∃ b, h'.rows.get (rid, time) = some b := by
  obtain ⟨keyed, holds⟩ := holds_at sourced found
  obtain ⟨r, handed, keyed', -⟩ := @holds_stands ctx rid h sourced a holds
  obtain ⟨b, holds', keyed'', -⟩ := quiet_represents quiet' settled' r (same r handed)
  refine ⟨b, ?_⟩
  rw [← keyed, ← keyed', ← keyed'']
  exact holds'.2

end Main

section Samples

/- Three validators in the order of their keys, and a request of redundancy 2 with one slot more. -/
def sampleContext : Context where
  request := fun _ => ⟨2, true, false, [⟨"a", none⟩, ⟨"b", none⟩, ⟨"c", none⟩], fun _ => 1⟩
  sha256 := fun text => text
  signed := fun _ s => s.sig = s.pubkey

def sampleRow (effectiveTime : ℕ) (signers : List String) : Row :=
  ⟨"q", effectiveTime, ⟨"http_get", "ok", "x", "x", "", none⟩, signers, signers.map (fun k => ⟨k, k⟩)⟩

/- The row of a and c is parked and comes first; the row of a and b then takes its place. -/
def lowerRankLast : List Event :=
  [.handleResult (sampleRow 7 ["a", "c"]), .resume 0 none, .resume 0 none, .drainParked,
    .resume 1 none, .resume 1 (some 100), .resume 1 (some 100), .resume 1 none, .resume 1 none,
    .handleResult (sampleRow 7 ["a", "b"]), .resume 2 none, .resume 2 (some 100),
    .resume 2 (some 100), .resume 2 (some 100), .resume 2 none, .resume 2 none]

/- The same rows the other way round, and the row of a and c stays out. -/
def lowerRankFirst : List Event :=
  [.handleResult (sampleRow 7 ["a", "b"]), .resume 0 none, .resume 0 (some 100),
    .resume 0 (some 100), .resume 0 none, .resume 0 none, .handleResult (sampleRow 7 ["a", "c"]),
    .resume 1 none, .resume 1 (some 100), .resume 1 (some 100), .resume 1 (some 100)]

theorem quiet_done {h : Hub} {rid : String} (parked : h.parked.get rid = none)
    (done : ∀ x ∈ h.tasks, x = none) : Quiet rid h :=
  ⟨parked, SlotHeap.every_done done⟩

theorem sample_runs :
    (Admitted (step sampleContext) (Keeps sampleContext "q") emptyHub lowerRankLast ∧
      Admitted (step sampleContext) (Keeps sampleContext "q") emptyHub lowerRankFirst) ∧
    ((run (step sampleContext) emptyHub lowerRankLast).parked.get "q" = none ∧
      ∀ x ∈ (run (step sampleContext) emptyHub lowerRankLast).tasks, x = none) ∧
    ((run (step sampleContext) emptyHub lowerRankFirst).parked.get "q" = none ∧
      ∀ x ∈ (run (step sampleContext) emptyHub lowerRankFirst).tasks, x = none) ∧
    (run (step sampleContext) emptyHub lowerRankLast).received =
      [sampleRow 7 ["a", "b"], sampleRow 7 ["a", "c"]] ∧
    (run (step sampleContext) emptyHub lowerRankFirst).received =
      [sampleRow 7 ["a", "c"], sampleRow 7 ["a", "b"]] ∧
    (run (step sampleContext) emptyHub lowerRankLast).rows.get ("q", 7) = some (sampleRow 7 ["a", "b"]) := by
  decide

/- Two variants of one request come while the indexer does not list it; the park set has room for
   one, and the retry stores that one. -/
def bothParked : List Event :=
  [.handleResult (sampleRow 7 ["a", "b"]), .resume 0 none, .resume 0 none,
    .handleResult (sampleRow 9 ["a", "b"]), .resume 1 none, .resume 1 none, .drainParked,
    .resume 2 none, .resume 2 (some 100), .resume 2 (some 100), .resume 2 none, .resume 2 none]

/- The same variants come once it is listed. -/
def neitherParked : List Event :=
  [.handleResult (sampleRow 7 ["a", "b"]), .resume 0 none, .resume 0 (some 100),
    .resume 0 (some 100), .resume 0 none, .resume 0 none, .handleResult (sampleRow 9 ["a", "b"]),
    .resume 1 none, .resume 1 (some 100), .resume 1 (some 100), .resume 1 none, .resume 1 none]

end Samples
end XChainHub.ResponseMirror
