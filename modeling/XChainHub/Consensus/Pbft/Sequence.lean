import XChainHub.Consensus.Pbft.Ratified

/-!
Applying a config and recording its sequence: checkCommitQuorum, persistAppliedRound,
loadSeq and saveSeq over the row that setConsensusState upserts. A process may end at any
point and the next one starts from the row it reads.
-/
namespace XChainHub.Pbft
open GuardedRuns

variable {Config : Type}

/- parseInt of String(seq), as a number; String writes the whole numbers below 10^21 out
   in full. -/
structure SeqText where
  reads : ℚ → ℚ
  plain : ∀ n : ℕ, n < 10 ^ 21 → reads n = n

/- One setConsensusState call. owner is the record whose apply awaits it, none once that
   process is gone; the statement may still run then. -/
structure Upsert where
  owner : Option ℕ
  seq : ℚ
  landed : Bool
  deriving DecidableEq

/- One hub over its database row: lastSeq is the number the row holds as text, upserts the
   statements issued, the newest first, and applied the sequences whose apply and saveSeq
   both completed, in any process. -/
structure Node (Config : Type) where
  hub : Hub Config
  lastSeq : Option ℚ
  upserts : List Upsert
  applied : List ℚ

inductive NodeEvent (Config : Type) where
  | engine (m : Env × Event Config)
  | upsert (index : ℕ)
  | restart

variable (cfg : Params Config) (text : SeqText)

/- The record whose apply or whose saveSeq an event completes well. -/
def completes (h : Hub Config) (e : Event Config) : Option (ℕ × Proposal Config) :=
  match e with
  | .configApplied pid true => (h.proposals[pid]?.filter (fun p => p.chain = .configInFlight)).map
      (fun p => (pid, p))
  | .seqSaved pid true => (h.proposals[pid]?.filter (fun p => p.chain = .seqInFlight)).map
      (fun p => (pid, p))
  | _ => none

/- The newest statement a record issued has run. -/
def answered (upserts : List Upsert) (pid : ℕ) : Bool :=
  (upserts.find? (fun u => u.owner = some pid)).any Upsert.landed

def Upsert.disown (u : Upsert) : Upsert := { u with owner := none }

/- loadSeq: no row reads as 0. -/
def loadSeq (lastSeq : Option ℚ) : ℚ := lastSeq.elim 0 text.reads

def Node.engine (n : Node Config) (m : Env × Event Config) : Node Config :=
  let stepped := { n with hub := step cfg n.hub m }
  match m.2, completes n.hub m.2 with
  | .configApplied pid _, some (_, p) =>
    { stepped with upserts := ⟨some pid, p.seq, false⟩ :: n.upserts }
  | .seqSaved pid _, some (_, p) =>
    if answered n.upserts pid then { stepped with applied := p.seq :: n.applied } else n
  | _, _ => stepped

def Node.upsert (n : Node Config) (index : ℕ) : Node Config :=
  match n.upserts[index]? with
  | none => n
  | some u =>
    if u.landed then n
    else { n with
      lastSeq := some u.seq
      upserts := n.upserts.set index { u with landed := true } }

def nodeStep (n : Node Config) : NodeEvent Config → Node Config
  | .engine m => n.engine cfg m
  | .upsert index => n.upsert index
  | .restart => { n with
      hub := Hub.started (loadSeq text n.lastSeq)
      upserts := n.upserts.map Upsert.disown }

def Node.started (lastSeq : Option ℚ) : Node Config :=
  ⟨Hub.started (loadSeq text lastSeq), lastSeq, [], []⟩

/- Every sequence is applied once, and the row is never behind one that was applied. -/
structure Node.InOrder (n : Node Config) : Prop where
  once : n.applied.Nodup
  recorded : ∀ s ∈ n.applied, ∃ v ∈ n.lastSeq, s ≤ v

/- A record under way or applied. -/
def Proposal.Busy (p : Proposal Config) : Prop := p.chain ≠ .idle ∨ p.applied = true

/- The step opens no record for a sequence that another one is applying or applied. -/
def OpensFresh (h : Hub Config) (m : Env × Event Config) : Prop :=
  ∀ p ∈ opens cfg h m, ∀ q ∈ h.proposals, q.seq = p.seq → ¬ q.Busy

/- The text of the row is a whole number that parseInt reads back. -/
def ReadsBack (v : ℚ) : Prop := v.den = 1 ∧ 0 ≤ v ∧ v < 10 ^ 21

def OrderKept (n : Node Config) : NodeEvent Config → Prop
  | .engine m => OpensFresh cfg n.hub m
  | .upsert index => ∀ u ∈ n.upserts[index]?, u.landed = false → ∀ v ∈ n.lastSeq, v ≤ u.seq
  | .restart => ∀ v ∈ n.lastSeq, ReadsBack v

/- What one process keeps: all it handles lies above the sequence it started from, an apply
   under way holds its record's flag, and no second record of a sequence can start one. -/
structure Orderly (floor : ℚ) (h : Hub Config) : Prop where
  last : floor ≤ h.lastAppliedSeq
  parked : ∀ tid t, h.task tid = some t → t.Admitted anyEnvelope floor
  above : ∀ p ∈ h.proposals, floor < p.seq
  flagged : ∀ p ∈ h.proposals, p.chain ≠ .idle → p.applying = true ∧ p.applied = false
  alone : ∀ i j p q, h.proposals[i]? = some p → h.proposals[j]? = some q → i ≠ j →
    p.seq = q.seq → p.Busy → ¬ q.Busy ∧ h.pendingProposals.lookup q.seq ≠ some j

theorem Task.Admitted.lower {seen : Envelope Config → Prop} {last floor : ℚ} {t : Task Config}
    (admitted : t.Admitted seen last) (below : floor ≤ last) : t.Admitted seen floor := by
  cases t with
  | prePrepare envelope seq view digest config height tipBound =>
    obtain ⟨among, proven, above, data⟩ := admitted
    exact ⟨among, proven, lt_of_le_of_lt below above, data⟩
  | propose config => trivial

section Acts
variable {cfg} {env : Env} {floor : ℚ} {h a b : Hub Config}

/-- A change of one record keeps the order if it starts no apply. -/
theorem Orderly.modify (orderly : Orderly floor h) (pid : ℕ)
    {f : Proposal Config → Proposal Config} (round : ∀ q : Proposal Config, q.SameRound (f q))
    (changed : ∀ q, h.proposals[pid]? = some q → ((f q).Busy → q.Busy) ∧
      ((f q).chain ≠ .idle → (f q).applying = true ∧ (f q).applied = false)) :
    Orderly floor (h.modify pid f) := by
  have before : ∀ (i : ℕ) (p : Proposal Config), (h.modify pid f).proposals[i]? = some p →
      ∃ q : Proposal Config, h.proposals[i]? = some q ∧ q.SameRound p ∧ (p.Busy → q.Busy) := by
    intro i p record
    rw [modify_record] at record
    obtain ⟨q, stored, rfl⟩ := Option.map_eq_some_iff.mp record
    refine ⟨q, stored, ?_⟩
    split
    · rename_i here
      subst here
      exact ⟨round q, (changed q stored).1⟩
    · exact ⟨same_round_refl q, id⟩
  refine ⟨orderly.last, orderly.parked, ?_, ?_, ?_⟩
  · intro p member
    obtain ⟨i, record⟩ := List.mem_iff_getElem?.mp member
    obtain ⟨q, stored, same, -⟩ := before i p record
    rw [same.seq]
    exact orderly.above q (List.mem_of_getElem? stored)
  · intro p member
    rcases modify_member member with old | ⟨q, stored, rfl⟩
    · exact orderly.flagged p old
    · exact (changed q stored).2
  · intro i j p q first second other slot busy
    obtain ⟨p', stored, same, busier⟩ := before i p first
    obtain ⟨q', kept, round', idler⟩ := before j q second
    have slots : p'.seq = q'.seq := by rw [← same.seq, ← round'.seq, slot]
    obtain ⟨idle, unmapped⟩ := orderly.alone i j p' q' stored kept other slots (busier busy)
    exact ⟨fun busy => idle (idler busy), by rw [round'.seq]; exact unmapped⟩

/-- An apply starts for the record in the map, and then its sequence has no other. -/
theorem Orderly.begin_apply (orderly : Orderly floor h) (ready : Ready anyEnvelope h) {seq : ℚ}
    {pid : ℕ} {p : Proposal Config} (held : h.pending seq = some (pid, p))
    (fresh : p.applied = false) : Orderly floor (h.modify pid Proposal.beginApply) := by
  obtain ⟨found, record⟩ := pending_eq_some.mp held
  have mapped : h.pendingProposals.lookup p.seq = some pid := by
    rw [ready.pending_seq held]
    exact found
  have others : ∀ j q, h.proposals[j]? = some q → j ≠ pid → q.seq = p.seq → ¬ q.Busy := by
    intro j q stored other slot busy
    exact (orderly.alone j pid q p stored record other slot busy).2 mapped
  have split : ∀ i q, (h.modify pid Proposal.beginApply).proposals[i]? = some q →
      (i = pid ∧ q = p.beginApply) ∨ (i ≠ pid ∧ h.proposals[i]? = some q) := by
    intro i q stored
    rw [modify_record] at stored
    obtain ⟨old, kept, rfl⟩ := Option.map_eq_some_iff.mp stored
    by_cases here : pid = i
    · subst here
      rw [record, Option.some.injEq] at kept
      subst kept
      exact Or.inl ⟨rfl, by simp⟩
    · rw [if_neg here]
      exact Or.inr ⟨Ne.symm here, kept⟩
  refine ⟨orderly.last, orderly.parked, ?_, ?_, ?_⟩
  · intro q member
    rcases modify_member member with old | ⟨q, stored, rfl⟩
    · exact orderly.above q old
    · exact orderly.above q (List.mem_of_getElem? stored)
  · intro q member
    rcases modify_member member with old | ⟨q, stored, rfl⟩
    · exact orderly.flagged q old
    · rw [record, Option.some.injEq] at stored
      subst stored
      exact fun _ => ⟨rfl, fresh⟩
  · intro i j q r first second other slot busy
    rcases split i q first with ⟨rfl, rfl⟩ | ⟨away, old⟩
    · rcases split j r second with ⟨rfl, rfl⟩ | ⟨away, kept⟩
      · exact absurd rfl other
      · refine ⟨others j r kept away slot.symm, ?_⟩
        rw [← slot]
        exact fun same => away (Option.some.inj (same.symm.trans mapped))
    · rcases split j r second with ⟨rfl, rfl⟩ | ⟨far, kept⟩
      · exact absurd busy (others i q old away slot)
      · exact orderly.alone i j q r old kept other slot busy

theorem act_orderly (ready : Ready anyEnvelope a) (act : Act cfg env anyEnvelope a b)
    (orderly : Orderly floor a) : Orderly floor b := by
  cases act with
  | quiet heap map said parked last votes =>
    refine ⟨by rw [last]; exact orderly.last, ?_, by rw [heap]; exact orderly.above,
      by rw [heap]; exact orderly.flagged, by rw [heap, map]; exact orderly.alone⟩
    intro tid t held
    exact orderly.parked tid t (by rwa [Hub.task, parked] at held)
  | park admitted =>
    refine ⟨orderly.last, fun tid t held => ?_, orderly.above, orderly.flagged, orderly.alone⟩
    rcases park_task held with old | rfl
    · exact orderly.parked tid t old
    · exact admitted.lower orderly.last
  | finish tid =>
    exact ⟨orderly.last, fun other t held => orderly.parked other t (finish_task held),
      orderly.above, orderly.flagged, orderly.alone⟩
  | forget seq =>
    refine ⟨orderly.last, orderly.parked, orderly.above, orderly.flagged, ?_⟩
    intro i j p q first second other slot busy
    obtain ⟨idle, unmapped⟩ := orderly.alone i j p q first second other slot busy
    refine ⟨idle, fun found => ?_⟩
    by_cases same : q.seq = seq
    · subst same
      exact absurd (found.symm.trans (AList.lookup_erase q.seq a.pendingProposals)) (by simp)
    · simp only [Hub.forget, AList.lookup_erase_ne same] at found
      exact unmapped found
  | mark pid marks =>
    refine orderly.modify _ marks.same (fun q stored => ⟨?_, fun busy => ?_⟩)
    · rintro (running | done)
      · exact Or.inl (by rw [← (marks.busy q running).1]; exact running)
      · exact Or.inr (by rw [← (marks.votes q).applied]; exact done)
    · obtain ⟨chain, applying⟩ := marks.busy q busy
      rw [applying, (marks.votes q).applied]
      exact orderly.flagged q (List.mem_of_getElem? stored) (by rw [← chain]; exact busy)
  | say silent =>
    exact ⟨orderly.last, orderly.parked, orderly.above, orderly.flagged, orderly.alone⟩
  | sign held kind =>
    exact ⟨orderly.last, orderly.parked, orderly.above, orderly.flagged, orderly.alone⟩
  | sendCommit held fresh met =>
    rename_i seq pid p
    have moved := orderly.modify pid (f := Proposal.sendCommit cfg)
      (fun _ => ⟨rfl, rfl, rfl, rfl, rfl, rfl, rfl, rfl⟩)
      (fun q stored => ⟨id, orderly.flagged q (List.mem_of_getElem? stored)⟩)
    exact ⟨moved.last, moved.parked, moved.above, moved.flagged, moved.alone⟩
  | countPrepare held round counts =>
    rename_i seq pid p f
    obtain ⟨-, record⟩ := pending_eq_some.mp held
    refine orderly.modify _ round (fun q stored => ?_)
    rw [record, Option.some.injEq] at stored
    subst stored
    rw [Proposal.Busy, counts.chain, counts.applied, counts.applying]
    exact ⟨id, orderly.flagged p (List.mem_of_getElem? record)⟩
  | countCommit held vote known data =>
    exact orderly.modify _ (fun _ => ⟨rfl, rfl, rfl, rfl, rfl, rfl, rfl, rfl⟩)
      (fun q stored => ⟨id, orderly.flagged q (List.mem_of_getElem? stored)⟩)
  | startApply held fresh met nonempty => exact orderly.begin_apply ready held fresh.1
  | finishConfig held running =>
    rename_i pid p
    have tagged := orderly.flagged p (List.mem_of_getElem? held) (by rw [running]; simp)
    have moved := orderly.modify pid (f := Proposal.awaitSeq)
      (fun _ => ⟨rfl, rfl, rfl, rfl, rfl, rfl, rfl, rfl⟩) (fun q stored => by
        rw [held, Option.some.injEq] at stored
        subst stored
        exact ⟨fun _ => Or.inl (by rw [running]; simp), fun _ => tagged⟩)
    exact ⟨moved.last, moved.parked, moved.above, moved.flagged, moved.alone⟩
  | finishSeq held running =>
    rename_i pid p
    have moved := orderly.modify pid (f := Proposal.markApplied)
      (fun _ => ⟨rfl, rfl, rfl, rfl, rfl, rfl, rfl, rfl⟩) (fun q stored => by
        rw [held, Option.some.injEq] at stored
        subst stored
        exact ⟨fun _ => Or.inl (by rw [running]; simp), fun busy => absurd rfl busy⟩)
    exact ⟨le_max_of_le_right orderly.last, moved.parked, moved.above, moved.flagged,
      moved.alone⟩

/-- Records keep their place, their round and their applied mark. -/
theorem act_record (act : Act cfg env anyEnvelope a b) {pid : ℕ} {p : Proposal Config}
    (record : a.proposals[pid]? = some p) : ∃ q, b.proposals[pid]? = some q ∧ q.seq = p.seq ∧
      (p.applied = true → q.applied = true) := by
  have modified : ∀ (other : ℕ) (f : Proposal Config → Proposal Config),
      (∀ q, a.proposals[other]? = some q → (f q).seq = q.seq ∧
        (q.applied = true → (f q).applied = true)) →
      ∃ q, (a.modify other f).proposals[pid]? = some q ∧ q.seq = p.seq ∧
        (p.applied = true → q.applied = true) := by
    intro other f keeps
    rw [modify_record, record]
    by_cases here : other = pid
    · subst here
      exact ⟨f p, by simp, keeps p record⟩
    · exact ⟨p, by simp [here], rfl, id⟩
  cases act with
  | quiet heap map said parked last votes => exact ⟨p, by rw [heap, record], rfl, id⟩
  | park admitted => exact ⟨p, record, rfl, id⟩
  | finish tid => exact ⟨p, record, rfl, id⟩
  | forget seq => exact ⟨p, record, rfl, id⟩
  | mark other marks =>
    exact modified other _ (fun q _ => ⟨(marks.same q).seq, by rw [(marks.votes q).applied]; exact id⟩)
  | say silent => exact ⟨p, record, rfl, id⟩
  | sign held kind => exact ⟨p, record, rfl, id⟩
  | sendCommit held fresh met => exact modified _ (Proposal.sendCommit cfg) (fun q _ => ⟨rfl, id⟩)
  | countPrepare held round counts =>
    refine modified _ _ (fun q stored => ⟨(round q).seq, ?_⟩)
    rw [(pending_eq_some.mp held).2, Option.some.injEq] at stored
    rw [← stored, counts.applied]
    exact id
  | countCommit held vote known data =>
    exact modified _ (Proposal.countCommit cfg env _) (fun q _ => ⟨rfl, id⟩)
  | startApply held fresh met nonempty =>
    exact modified _ Proposal.beginApply (fun q _ => ⟨rfl, id⟩)
  | finishConfig held running => exact modified _ Proposal.awaitSeq (fun q _ => ⟨rfl, id⟩)
  | finishSeq held running => exact modified _ Proposal.markApplied (fun q _ => ⟨rfl, fun _ => rfl⟩)

end Acts
section Steps
variable {cfg} {floor : ℚ} {h : Hub Config} {m : Env × Event Config}

theorem opens_above {p : Proposal Config} (orderly : Orderly floor h)
    (record : opens cfg h m = some p) : floor < p.seq := by
  obtain ⟨tid, tip, reply, -, ⟨_, _, _, _, _, _, _, found, follows⟩ | ⟨_, found, outcome⟩⟩ :=
    opens_cases record
  · rw [(follower_record_fields follows).1]
    exact (orderly.parked tid _ found).2.2.1
  · obtain ⟨weighted, height, rfl, -⟩ := propose_round outcome
    have slot := le_max_right h.seq h.lastAppliedSeq
    change floor < max h.seq h.lastAppliedSeq + 1
    have last := orderly.last
    linarith

theorem Orderly.opened (orderly : Orderly floor h)
    (fresh : OpensFresh cfg h m) : Orderly floor (h.opened (opens cfg h m)) := by
  cases record : opens cfg h m with
  | none => exact orderly
  | some p =>
    have idle : ¬ p.Busy := by
      have new := opens_opened record
      simp [Proposal.Busy, new.chain, new.applied]
    have split : ∀ i q, (h.openRecord p).proposals[i]? = some q →
        h.proposals[i]? = some q ∨ (i = h.proposals.length ∧ q = p) := by
      intro i q stored
      simp only [Hub.openRecord, List.getElem?_append] at stored
      split at stored
      · exact Or.inl stored
      · rename_i beyond
        rw [List.getElem?_singleton] at stored
        split at stored
        · exact Or.inr ⟨by omega, by simpa using stored.symm⟩
        · simp at stored
    refine ⟨orderly.last, orderly.parked, ?_, ?_, ?_⟩
    · intro q member
      rcases List.mem_append.mp member with old | new
      · exact orderly.above q old
      · rw [List.mem_singleton.mp new]
        exact opens_above orderly record
    · intro q member
      rcases List.mem_append.mp member with old | new
      · exact orderly.flagged q old
      · rw [List.mem_singleton.mp new, (opens_opened record).chain]
        exact fun busy => absurd rfl busy
    · intro i j q r first second other slot busy
      rcases split i q first with old | ⟨rfl, rfl⟩
      · rcases split j r second with kept | ⟨rfl, rfl⟩
        · obtain ⟨free, unmapped⟩ := orderly.alone i j q r old kept other slot busy
          refine ⟨free, ?_⟩
          by_cases same : r.seq = p.seq
          · rw [same]
            simp only [Hub.opened, Hub.openRecord, AList.lookup_insert, ne_eq, Option.some.injEq]
            have short := (List.getElem?_eq_some_iff.mp kept).1
            omega
          · simp only [Hub.opened, Hub.openRecord, AList.lookup_insert_ne same]
            exact unmapped
        · exact absurd busy (fresh r record q (List.mem_of_getElem? old) slot)
      · exact absurd busy idle

theorem step_orderly (ready : Ready anyEnvelope h) (orderly : Orderly floor h)
    (fresh : OpensFresh cfg h m) : Orderly floor (step cfg h m) :=
  step_keeps (Orderly floor) (fun _ _ _ ready act inv => act_orderly ready act inv) ready
    delivered_any (orderly.opened fresh)

theorem step_record (cfg : Params Config) (m : Env × Event Config) (ready : Ready anyEnvelope h) {pid : ℕ} {p : Proposal Config}
    (record : h.proposals[pid]? = some p) : ∃ q, (step cfg h m).proposals[pid]? = some q ∧
      q.seq = p.seq ∧ (p.applied = true → q.applied = true) := by
  refine step_keeps (fun g => ∃ q, g.proposals[pid]? = some q ∧ q.seq = p.seq ∧
    (p.applied = true → q.applied = true)) ?_ ready delivered_any ?_
  · rintro env a b - act ⟨q, stored, slot, kept⟩
    obtain ⟨r, after, same, applied⟩ := act_record act stored
    exact ⟨r, after, same.trans slot, fun done => applied (kept done)⟩
  · cases opens cfg h m with
    | none => exact ⟨p, record, rfl, id⟩
    | some new =>
      refine ⟨p, ?_, rfl, id⟩
      simp only [Hub.opened, Hub.openRecord]
      rw [List.getElem?_append_left (List.getElem?_eq_some_iff.mp record).1]
      exact record

/-- A saved sequence marks its record as applied. -/
theorem saved_applied (cfg : Params Config) (env : Env) {pid : ℕ} {p : Proposal Config}
    (record : h.proposals[pid]? = some p) (running : p.chain = .seqInFlight) :
    ∃ q, (step cfg h (env, .seqSaved pid true)).proposals[pid]? = some q ∧ q.seq = p.seq ∧
      q.applied = true := by
  simp only [step, seqSaved, record, running, ne_eq, not_true_eq_false, if_false, if_true,
    persistAppliedRound]
  split
  · refine ⟨p.markApplied.resolve, ?_, rfl, rfl⟩
    simp [Hub.forget, Hub.emit, Hub.modify, record]
  · refine ⟨p.markApplied, ?_, rfl, rfl⟩
    simp [Hub.forget, Hub.modify, record]

end Steps
section Nodes
variable {cfg text} {floor : ℚ} {n : Node Config}

/- The process started from floor: what was applied lies at or below it, or is marked on a
   record, and a statement that ran left the row at its sequence or above. -/
structure Kept (floor : ℚ) (n : Node Config) : Prop where
  ready : Ready anyEnvelope n.hub
  orderly : Orderly floor n.hub
  order : n.InOrder
  marked : ∀ s ∈ n.applied, s ≤ floor ∨ ∃ p ∈ n.hub.proposals, p.seq = s ∧ p.applied = true
  landed : ∀ u ∈ n.upserts, u.landed = true → ∃ v ∈ n.lastSeq, u.seq ≤ v
  owned : ∀ u ∈ n.upserts, ∀ pid, u.owner = some pid →
    ∃ p, n.hub.proposals[pid]? = some p ∧ p.seq = u.seq

theorem completes_config {h : Hub Config} {e : Event Config} {pid : ℕ} {ok : Bool}
    {found : ℕ × Proposal Config} (event : e = .configApplied pid ok)
    (done : completes h e = some found) :
    found.1 = pid ∧ h.proposals[pid]? = some found.2 := by
  subst event
  cases ok with
  | false => simp [completes] at done
  | true =>
    obtain ⟨p, kept, rfl⟩ := Option.map_eq_some_iff.mp done
    exact ⟨rfl, (Option.filter_eq_some_iff.mp kept).1⟩

theorem completes_seq {h : Hub Config} {e : Event Config} {pid : ℕ} {ok : Bool}
    {found : ℕ × Proposal Config} (event : e = .seqSaved pid ok)
    (done : completes h e = some found) : ok = true ∧ found.1 = pid ∧
      h.proposals[pid]? = some found.2 ∧ found.2.chain = .seqInFlight := by
  subst event
  cases ok with
  | false => simp [completes] at done
  | true =>
    obtain ⟨p, kept, rfl⟩ := Option.map_eq_some_iff.mp done
    obtain ⟨record, running⟩ := Option.filter_eq_some_iff.mp kept
    exact ⟨rfl, rfl, record, by simpa using running⟩

/-- What an engine event does to a node: the hub steps, and it may issue a statement or
    complete an apply. -/
theorem engine_cases (cfg : Params Config) (n : Node Config) (m : Env × Event Config) :
    n.engine cfg m = { n with hub := step cfg n.hub m } ∨
    (∃ pid p, n.hub.proposals[pid]? = some p ∧ n.engine cfg m =
      { n with hub := step cfg n.hub m, upserts := ⟨some pid, p.seq, false⟩ :: n.upserts }) ∨
    (∃ pid p, m.2 = .seqSaved pid true ∧ n.hub.proposals[pid]? = some p ∧
      p.chain = .seqInFlight ∧ answered n.upserts pid = true ∧ n.engine cfg m =
        { n with hub := step cfg n.hub m, applied := p.seq :: n.applied }) ∨
    n.engine cfg m = n := by
  simp only [Node.engine]
  split
  · rename_i pid ok found other event done
    obtain ⟨rfl, record⟩ := completes_config event done
    exact Or.inr (Or.inl ⟨_, _, record, rfl⟩)
  · rename_i pid ok found other event done
    obtain ⟨rfl, rfl, record, running⟩ := completes_seq event done
    split
    · rename_i ran
      exact Or.inr (Or.inr (Or.inl ⟨_, _, event, record, running, ran, rfl⟩))
    · exact Or.inr (Or.inr (Or.inr rfl))
  · exact Or.inl rfl

/-- The step lemma of the hub alone: a step of a fresh record keeps what a process keeps. -/
theorem Kept.hub_step (kept : Kept floor n) {m : Env × Event Config}
    (fresh : OpensFresh cfg n.hub m) : Kept floor { n with hub := step cfg n.hub m } := by
  refine ⟨step_ready kept.ready delivered_any, step_orderly kept.ready kept.orderly fresh,
    ⟨kept.order.once, kept.order.recorded⟩, ?_, kept.landed, ?_⟩
  · intro s member
    rcases kept.marked s member with old | ⟨p, among, slot, done⟩
    · exact Or.inl old
    · obtain ⟨pid, record⟩ := List.mem_iff_getElem?.mp among
      obtain ⟨q, stored, same, applied⟩ := step_record cfg m kept.ready record
      exact Or.inr ⟨q, List.mem_of_getElem? stored, same.trans slot, applied done⟩
  · intro u member pid owner
    obtain ⟨p, record, slot⟩ := kept.owned u member pid owner
    obtain ⟨q, stored, same, -⟩ := step_record cfg m kept.ready record
    exact ⟨q, stored, same.trans slot⟩

/-- A record that completes its apply is the first of its sequence to do so. -/
theorem Kept.not_applied (kept : Kept floor n) {pid : ℕ} {p : Proposal Config}
    (record : n.hub.proposals[pid]? = some p) (running : p.chain = .seqInFlight) :
    p.seq ∉ n.applied := by
  have busy : p.Busy := Or.inl (by rw [running]; simp)
  intro member
  rcases kept.marked p.seq member with low | ⟨q, among, slot, done⟩
  · exact absurd (kept.orderly.above p (List.mem_of_getElem? record)) (not_lt.mpr low)
  · obtain ⟨other, stored⟩ := List.mem_iff_getElem?.mp among
    by_cases same : pid = other
    · subst same
      rw [record, Option.some.injEq] at stored
      subst stored
      have idle := (kept.orderly.flagged p among (by rw [running]; simp)).2
      rw [done] at idle
      exact absurd idle (by simp)
    · exact (kept.orderly.alone pid other p q record stored same slot.symm busy).1 (Or.inr done)

/-- Its statement ran, so the row is at its sequence or above. -/
theorem Kept.answered_row (kept : Kept floor n) {pid : ℕ} {p : Proposal Config}
    (record : n.hub.proposals[pid]? = some p) (ran : answered n.upserts pid = true) :
    ∃ v ∈ n.lastSeq, p.seq ≤ v := by
  simp only [answered, Option.any_eq_true] at ran
  obtain ⟨u, found, landed⟩ := ran
  have member := List.mem_of_find?_eq_some found
  have owner := List.find?_some found
  obtain ⟨q, stored, slot⟩ := kept.owned u member pid (by simpa using owner)
  rw [record, Option.some.injEq] at stored
  subst stored
  rw [slot]
  exact kept.landed u member landed

theorem Kept.engine (kept : Kept floor n) {m : Env × Event Config}
    (fresh : OpensFresh cfg n.hub m) : Kept floor (n.engine cfg m) := by
  have stepped := kept.hub_step fresh
  rcases engine_cases cfg n m with
    same | ⟨pid, p, record, same⟩ | ⟨pid, p, event, record, running, ran, same⟩ | same
  · rw [same]
    exact stepped
  · rw [same]
    refine { stepped with order := ⟨stepped.order.once, stepped.order.recorded⟩, landed := ?_, owned := ?_ }
    · intro u member landed
      rcases List.mem_cons.mp member with rfl | old
      · exact absurd landed (by simp)
      · exact stepped.landed u old landed
    · intro u member owner own
      rcases List.mem_cons.mp member with rfl | old
      · obtain ⟨q, stored, slot, -⟩ := step_record cfg m kept.ready record
        rw [Option.some.injEq] at own
        subst own
        exact ⟨q, stored, slot⟩
      · exact stepped.owned u old owner own
  · rw [same]
    have applied : ∃ q ∈ (step cfg n.hub m).proposals, q.seq = p.seq ∧ q.applied = true := by
      obtain ⟨env, e⟩ := m
      subst event
      obtain ⟨q, stored, slot, done⟩ := saved_applied cfg env record running
      exact ⟨q, List.mem_of_getElem? stored, slot, done⟩
    refine ⟨stepped.ready, stepped.orderly, ⟨?_, ?_⟩, ?_, stepped.landed, stepped.owned⟩
    · exact List.nodup_cons.mpr ⟨kept.not_applied record running, kept.order.once⟩
    · intro s member
      rcases List.mem_cons.mp member with rfl | old
      · exact kept.answered_row record ran
      · exact kept.order.recorded s old
    · intro s member
      rcases List.mem_cons.mp member with rfl | old
      · exact Or.inr applied
      · exact stepped.marked s old
  · rw [same]
    exact kept

theorem Kept.upsert (kept : Kept floor n) {index : ℕ}
    (raises : ∀ u ∈ n.upserts[index]?, u.landed = false → ∀ v ∈ n.lastSeq, v ≤ u.seq) :
    Kept floor (n.upsert index) := by
  simp only [Node.upsert]
  split
  · exact kept
  · rename_i u found
    split
    · exact kept
    · rename_i waiting
      have grown : ∀ s, (∃ v ∈ n.lastSeq, s ≤ v) → s ≤ u.seq := by
        rintro s ⟨v, row, below⟩
        exact below.trans (raises u found (by simpa using waiting) v row)
      refine ⟨kept.ready, kept.orderly, ⟨kept.order.once, fun s member => ?_⟩, kept.marked, ?_, ?_⟩
      · exact ⟨u.seq, rfl, grown s (kept.order.recorded s member)⟩
      · intro w member landed
        refine ⟨u.seq, rfl, ?_⟩
        rcases List.mem_or_eq_of_mem_set member with old | rfl
        · exact grown w.seq (kept.landed w old landed)
        · exact le_refl _
      · intro w member pid owner
        rcases List.mem_or_eq_of_mem_set member with old | rfl
        · exact kept.owned w old pid owner
        · exact kept.owned u (List.mem_of_getElem? found) pid owner

theorem reads_back {v : ℚ} (plain : ReadsBack v) : text.reads v = v := by
  obtain ⟨whole, sign, small⟩ := plain
  have shape : ((v.num.toNat : ℕ) : ℚ) = v := by
    have nonneg : 0 ≤ v.num := Rat.num_nonneg.mpr sign
    have cast : ((v.num.toNat : ℤ) : ℚ) = v := by
      rw [Int.toNat_of_nonneg nonneg]
      exact Rat.coe_int_num_of_den_eq_one whole
    exact_mod_cast cast
  have bound : v.num.toNat < 10 ^ 21 := by
    rw [← shape] at small
    exact_mod_cast small
  rw [← shape]
  exact text.plain _ bound

theorem started_orderly (seq : ℚ) : Orderly seq (Hub.started seq : Hub Config) := by
  refine ⟨le_refl _, ?_, ?_, ?_, ?_⟩
  · intro tid t held
    exact absurd held (by simp [Hub.started, Hub.task])
  · intro p member
    exact absurd member (by simp [Hub.started])
  · intro p member
    exact absurd member (by simp [Hub.started])
  · intro i j p q first
    exact absurd first (by simp [Hub.started])

/-- The next process starts from a row that no applied sequence exceeds. -/
theorem Kept.restart (kept : Kept floor n) (plain : ∀ v ∈ n.lastSeq, ReadsBack v) :
    Kept (loadSeq text n.lastSeq) (nodeStep cfg text n .restart) := by
  refine ⟨started_ready _, started_orderly _, ⟨kept.order.once, kept.order.recorded⟩, ?_, ?_, ?_⟩
  · intro s member
    obtain ⟨v, row, below⟩ := kept.order.recorded s member
    have row : n.lastSeq = some v := row
    left
    rw [row, loadSeq, Option.elim_some, reads_back (plain v row)]
    exact below
  · intro u member landed
    obtain ⟨old, among, rfl⟩ := List.mem_map.mp member
    exact kept.landed old among landed
  · intro u member pid owner
    obtain ⟨old, among, rfl⟩ := List.mem_map.mp member
    exact absurd owner (by simp [Upsert.disown])

theorem node_step_kept (kept : ∃ floor, Kept floor n) {e : NodeEvent Config}
    (guard : OrderKept cfg n e) : ∃ floor, Kept floor (nodeStep cfg text n e) := by
  obtain ⟨floor, kept⟩ := kept
  cases e with
  | engine m => exact ⟨floor, kept.engine guard⟩
  | upsert index => exact ⟨floor, kept.upsert guard⟩
  | restart => exact ⟨_, kept.restart guard⟩

theorem started_kept (lastSeq : Option ℚ) :
    Kept (loadSeq text lastSeq) (Node.started text lastSeq : Node Config) := by
  refine ⟨started_ready _, started_orderly _, ⟨List.nodup_nil, ?_⟩, ?_, ?_, ?_⟩
  · exact fun s member => absurd member (by simp [Node.started])
  · exact fun s member => absurd member (by simp [Node.started])
  · exact fun u member => absurd member (by simp [Node.started])
  · exact fun u member => absurd member (by simp [Node.started])

end Nodes

section Decide
variable (n : Node Config)

instance (p : Proposal Config) : Decidable p.Busy := inferInstanceAs (Decidable (_ ∨ _))

instance (h : Hub Config) (m : Env × Event Config) : Decidable (OpensFresh cfg h m) :=
  inferInstanceAs (Decidable (∀ p ∈ opens cfg h m, ∀ q ∈ h.proposals, q.seq = p.seq → ¬ q.Busy))

instance (v : ℚ) : Decidable (ReadsBack v) := inferInstanceAs (Decidable (_ ∧ _ ∧ _))

instance : (e : NodeEvent Config) → Decidable (OrderKept cfg n e)
  | .engine m => inferInstanceAs (Decidable (OpensFresh cfg n.hub m))
  | .upsert index => inferInstanceAs (Decidable (∀ u ∈ n.upserts[index]?, _ → ∀ v ∈ n.lastSeq, _))
  | .restart => inferInstanceAs (Decidable (∀ v ∈ n.lastSeq, ReadsBack v))

end Decide
section Samples

def wholeText : SeqText := ⟨fun q => ⌊q⌋, fun n _ => by simp⟩

def h0Params : Params String := countParams "h0" "k0"

def engineEvent (event : Event String) : NodeEvent String := .engine (fourHubs, event)

def proposed (leader : String × String) (config : String) (seq : ℚ) : NodeEvent String :=
  engineEvent (.deliver (prePrepareFrom leader.1 leader.2 config seq 0))

def lockedRound (tid : ℕ) : NodeEvent String := engineEvent (.locked tid (some 100) fourLock)

/- The leader and a third member vote for the open round, and its apply completes. -/
def applyVotes (leader third : String × String) (config : String) (seq : ℚ) (pid : ℕ) :
    List (NodeEvent String) :=
  [engineEvent (voteFrom third.1 third.2 (.prepare (some seq) (some config))),
   engineEvent (voteFrom leader.1 leader.2 (.commit (some seq) (some config))),
   engineEvent (voteFrom third.1 third.2 (.commit (some seq) (some config))),
   engineEvent (.configApplied pid true), .upsert 0, engineEvent (.seqSaved pid true)]

def k1 : String × String := ("h1", "k1")
def k2 : String × String := ("h2", "k2")

/- Two rounds are open and the later one is applied first. -/
def laterFirst : List (NodeEvent String) :=
  [proposed k1 "A" 1, lockedRound 0, proposed k2 "B" 2, lockedRound 1] ++
    applyVotes k2 k1 "B" 2 1 ++ applyVotes k1 k2 "A" 1 0

def proposedAgain : List (NodeEvent String) :=
  [.restart, proposed k2 "B" 2, lockedRound 0] ++ applyVotes k2 k1 "B" 2 0

/- A PRE_PREPARE is parked at its lock while another one's round is applied. -/
def lateLock : List (NodeEvent String) :=
  [proposed k1 "A" 1, proposed k1 "A" 1, lockedRound 0] ++ applyVotes k1 k2 "A" 1 0 ++
    [lockedRound 1] ++ applyVotes k1 k2 "A" 1 1

def inTurn : List (NodeEvent String) :=
  [proposed k1 "A" 1, lockedRound 0] ++ applyVotes k1 k2 "A" 1 0 ++
    [.restart, proposed k2 "B" 2, lockedRound 0] ++ applyVotes k2 k1 "B" 2 0

end Samples
end XChainHub.Pbft
