import XChainHub.Library.GuardedRuns
import XChainHub.Library.SlotHeap
import XChainHub.Attestation.Publisher.Publish

/-!
When a response is paid for at most once. A publication that is under way keeps its
intent on the marker row; one that was paid for is named by the row, or its intent is
still there and nothing passes the gate over it.
-/
namespace XChainHub.Attestation.Publisher
open PaidLog GuardedRuns SlotHeap IdempotentBroadcast

section Conditions
variable (h : Hub)

/- durableSendGate asked and answered in one turn. -/
def gateNow (rid : String) (st : Status) : Verdict :=
  if isQuarantined h rid st then .sent else markerVerdict (h.table.get rid) rid st

def othersPast (n : ℕ) (f : Flight) : Bool :=
  (List.range h.flights.length).any (fun m =>
    m ≠ n && (flightAt h m).any (fun g => g.stage.past && g.pair = f.pair))

def Hydration.done : Hydration → Bool
  | .loaded => true
  | _ => false

/- The reply lets the handler past its gate. -/
def passes (f : Flight) (reserved : Bool) : Bool :=
  match f.stage with
  | .gate row => reserved && markerVerdict row f.rid f.status = .send
  | _ => false

/- No other handler of the pair is past its gate, the gate would still answer so, the markers
   an earlier process armed have been read, and retention has not removed the marker. -/
def MayPass (n : ℕ) (f : Flight) : Prop :=
  othersPast h n f = false ∧ gateNow h f.rid f.status = .send ∧
    (h.hydration.done = true ∨ intentAt h.table f.rid ≠ some f.status) ∧ f.rid ∉ h.pruned

/- An intent is armed over no other status's, and no armed row is deleted. -/
def Guarded : Event → Prop
  | .statement n => ∀ f ∈ flightAt h n,
    (f.stage = .arming → ∀ s ∈ intentAt h.table f.rid, s = f.status) ∧
    (f.stage = .deleting → NothingArmed h.table f.rid)
  | .reply n reserved _ => ∀ f ∈ flightAt h n, passes f reserved = true → MayPass h n f
  | _ => True

instance (n : ℕ) (f : Flight) : Decidable (MayPass h n f) := by
  unfold MayPass
  infer_instance

instance : (ev : Event) → Decidable (Guarded h ev)
  | .statement n => inferInstanceAs (Decidable (∀ f ∈ flightAt h n,
      (f.stage = .arming → ∀ s ∈ intentAt h.table f.rid, s = f.status) ∧
      (f.stage = .deleting → NothingArmed h.table f.rid)))
  | .reply n reserved _ => inferInstanceAs (Decidable (∀ f ∈ flightAt h n,
      passes f reserved = true → MayPass h n f))
  | .finalized .. | .tick _ | .pendingIds .. | .broadcast .. | .prune _ | .hydrateRead
  | .hydrate | .restart => isTrue trivial

end Conditions

section Slots
variable {flights : List (Option Flight)} {n : ℕ} {f : Flight}

theorem slot_mem_occupied (held : slotAt flights n = some f) : f ∈ occupied flights :=
  mem_occupied held

theorem slot_of_occupied (member : f ∈ occupied flights) : ∃ n, slotAt flights n = some f := by
  obtain ⟨slot, inside, same⟩ := List.mem_filterMap.mp member
  obtain ⟨n, below, at'⟩ := List.getElem_of_mem inside
  refine ⟨n, ?_⟩
  rw [slotAt, List.getElem?_eq_getElem below, at', Option.join_some]
  exact same

end Slots

section Invariant

/- The stages of a send that has not been invoked, or was refused. -/
def Stage.unpaid : Stage → Bool
  | .arming | .armed | .disarming | .disarmed | .deleting | .deleted => true
  | _ => false

/- The stages whose row carries the intent. -/
def Stage.carries : Stage → Bool
  | .armed | .sending | .marking => true
  | _ => false

/- Hydration will still quarantine an intent armed by an earlier process. -/
def Hydration.Awaits (rid : String) (st : Status) : Hydration → Prop
  | .unread => True
  | .rows seen => intentAt seen rid = some st
  | .loaded => False

section Ledgers
variable (table : Table) (quarantined : OrderedSet String) (hydration : Hydration)
  (pruned : List String) (flights : List (Option Flight)) (log : List (Mark (String × Status)))

def Unsettled (rid : String) (st : Status) : Prop :=
  publicationKey rid st ∈ quarantined ∨ hydration.Awaits rid st ∨
    ∃ n f, slotAt flights n = some f ∧ f.pair = (rid, st) ∧ f.stage = .marking

def Recorded (rid : String) (st : Status) : Prop :=
  Sent table rid st ∨ rid ∈ pruned ∨
    intentAt table rid = some st ∧ Unsettled quarantined hydration flights rid st

structure Ledger : Prop where
  once : PaidOnce log
  single : ∀ n m f g, slotAt flights n = some f → slotAt flights m = some g →
    f.stage.past = true → g.stage.past = true → f.pair = g.pair → n = m
  idle : ∀ n f, slotAt flights n = some f → f.stage.unpaid = true → status log f.pair = .idle
  underway : ∀ pair, status log pair = .running →
    ∃ n f, slotAt flights n = some f ∧ f.pair = pair ∧ f.stage = .sending
  armed : ∀ n f, slotAt flights n = some f → f.stage.carries = true →
    intentAt table f.rid = some f.status
  spent : ∀ rid st, status log (rid, st) = .spent →
    Recorded table quarantined hydration pruned flights rid st

end Ledgers

variable {table after : Table} {quarantined : OrderedSet String} {hydration : Hydration}
  {pruned : List String} {flights : List (Option Flight)} {log : List (Mark (String × Status))}
  {n : ℕ} {f : Flight} {x : Option Flight}

theorem unpaid_past {s : Stage} (unpaid : s.unpaid = true) : s.past = true := by
  cases s <;> simp_all [Stage.unpaid, Stage.past]

theorem carries_past {s : Stage} (carries : s.carries = true) : s.past = true := by
  cases s <;> simp_all [Stage.carries, Stage.past]

/-- No other handler of a pair is past its gate. -/
theorem Ledger.alone (kept : Ledger table quarantined hydration pruned flights log)
    (held : slotAt flights n = some f) (past : f.stage.past = true) {m : ℕ} {g : Flight}
    (apart : m ≠ n) (other : slotAt flights m = some g) (past' : g.stage.past = true) :
    g.pair ≠ f.pair :=
  fun same => apart (kept.single m n g f other held past' past same)

/-- What the table, the quarantine and the retention may do under the handlers' feet. -/
theorem Ledger.rewrite {quarantined' : OrderedSet String} {hydration' : Hydration}
    {pruned' : List String} (kept : Ledger table quarantined hydration pruned flights log)
    (carried : ∀ n f, slotAt flights n = some f → f.stage.carries = true →
      intentAt table f.rid = some f.status → intentAt after f.rid = some f.status)
    (recorded : ∀ rid st, status log (rid, st) = .spent →
      Recorded table quarantined hydration pruned flights rid st →
      Recorded after quarantined' hydration' pruned' flights rid st) :
    Ledger after quarantined' hydration' pruned' flights log where
  once := kept.once
  single := kept.single
  idle := kept.idle
  underway := kept.underway
  armed := fun n f held carries => carried n f held carries (kept.armed n f held carries)
  spent := fun rid st spent => recorded rid st spent (kept.spent rid st spent)

/-- A handler moves on without a payment. -/
theorem Ledger.move (kept : Ledger table quarantined hydration pruned flights log)
    (held : slotAt flights n = some f) (calm : f.stage ≠ .sending ∧ f.stage ≠ .marking)
    (alone : ∀ g ∈ x, g.stage.past = true → ∀ m g', m ≠ n → slotAt flights m = some g' →
      g'.stage.past = true → g'.pair ≠ g.pair)
    (idle : ∀ g ∈ x, g.stage.unpaid = true → status log g.pair = .idle)
    (armed : ∀ g ∈ x, g.stage.carries = true → intentAt table g.rid = some g.status) :
    Ledger table quarantined hydration pruned (flights.set n x) log where
  once := kept.once
  single := by
    intro a b g g' ga gb pa pb same
    rcases slot_set_cases held ga with ⟨here, new⟩ | ⟨oa, old⟩
    · rcases slot_set_cases held gb with ⟨there, -⟩ | ⟨ob, old'⟩
      · exact here.trans there.symm
      · exact absurd same.symm (alone g new pa b g' ob old' pb)
    · rcases slot_set_cases held gb with ⟨-, new⟩ | ⟨ob, old'⟩
      · exact absurd same (alone g' new pb a g oa old pa)
      · exact kept.single a b g g' old old' pa pb same
  idle := by
    intro a g ga unpaid
    rcases slot_set_cases held ga with ⟨-, new⟩ | ⟨-, ga⟩
    · exact idle g new unpaid
    · exact kept.idle a g ga unpaid
  underway := by
    intro pair running
    obtain ⟨a, g, ga, same, sending⟩ := kept.underway pair running
    refine ⟨a, g, ?_, same, sending⟩
    rw [slot_set_other]
    · exact ga
    · rintro rfl
      rw [held, Option.some.injEq] at ga
      exact calm.1 (ga ▸ sending)
  armed := by
    intro a g ga carries
    rcases slot_set_cases held ga with ⟨-, new⟩ | ⟨-, ga⟩
    · exact armed g new carries
    · exact kept.armed a g ga carries
  spent := by
    intro rid st spent
    rcases kept.spent rid st spent with sent | gone | ⟨intent, open'⟩
    · exact Or.inl sent
    · exact Or.inr (Or.inl gone)
    · refine Or.inr (Or.inr ⟨intent, ?_⟩)
      rcases open' with key | awaits | ⟨a, g, ga, same, marking⟩
      · exact Or.inl key
      · exact Or.inr (Or.inl awaits)
      · refine Or.inr (Or.inr ⟨a, g, ?_, same, marking⟩)
        rw [slot_set_other]
        · exact ga
        · rintro rfl
          rw [held, Option.some.injEq] at ga
          exact calm.2 (ga ▸ marking)

/-- A handler that is done, or not past its gate, concerns nobody. -/
theorem Ledger.quit (kept : Ledger table quarantined hydration pruned flights log)
    (held : slotAt flights n = some f) (calm : f.stage ≠ .sending ∧ f.stage ≠ .marking)
    (before : ∀ g ∈ x, g.stage.past = false) :
    Ledger table quarantined hydration pruned (flights.set n x) log := by
  refine kept.move held calm ?_ ?_ ?_
  · intro g new past
    rw [before g new] at past
    exact absurd past (by simp)
  · intro g new unpaid
    exact absurd (unpaid_past unpaid) (by simp [before g new])
  · intro g new carries
    exact absurd (carries_past carries) (by simp [before g new])

theorem Ledger.push (kept : Ledger table quarantined hydration pruned flights log)
    (before : f.stage.past = false) :
    Ledger table quarantined hydration pruned (flights ++ [some f]) log where
  once := kept.once
  single := by
    intro a b g g' ga gb pa pb same
    rcases slot_push_cases ga with ga | rfl
    · rcases slot_push_cases gb with gb | rfl
      · exact kept.single a b g g' ga gb pa pb same
      · exact absurd pb (by simp [before])
    · exact absurd pa (by simp [before])
  idle := by
    intro a g ga unpaid
    rcases slot_push_cases ga with ga | rfl
    · exact kept.idle a g ga unpaid
    · exact absurd (unpaid_past unpaid) (by simp [before])
  underway := by
    intro pair running
    obtain ⟨a, g, ga, rest⟩ := kept.underway pair running
    exact ⟨a, g, slot_push_old ga, rest⟩
  armed := by
    intro a g ga carries
    rcases slot_push_cases ga with ga | rfl
    · exact kept.armed a g ga carries
    · exact absurd (carries_past carries) (by simp [before])
  spent := by
    intro rid st spent
    rcases kept.spent rid st spent with sent | gone | ⟨intent, key | awaits | ⟨a, g, ga, rest⟩⟩
    · exact Or.inl sent
    · exact Or.inr (Or.inl gone)
    · exact Or.inr (Or.inr ⟨intent, Or.inl key⟩)
    · exact Or.inr (Or.inr ⟨intent, Or.inr (Or.inl awaits)⟩)
    · exact Or.inr (Or.inr ⟨intent, Or.inr (Or.inr ⟨a, g, slot_push_old ga, rest⟩)⟩)

/-- A handler past its gate begins, is paid or is refused. -/
theorem Ledger.record (kept : Ledger table quarantined hydration pruned flights log)
    (held : slotAt flights n = some f) (past : f.stage.past = true) {m : Mark (String × Status)}
    (keyed : m.key = f.pair) (allowed : m.Allowed log) (unmarked : f.stage ≠ .marking)
    (pair : ∀ g ∈ x, g.pair = f.pair)
    (idle : ∀ g ∈ x, g.stage.unpaid = true → m.leaves = .idle)
    (armed : ∀ g ∈ x, g.stage.carries = true → intentAt table f.rid = some f.status)
    (running : m.leaves = .running → ∃ g, x = some g ∧ g.stage = .sending)
    (spent : m.leaves = .spent → ∃ g, x = some g ∧ g.stage = .marking) :
    Ledger table quarantined hydration pruned (flights.set n x) (m :: log) where
  once := ⟨allowed, kept.once⟩
  single := by
    intro a b g g' ga gb pa pb same
    rcases slot_set_cases held ga with ⟨here, new⟩ | ⟨oa, old⟩
    · rcases slot_set_cases held gb with ⟨there, -⟩ | ⟨ob, old'⟩
      · exact here.trans there.symm
      · exact absurd (same.symm.trans (pair g new)) (kept.alone held past ob old' pb)
    · rcases slot_set_cases held gb with ⟨-, new⟩ | ⟨ob, old'⟩
      · exact absurd (same.trans (pair g' new)) (kept.alone held past oa old pa)
      · exact kept.single a b g g' old old' pa pb same
  idle := by
    intro a g ga unpaid
    rcases slot_set_cases held ga with ⟨-, new⟩ | ⟨oa, old⟩
    · rw [pair g new, ← keyed, status_same]
      exact idle g new unpaid
    · rw [status_other (by
        rw [keyed]
        exact (kept.alone held past oa old (unpaid_past unpaid)).symm)]
      exact kept.idle a g old unpaid
  underway := by
    intro key runs
    by_cases same : m.key = key
    · rw [← same, status_same] at runs
      obtain ⟨g, new, sending⟩ := running runs
      exact ⟨n, g, by rw [slot_set_same held, new], by rw [pair g new, ← same, keyed], sending⟩
    · rw [status_other same] at runs
      obtain ⟨a, g, ga, named, sending⟩ := kept.underway key runs
      refine ⟨a, g, ?_, named, sending⟩
      rw [slot_set_other]
      · exact ga
      · rintro rfl
        rw [held, Option.some.injEq] at ga
        exact same (by rw [keyed, ga, named])
  armed := by
    intro a g ga carries
    rcases slot_set_cases held ga with ⟨-, new⟩ | ⟨-, old⟩
    · obtain ⟨rid, st⟩ := Prod.mk.injEq .. ▸ pair g new
      rw [rid, st]
      exact armed g new carries
    · exact kept.armed a g old carries
  spent := by
    intro rid st paid
    by_cases same : m.key = (rid, st)
    · rw [← same, status_same] at paid
      obtain ⟨g, new, marking⟩ := spent paid
      obtain ⟨own, own'⟩ := Prod.mk.injEq .. ▸ keyed.symm.trans same
      refine Or.inr (Or.inr ⟨?_, Or.inr (Or.inr ⟨n, g, ?_, ?_, marking⟩)⟩)
      · rw [← own, ← own']
        exact armed g new (by rw [marking]; rfl)
      · rw [slot_set_same held, new]
      · rw [pair g new, ← same, keyed]
    · rw [status_other same] at paid
      rcases kept.spent rid st paid with sent | gone | ⟨intent, key | awaits | ⟨a, g, ga, named, marking⟩⟩
      · exact Or.inl sent
      · exact Or.inr (Or.inl gone)
      · exact Or.inr (Or.inr ⟨intent, Or.inl key⟩)
      · exact Or.inr (Or.inr ⟨intent, Or.inr (Or.inl awaits)⟩)
      · refine Or.inr (Or.inr ⟨intent, Or.inr (Or.inr ⟨a, g, ?_, named, marking⟩)⟩)
        rw [slot_set_other]
        · exact ga
        · rintro rfl
          rw [held, Option.some.injEq] at ga
          exact unmarked (ga ▸ marking)

/-- A table that keeps what was sent, and the intents of the others, keeps the ledger. -/
theorem Ledger.retable (kept : Ledger table quarantined hydration pruned flights log)
    (sent : ∀ rid st, Sent table rid st → Sent after rid st)
    (intents : ∀ rid st, intentAt table rid = some st →
      ((∃ n f, slotAt flights n = some f ∧ f.stage.carries = true ∧ f.pair = (rid, st)) ∨
        status log (rid, st) = .spent) → intentAt after rid = some st) :
    Ledger after quarantined hydration pruned flights log := by
  refine kept.rewrite ?_ ?_
  · intro n f held carries intent
    exact intents f.rid f.status intent (Or.inl ⟨n, f, held, carries, rfl⟩)
  · intro rid st spent recorded
    rcases recorded with named | gone | ⟨intent, open'⟩
    · exact Or.inl (sent rid st named)
    · exact Or.inr (Or.inl gone)
    · exact Or.inr (Or.inr ⟨intents rid st intent (Or.inr spent), open'⟩)

/-- The intent is armed before the send, over no other. -/
theorem Ledger.arm (kept : Ledger table quarantined hydration pruned flights log)
    (held : slotAt flights n = some f) (arming : f.stage = .arming)
    (own : ∀ s ∈ intentAt table f.rid, s = f.status) :
    Ledger (setAttestPublishedRequest table f.rid f.status) quarantined hydration pruned
      (flights.set n (some { f with stage := .armed })) log := by
  have past : f.stage.past = true := by rw [arming]; rfl
  have armed : Ledger (setAttestPublishedRequest table f.rid f.status) quarantined hydration pruned
      flights log := by
    refine kept.retable (fun _ _ => arm_sent) ?_
    intro rid st intent _
    by_cases same : rid = f.rid
    · subst same
      rw [own st intent]
      exact arm_intent_same
    · rw [arm_intent_other same]
      exact intent
  refine armed.move held (by simp [arming]) ?_ ?_ ?_
  · rintro g ⟨⟩ - m g' apart other past'
    exact kept.alone held past apart other past'
  · rintro g ⟨⟩ -
    exact kept.idle n f held (by rw [arming]; rfl)
  · rintro g ⟨⟩ -
    exact arm_intent_same

/-- The sent marker names the status, and only its own intent goes. -/
theorem Ledger.mark (kept : Ledger table quarantined hydration pruned flights log)
    (held : slotAt flights n = some f) (marking : f.stage = .marking) :
    Ledger (updateAttestPublishedRequestByRequestId table f.rid f.status) quarantined hydration
      pruned (flights.set n (some { f with stage := .marked })) log := by
  have past : f.stage.past = true := by rw [marking]; rfl
  have intent : intentAt table f.rid = some f.status := kept.armed n f held (by rw [marking]; rfl)
  have others : ∀ rid st, (rid, st) ≠ f.pair → intentAt table rid = some st →
      intentAt (updateAttestPublishedRequestByRequestId table f.rid f.status) rid = some st := by
    intro rid st apart was
    have other : rid ≠ f.rid := by
      rintro rfl
      rw [intent, Option.some.injEq] at was
      exact apart (by rw [← was]; rfl)
    rw [mark_intent_other other]
    exact was
  refine ⟨kept.once, ?_, ?_, ?_, ?_, ?_⟩
  · intro a b g g' ga gb pa pb same
    rcases slot_set_cases held ga with ⟨here, new⟩ | ⟨oa, old⟩
    · rcases slot_set_cases held gb with ⟨there, -⟩ | ⟨ob, old'⟩
      · exact here.trans there.symm
      · obtain rfl := Option.some.injEq .. ▸ new
        exact absurd same.symm (kept.alone held past ob old' pb)
    · rcases slot_set_cases held gb with ⟨-, new⟩ | ⟨ob, old'⟩
      · obtain rfl := Option.some.injEq .. ▸ new
        exact absurd same (kept.alone held past oa old pa)
      · exact kept.single a b g g' old old' pa pb same
  · intro a g ga unpaid
    rcases slot_set_cases held ga with ⟨-, new⟩ | ⟨-, old⟩
    · obtain rfl := Option.some.injEq .. ▸ new
      exact absurd unpaid (by simp [Stage.unpaid])
    · exact kept.idle a g old unpaid
  · intro pair running
    obtain ⟨a, g, ga, named, sending⟩ := kept.underway pair running
    refine ⟨a, g, ?_, named, sending⟩
    rw [slot_set_other]
    · exact ga
    · rintro rfl
      rw [held, Option.some.injEq] at ga
      rw [← ga, marking] at sending
      exact absurd sending (by simp)
  · intro a g ga carries
    rcases slot_set_cases held ga with ⟨-, new⟩ | ⟨oa, old⟩
    · obtain rfl := Option.some.injEq .. ▸ new
      exact absurd carries (by simp [Stage.carries])
    · exact others g.rid g.status (kept.alone held past oa old (carries_past carries))
        (kept.armed a g old carries)
  · intro rid st spent
    by_cases own : (rid, st) = f.pair
    · obtain ⟨rfl, rfl⟩ := Prod.mk.injEq .. ▸ own
      exact Or.inl (mark_records intent)
    · rcases kept.spent rid st spent with sent | gone | ⟨was, key | awaits | ⟨a, g, ga, named, stage⟩⟩
      · exact Or.inl (mark_sent sent)
      · exact Or.inr (Or.inl gone)
      · exact Or.inr (Or.inr ⟨others rid st own was, Or.inl key⟩)
      · exact Or.inr (Or.inr ⟨others rid st own was, Or.inr (Or.inl awaits)⟩)
      · refine Or.inr (Or.inr ⟨others rid st own was, Or.inr (Or.inr ⟨a, g, ?_, named, stage⟩)⟩)
        rw [slot_set_other]
        · exact ga
        · rintro rfl
          rw [held, Option.some.injEq] at ga
          exact own (by rw [← named, ga])

/-- A handler withdraws its own intent only. -/
theorem Ledger.disarm (kept : Ledger table quarantined hydration pruned flights log)
    (held : slotAt flights n = some f) (disarming : f.stage = .disarming) :
    Ledger (updateAttestPublishedRequestByRequestIdAndIntentStatus table f.rid f.status)
      quarantined hydration pruned flights log := by
  refine kept.retable (fun _ _ => disarm_sent) ?_
  intro rid st intent needed
  refine disarm_intent ?_ intent
  rintro rfl rfl
  rcases needed with ⟨a, g, ga, carries, same⟩ | spent
  · have here := kept.single a n g f ga held (carries_past carries) (by rw [disarming]; rfl) same
    rw [here, held, Option.some.injEq] at ga
    rw [← ga, disarming] at carries
    exact absurd carries (by simp [Stage.carries])
  · have idle := kept.idle n f held (by rw [disarming]; rfl)
    rw [show f.pair = (f.rid, f.status) from rfl, spent] at idle
    exact absurd idle (by simp)

/-- Between its own statements a handler of a refused send stays where it is. -/
theorem Ledger.advance (kept : Ledger table quarantined hydration pruned flights log)
    (held : slotAt flights n = some f) (unpaid : f.stage.unpaid = true) {s : Stage}
    (bare : s.carries = false) :
    Ledger table quarantined hydration pruned (flights.set n (some { f with stage := s })) log := by
  refine kept.move held ?_ ?_ ?_ ?_
  · constructor <;> intro same <;> simp [same, Stage.unpaid] at unpaid
  · rintro g ⟨⟩ - m g' apart other past'
    exact kept.alone held (unpaid_past unpaid) apart other past'
  · rintro g ⟨⟩ -
    exact kept.idle n f held unpaid
  · rintro g ⟨⟩ carries
    rw [show ({ f with stage := s } : Flight).stage = s from rfl, bare] at carries
    exact absurd carries (by simp)

theorem Ledger.prune (kept : Ledger table quarantined hydration pruned flights log)
    (aged : List String) :
    Ledger (deleteSettledAttestPublishedRequests table aged) quarantined hydration (aged ++ pruned)
      flights log := by
  refine kept.rewrite (fun _ _ _ _ => prune_armed) ?_
  intro rid st _ recorded
  rcases recorded with ⟨row, found, record⟩ | gone | ⟨intent, open'⟩
  · by_cases old : rid ∈ aged
    · exact Or.inr (Or.inl (List.mem_append_left _ old))
    · exact Or.inl ⟨row, by rw [prune_get old]; exact found, record⟩
  · exact Or.inr (Or.inl (List.mem_append_right _ gone))
  · exact Or.inr (Or.inr ⟨prune_armed intent, open'⟩)

theorem Ledger.quarantine {quarantined' : OrderedSet String} {hydration' : Hydration}
    (kept : Ledger table quarantined hydration pruned flights log)
    (grows : ∀ key ∈ quarantined, key ∈ quarantined')
    (awaits : ∀ rid st, intentAt table rid = some st → hydration.Awaits rid st →
      publicationKey rid st ∈ quarantined' ∨ hydration'.Awaits rid st) :
    Ledger table quarantined' hydration' pruned flights log := by
  refine kept.rewrite (fun _ _ _ _ intent => intent) ?_
  intro rid st _ recorded
  rcases recorded with sent | gone | ⟨intent, key | waits | marking⟩
  · exact Or.inl sent
  · exact Or.inr (Or.inl gone)
  · exact Or.inr (Or.inr ⟨intent, Or.inl (grows _ key)⟩)
  · rcases awaits rid st intent waits with key | waits
    · exact Or.inr (Or.inr ⟨intent, Or.inl key⟩)
    · exact Or.inr (Or.inr ⟨intent, Or.inr (Or.inl waits)⟩)
  · exact Or.inr (Or.inr ⟨intent, Or.inr (Or.inr marking)⟩)

end Invariant

section Steps
variable {cfg : Params} {h : Hub} {n : ℕ} {f : Flight}

def Hub.Kept (h : Hub) : Prop :=
  Ledger h.table h.quarantined h.hydration h.pruned h.flights h.log

theorem others_past {m : ℕ} {g : Flight} (none' : othersPast h n f = false) (apart : m ≠ n)
    (held : slotAt h.flights m = some g) (past : g.stage.past = true) : g.pair ≠ f.pair := by
  intro same
  have inside : m < h.flights.length := slot_inside held
  have hit : othersPast h n f = true := by
    unfold othersPast
    rw [List.any_eq_true]
    refine ⟨m, List.mem_range.mpr inside, ?_⟩
    rw [flightAt, show h.flights[m]?.join = some g from held, Option.any_some]
    simp [apart, past, same]
  rw [none'] at hit
  exact absurd hit (by simp)

/-- A row that names the status does not answer send. -/
theorem sent_verdict {table : Table} {rid : String} {st : Status} (sent : Sent table rid st) :
    markerVerdict (table.get rid) rid st = .sent := by
  obtain ⟨row, found, marked, named⟩ := sent
  rw [found]
  simp [markerVerdict, marked, named]

/-- A pair that may pass its gate is idle. -/
theorem may_pass_idle (kept : h.Kept) (held : slotAt h.flights n = some f)
    (before : f.stage.past = false) (may : MayPass h n f) : status h.log f.pair = .idle := by
  obtain ⟨alone, gate, read, present⟩ := may
  cases found : status h.log f.pair with
  | idle => rfl
  | running =>
    obtain ⟨m, g, at', same, sending⟩ := kept.underway f.pair found
    have apart : m ≠ n := by
      rintro rfl
      rw [held, Option.some.injEq] at at'
      rw [at', sending] at before
      exact absurd before (by simp [Stage.past])
    exact absurd same (others_past alone apart at' (by rw [sending]; rfl))
  | spent =>
    rcases kept.spent f.rid f.status found with sent | gone | ⟨intent, key | awaits | marking⟩
    · unfold gateNow at gate
      rw [sent_verdict sent] at gate
      split at gate <;> exact absurd gate (by simp)
    · exact absurd gone present
    · unfold gateNow at gate
      rw [if_pos (by simp [isQuarantined, key])] at gate
      exact absurd gate (by simp)
    · rcases read with done | other
      · cases phase : h.hydration with
        | loaded => simp [phase, Hydration.Awaits] at awaits
        | unread => simp [phase, Hydration.done] at done
        | rows seen => simp [phase, Hydration.done] at done
      · exact absurd intent other
    · obtain ⟨m, g, at', same, stage⟩ := marking
      have apart : m ≠ n := by
        rintro rfl
        rw [held, Option.some.injEq] at at'
        rw [at', stage] at before
        exact absurd before (by simp [Stage.past])
      exact absurd same (others_past alone apart at' (by rw [stage]; rfl))

theorem remove_from_queue_kept (drop : OrderedSet String) (disk : Disk) (kept : h.Kept) :
    (removeFromQueue h drop disk).Kept := by
  unfold removeFromQueue
  split
  · exact kept
  · split <;> exact kept

theorem replay_queue_kept (pending : List String) (now : ℤ) (disk : Disk) (todo : List Entry)
    (drop : OrderedSet String) (kept : h.Kept) :
    (replayQueue cfg pending now disk todo drop h).Kept := by
  induction todo generalizing drop h with
  | nil => exact remove_from_queue_kept drop disk kept
  | cons entry todo ih =>
    unfold replayQueue
    split
    · refine ih _ ?_
      split <;> exact kept
    · exact ih drop kept
    · exact ih drop kept
    · simp only
      split
      · exact ih drop kept
      · split
        · exact ih _ kept
        · exact Ledger.push kept rfl

theorem finish_kept (dropped : Bool) (disk : Disk) (kept : (h.put n none).Kept) :
    (finish cfg h n f dropped disk).Kept := by
  unfold finish
  simp only
  split
  · exact kept
  · split
    · exact replay_queue_kept _ _ _ _ _ kept
    · exact kept

theorem live_kept (ev : FinalizedEvent) (now : ℤ) (enqueued : Bool) (kept : h.Kept) :
    (onRequestFinalized cfg h ev now enqueued).Kept := by
  unfold onRequestFinalized broadcastFinalized
  simp only
  split_ifs <;> first | exact kept | exact Ledger.push kept rfl

theorem statement_kept (held : slotAt h.flights n = some f)
    (guarded : (f.stage = .arming → ∀ s ∈ intentAt h.table f.rid, s = f.status) ∧
      (f.stage = .deleting → NothingArmed h.table f.rid)) (kept : h.Kept) :
    (runStatement h n f).Kept := by
  unfold runStatement
  split
  · rename_i reading
    refine Ledger.quit kept held (by simp [reading]) ?_
    rintro g ⟨⟩
    rfl
  · rename_i arming
    exact Ledger.arm kept held arming (guarded.1 arming)
  · rename_i marking
    exact Ledger.mark kept held marking
  · rename_i disarming
    exact (Ledger.disarm kept held disarming).advance held (by rw [disarming]; rfl) rfl
  · rename_i deleting
    have deleted : Ledger (deleteAttestPublishedRequest h.table f.rid) h.quarantined h.hydration
        h.pruned h.flights h.log :=
      Ledger.retable kept (fun _ _ => delete_sent)
        (fun _ _ intent _ => delete_intent (guarded.2 deleting) intent)
    exact deleted.advance held (by rw [deleting]; rfl) rfl
  · exact kept

theorem gate_kept (held : slotAt h.flights n = some f) {row : Option Row} (gate : f.stage = .gate row)
    {reserved : Bool} (disk : Disk) (guarded : passes f reserved = true → MayPass h n f)
    (kept : h.Kept) : (answerGate cfg h n f row reserved disk).Kept := by
  have quit : (h.put n none).Kept := Ledger.quit kept held (by simp [gate]) (by simp)
  unfold answerGate
  split
  · rename_i send
    split
    · rename_i granted
      have may : MayPass h n f := guarded (by simp [passes, gate, granted, send])
      have idle : status h.log f.pair = .idle :=
        may_pass_idle kept held (by rw [gate]; rfl) may
      refine Ledger.move kept held (by simp [gate]) ?_ ?_ ?_
      · rintro g ⟨⟩ - m g' apart other past'
        exact others_past may.1 apart other past'
      · rintro g ⟨⟩ -
        exact idle
      · rintro g ⟨⟩ carries
        exact absurd carries (by simp [Stage.carries])
    · exact finish_kept _ disk quit
  · exact finish_kept _ disk quit
  · refine finish_kept _ disk (Ledger.quarantine quit ?_ (fun _ _ _ waits => Or.inr waits))
    intro key old
    exact OrderedSet.mem_add.mpr (Or.inr old)

theorem reply_kept (held : slotAt h.flights n = some f) {reserved : Bool} (disk : Disk)
    (guarded : passes f reserved = true → MayPass h n f) (kept : h.Kept) :
    (takeReply cfg h n f reserved disk).Kept := by
  unfold takeReply
  split
  · rename_i row gate
    exact gate_kept held gate disk guarded kept
  · rename_i armed
    have past : f.stage.past = true := by rw [armed]; rfl
    refine Ledger.record kept held past rfl (kept.idle n f held (by rw [armed]; rfl))
      (by simp [armed]) ?_ ?_ ?_ (fun _ => ⟨_, rfl, rfl⟩) (fun spent => absurd spent (by simp [Mark.leaves]))
    · rintro g ⟨⟩
      rfl
    · rintro g ⟨⟩ unpaid
      exact absurd unpaid (by simp [Stage.unpaid])
    · rintro g ⟨⟩ -
      exact kept.armed n f held (by rw [armed]; rfl)
  · rename_i marked
    split
    · refine finish_kept _ disk ?_
      have emptied : (removeFromQueue h (OrderedSet.empty.add f.rid) disk).Kept :=
        remove_from_queue_kept _ disk kept
      have same : (removeFromQueue h (OrderedSet.empty.add f.rid) disk).flights = h.flights := by
        unfold removeFromQueue
        split
        · rfl
        · split <;> rfl
      exact Ledger.quit emptied (by rw [same]; exact held) (by simp [marked]) (by simp)
    · exact finish_kept _ disk (Ledger.quit kept held (by simp [marked]) (by simp))
  · rename_i disarmed
    exact Ledger.advance kept held (by rw [disarmed]; rfl) rfl
  · rename_i deleted
    exact finish_kept _ disk (Ledger.quit kept held (by simp [deleted]) (by simp))
  · exact kept

theorem settle_kept (held : slotAt h.flights n = some f) (error : Option (SendError × Bool))
    (now : ℤ) (disk : Disk) (kept : h.Kept) :
    (settleBroadcast cfg h n f error now disk).Kept := by
  unfold settleBroadcast
  split
  · exact kept
  · rename_i sending
    rw [not_not] at sending
    have past : f.stage.past = true := by rw [sending]; rfl
    split
    · refine Ledger.record kept held past rfl trivial (by simp [sending]) ?_ ?_ ?_
        (fun runs => absurd runs (by simp [Mark.leaves])) (fun _ => ⟨_, rfl, rfl⟩)
      · rintro g ⟨⟩
        rfl
      · rintro g ⟨⟩ unpaid
        exact absurd unpaid (by simp [Stage.unpaid])
      · rintro g ⟨⟩ -
        exact kept.armed n f held (by rw [sending]; rfl)
    · split
      · refine finish_kept _ disk ?_
        exact Ledger.record kept held past rfl trivial (by simp [sending]) (by simp) (by simp)
          (by simp) (fun runs => absurd runs (by simp [Mark.leaves]))
          (fun spent => absurd spent (by simp [Mark.leaves]))
      · refine Ledger.record kept held past rfl trivial (by simp [sending]) ?_ ?_ ?_
          (fun runs => absurd runs (by simp [Mark.leaves]))
          (fun spent => absurd spent (by simp [Mark.leaves]))
        · rintro g ⟨⟩
          rfl
        · rintro g ⟨⟩ -
          rfl
        · rintro g ⟨⟩ carries
          exact absurd carries (by simp [Stage.carries])

theorem hydrate_row_grows {sets : OrderedSet String × OrderedSet String} {marker : String × Row}
    {key : String} (old : key ∈ sets.2) : key ∈ (hydrateRow sets marker).2 := by
  unfold hydrateRow
  simp only
  split <;> split <;> simp [old]

theorem hydrate_grows {markers : List (String × Row)} {sets : OrderedSet String × OrderedSet String}
    {key : String} (old : key ∈ sets.2) : key ∈ (markers.foldl hydrateRow sets).2 := by
  induction markers generalizing sets with
  | nil => exact old
  | cons marker markers ih => exact ih (hydrate_row_grows old)

/-- Every armed marker that was read is quarantined. -/
theorem hydrate_armed {markers : List (String × Row)} {sets : OrderedSet String × OrderedSet String}
    {rid : String} {row : Row} {st : Status} (member : (rid, row) ∈ markers)
    (intent : row.intent = some st) :
    publicationKey rid st ∈ (markers.foldl hydrateRow sets).2 := by
  induction markers generalizing sets with
  | nil => exact absurd member (by simp)
  | cons marker markers ih =>
    rw [List.mem_cons] at member
    rw [List.foldl_cons]
    rcases member with rfl | later
    · exact hydrate_grows (by simp [hydrateRow, intent])
    · exact ih later

theorem hydrate_kept (kept : h.Kept) : (hydratePublishedMarkers h).Kept := by
  unfold hydratePublishedMarkers
  split
  · rename_i seen phase
    refine Ledger.quarantine kept (fun key old => hydrate_grows old) ?_
    intro rid st _ awaits
    rw [phase] at awaits
    obtain ⟨row, found, intent⟩ := Option.bind_eq_some_iff.mp awaits
    exact Or.inl (hydrate_armed (OrderedMap.mem_of_get found) intent)
  · exact kept

theorem hydrate_read_kept (kept : h.Kept) :
    ({ h with hydration := .rows h.table } : Hub).Kept :=
  Ledger.quarantine kept (fun _ old => old) (fun _ _ intent _ => Or.inr intent)

theorem mem_sending_pairs {pair : String × Status} :
    pair ∈ sendingPairs h ↔
      ∃ n f, slotAt h.flights n = some f ∧ f.pair = pair ∧ f.stage = .sending := by
  unfold sendingPairs
  rw [List.mem_map]
  constructor
  · rintro ⟨f, member, same⟩
    obtain ⟨inside, sending⟩ := List.mem_filter.mp member
    obtain ⟨n, held⟩ := slot_of_occupied inside
    exact ⟨n, f, held, same, of_decide_eq_true sending⟩
  · rintro ⟨n, f, held, same, sending⟩
    exact ⟨f, List.mem_filter.mpr ⟨slot_mem_occupied held, decide_eq_true sending⟩, same⟩

/-- After a crash every send under way has its intent on the row. -/
theorem restart_kept (kept : h.Kept) : (restart h).Kept := by
  refine ⟨paid_once_cut kept.once _, ?_, ?_, ?_, ?_, ?_⟩
  · intro a b g g' ga
    exact absurd ga (by simp [restart, slotAt])
  · intro a g ga
    exact absurd ga (by simp [restart, slotAt])
  · intro pair running
    rw [restart, status_append .spent (fun m member => by
      obtain ⟨k, -, rfl⟩ := List.mem_map.mp member
      rfl)] at running
    split at running
    · exact absurd running (by simp)
    · rename_i uncut
      obtain ⟨a, g, ga, same, sending⟩ := kept.underway pair running
      exact absurd ⟨.paid pair, List.mem_map.mpr
        ⟨pair, mem_sending_pairs.mpr ⟨a, g, ga, same, sending⟩, rfl⟩, rfl⟩ uncut
  · intro a g ga
    exact absurd ga (by simp [restart, slotAt])
  · intro rid st spent
    rcases status_cut spent with cut | before
    · obtain ⟨a, g, ga, same, sending⟩ := mem_sending_pairs.mp cut
      obtain ⟨rfl, rfl⟩ := Prod.mk.injEq .. ▸ same
      exact Or.inr (Or.inr ⟨kept.armed a g ga (by rw [sending]; rfl), Or.inr (Or.inl trivial)⟩)
    · rcases kept.spent rid st before with sent | gone | ⟨intent, -⟩
      · exact Or.inl sent
      · exact Or.inr (Or.inl gone)
      · exact Or.inr (Or.inr ⟨intent, Or.inr (Or.inl trivial)⟩)

/-- The step lemma. -/
theorem step_kept {ev : Event} (guarded : Guarded h ev) (kept : h.Kept) : (step cfg h ev).Kept := by
  cases ev with
  | finalized ev now enqueued => exact live_kept ev now enqueued kept
  | tick readable =>
    simp only [step, tick]
    split
    · split_ifs <;> exact kept
    · exact kept
  | pendingIds ids now disk =>
    simp only [step, readPending]
    split
    · split
      · exact kept
      · exact replay_queue_kept _ _ _ _ _ kept
    · exact kept
  | statement n =>
    cases held : flightAt h n with
    | none => simpa only [step, held, Option.elim_none] using kept
    | some f =>
      simp only [step, held, Option.elim_some]
      exact statement_kept held (guarded f held) kept
  | reply n reserved disk =>
    cases held : flightAt h n with
    | none => simpa only [step, held, Option.elim_none] using kept
    | some f =>
      simp only [step, held, Option.elim_some]
      exact reply_kept held disk (guarded f held) kept
  | broadcast n error now disk =>
    cases held : flightAt h n with
    | none => simpa only [step, held, Option.elim_none] using kept
    | some f =>
      simp only [step, held, Option.elim_some]
      exact settle_kept held error now disk kept
  | prune aged => exact Ledger.prune kept aged
  | hydrateRead =>
    simp only [step]
    split
    · exact hydrate_read_kept kept
    · exact kept
  | hydrate => exact hydrate_kept kept
  | restart => exact restart_kept kept

end Steps

section Runs
variable {cfg : Params} (table : Table) (queue : List Entry)

/-- In a run whose steps keep the guard, a response is broadcast only while no broadcast of it
    is under way and none was paid for. -/
theorem response_paid_once {evs : List Event}
    (guarded : Admitted (step cfg) Guarded (Hub.start table queue) evs) :
    PaidOnce (run (step cfg) (Hub.start table queue) evs).log := by
  have start : (Hub.start table queue).Kept := by
    refine ⟨trivial, ?_, ?_, ?_, ?_, ?_⟩ <;> simp [Hub.start, slotAt, status]
  exact (run_invariant Hub.Kept (fun h ev kept ok => step_kept ok kept) start guarded).once

end Runs

section Sample

def sampleParams : Params := ⟨true, some "a1", true, 2, 600000, 60000, 1200000⟩

def sampleDisk : Disk := ⟨true, true⟩

def sampleEvent (st : Status) : FinalizedEvent := ⟨"77", st, false, 3, 900, ["a1", "b2"], none⟩

/- The gate's row is read, the intent armed and the broadcaster invoked. -/
def invoked (n : ℕ) : List Event :=
  [.statement n, .reply n true sampleDisk, .statement n, .reply n true sampleDisk]

/- The broadcaster resolves, the row is marked and the queue rewritten. -/
def delivered (n : ℕ) : List Event :=
  [.broadcast n none 0 sampleDisk, .statement n, .reply n true sampleDisk]

/- A provider_error row is on record. The ok response is on the wire for longer than the
   leader's grace when the sweep comes to its entry. -/
@[irreducible] def slowBroadcastRun : List Event :=
  [.hydrateRead, .hydrate, .finalized (sampleEvent .providerError) 0 true] ++ invoked 0 ++
    delivered 0 ++ [.finalized (sampleEvent .ok) 600000 true] ++ invoked 1 ++
    [.tick true, .pendingIds (some ["77"]) 660000 sampleDisk] ++ invoked 2

/-- The gate does not see the armed intent of a row that names another status as sent. -/
theorem ok_response_broadcast_beside_itself :
    ¬ PaidOnce (run (step sampleParams) (Hub.start OrderedMap.empty []) slowBroadcastRun).log := by
  decide +kernel

/- The provider_error row, then an ok response that the encoder refuses and the sweep retries;
   the queue rewrite fails, and the process is restarted. -/
@[irreducible] def retriedRun : List Event :=
  [.hydrateRead, .hydrate, .finalized (sampleEvent .providerError) 0 true] ++ invoked 0 ++
    delivered 0 ++ [.finalized (sampleEvent .ok) 600000 true] ++ invoked 1 ++
    [.broadcast 1 (some ({ neverSent := true }, false)) 600001 sampleDisk, .statement 1,
      .reply 1 true sampleDisk, .statement 1, .reply 1 true sampleDisk,
      .tick true, .pendingIds (some ["77"]) 660000 sampleDisk] ++ invoked 2 ++
    [.broadcast 2 none 660001 sampleDisk, .statement 2, .reply 2 true ⟨true, false⟩, .restart,
      .hydrateRead, .hydrate, .tick true, .pendingIds (some ["77"]) 690000 sampleDisk]

theorem retried_guarded :
    Admitted (step sampleParams) Guarded (Hub.start OrderedMap.empty []) retriedRun := by
  decide +kernel

theorem sample_response_paid_once :
    (run (step sampleParams) (Hub.start OrderedMap.empty []) retriedRun).log =
      [.paid ("77", .ok), .begun ("77", .ok), .refused ("77", .ok), .begun ("77", .ok),
        .paid ("77", .providerError), .begun ("77", .providerError)] ∧
    PaidOnce (run (step sampleParams) (Hub.start OrderedMap.empty []) retriedRun).log :=
  ⟨by decide +kernel, response_paid_once OrderedMap.empty [] retried_guarded⟩

end Sample
end XChainHub.Attestation.Publisher
