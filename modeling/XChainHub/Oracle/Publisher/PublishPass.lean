import XChainHub.Library.FirstOfKey

/-!
A publish pass of the PRICE publisher over its durable queue: oracle/publisher/publish_pass.js,
publish_entry.js and the queue of queue.js. Only the appends of enqueue reach the queue file
while a pass awaits.
-/
namespace XChainHub.Oracle.Publisher
open FirstOfKey

section Entries

/- round names an entry and is the first round of its batch. -/
structure QueueEntry where
  round : ℕ
  batchRounds : List ℕ
  attempts : ℕ
  deriving DecidableEq

def entryRounds (e : QueueEntry) : List ℕ :=
  if e.batchRounds.isEmpty then [e.round] else e.batchRounds

/- What a durable marker read answers. -/
inductive Marker where
  | none
  | intent
  | sent
  | unreadable
  deriving DecidableEq

inductive Sending where
  | txid
  | ambiguous
  | refused
  deriving DecidableEq

/- What one entry meets on its way out. -/
structure Answers where
  marker : ℕ → Marker
  reserved : Bool
  intentRecorded : Bool
  sending : Sending

structure PublisherOptions where
  maxAttempts : ℕ
  db : Bool
  broadcastHook : Bool

/- The rounds that this process counts as broadcast, and those of unknown outcome. -/
structure Suppressors where
  published : List ℕ
  quarantined : List ℕ

inductive Outcome where
  | published
  | resolved
  | deadLettered
  | failed
  | held
  deriving DecidableEq

def Suppressors.mark (s : Suppressors) (rounds : List ℕ) : Suppressors :=
  { s with published := rounds ++ s.published }

def entryResolvedInProcess (s : Suppressors) (e : QueueEntry) : Option Outcome :=
  if (entryRounds e).any (· ∈ s.published) then some .resolved
  else if (entryRounds e).any (· ∈ s.quarantined) then some .deadLettered
  else none

/- The first round whose marker says anything, with what it says. -/
def readMarkers (marker : ℕ → Marker) : List ℕ → Option (ℕ × Marker)
  | [] => none
  | r :: rounds => if marker r = .none then readMarkers marker rounds else some (r, marker r)

def reserveAndBroadcast (o : PublisherOptions) (s : Suppressors) (e : QueueEntry) (a : Answers) :
    Outcome × Suppressors :=
  if !a.reserved then (.held, s)
  else if o.db && !a.intentRecorded then (.held, s)
  else
    match a.sending with
    | .txid => (.published, s.mark (entryRounds e))
    | .ambiguous => (.deadLettered, s)
    | .refused => (.failed, s)

def publishQueueEntry (o : PublisherOptions) (s : Suppressors) (e : QueueEntry) (a : Answers) :
    Outcome × Suppressors :=
  if o.maxAttempts ≤ e.attempts then (.deadLettered, s)
  else
    match entryResolvedInProcess s e with
    | some outcome => (outcome, s)
    | none =>
      match if o.db then readMarkers a.marker (entryRounds e) else none with
      | some (_, .unreadable) => (.held, s)
      | some (r, .intent) =>
        -- a pre-crash intent quarantines its round, and the entry with it
        let quarantined := { s with quarantined := r :: s.quarantined }
        ((entryResolvedInProcess quarantined e).getD .resolved, quarantined)
      | some (_, .sent) => (.resolved, s.mark (entryRounds e))
      | _ => if !o.broadcastHook then (.held, s) else reserveAndBroadcast o s e a

end Entries

section Pass

/- The entries of a pass with their outcomes, in order. -/
def outcomes (o : PublisherOptions) : Suppressors → List (QueueEntry × Answers) →
    List (QueueEntry × Outcome)
  | _, [] => []
  | s, (e, a) :: rest =>
    (e, (publishQueueEntry o s e a).1) :: outcomes o (publishQueueEntry o s e a).2 rest

/- pass.remaining: a refused send counts an attempt. -/
def remaining (done : List (QueueEntry × Outcome)) : List QueueEntry :=
  done.filterMap fun d =>
    match d.2 with
    | .failed => some { d.1 with attempts := d.1.attempts + 1 }
    | .held => some d.1
    | _ => none

def wires (done : List (QueueEntry × Outcome)) : List QueueEntry :=
  (done.filter fun d => d.2 = .published).map Prod.fst

def rebuildQueueAfterPass (entries remaining fresh : List QueueEntry) : List QueueEntry :=
  let seen := remaining.map QueueEntry.round
  let resolved := (entries.map QueueEntry.round).filter (· ∉ seen)
  (fresh.foldl (fun (acc : List ℕ × List QueueEntry) e =>
    if e.round ∈ resolved ∨ e.round ∈ acc.1 then acc
    else (e.round :: acc.1, acc.2 ++ [e])) (seen, remaining)).2

/- Arrivals are the lines appended while the pass awaits; rebuilt says that the queue could be
   read again and rewritten. -/
structure PublishPass where
  suppressors : Suppressors
  entries : List (QueueEntry × Answers)
  arrivals : List QueueEntry
  rebuilt : Bool

def PublishPass.queued (p : PublishPass) : List QueueEntry := p.entries.map Prod.fst ++ p.arrivals

def PublishPass.outcomes (o : PublisherOptions) (p : PublishPass) : List (QueueEntry × Outcome) :=
  Publisher.outcomes o p.suppressors p.entries

/- The queue file once the pass is over. -/
def queueAfter (o : PublisherOptions) (p : PublishPass) : List QueueEntry :=
  if p.rebuilt then
    rebuildQueueAfterPass (p.entries.map Prod.fst) (remaining (p.outcomes o)) p.queued
  else p.queued

/- carried are the rounds of wires that were published before the pass. -/
def LosesNothing (o : PublisherOptions) (carried : ℕ → Prop) (p : PublishPass) : Prop :=
  ∀ e ∈ p.queued, ∀ n ∈ entryRounds e,
    carried n ∨ (∃ w ∈ wires (p.outcomes o), n ∈ entryRounds w) ∨
      ∃ q ∈ queueAfter o p, n ∈ entryRounds q

/- Sent, or kept for a later pass. -/
def Outcome.stays : Outcome → Bool
  | .resolved => false
  | .deadLettered => false
  | _ => true

/- The entries that leave the queue unsent, and the arrivals named by a round that an entry of
   the pass or an earlier arrival has. -/
def leaving (o : PublisherOptions) (p : PublishPass) : List QueueEntry :=
  ((p.outcomes o).filter fun d => !d.2.stays).map Prod.fst ++
    repeats QueueEntry.round (p.entries.map fun x => x.1.round) p.arrivals

/- The entries that are sent or stay, and the arrivals of new first rounds. -/
def staying (o : PublisherOptions) (p : PublishPass) : List QueueEntry :=
  ((p.outcomes o).filter fun d => d.2.stays).map Prod.fst ++
    firsts QueueEntry.round (p.entries.map fun x => x.1.round) p.arrivals

def LeavingCovered (o : PublisherOptions) (carried : ℕ → Prop) (p : PublishPass) : Prop :=
  ∀ e ∈ leaving o p, ∀ n ∈ entryRounds e, carried n ∨ ∃ q ∈ staying o p, n ∈ entryRounds q

end Pass

section Rebuild
variable {o : PublisherOptions} {carried : ℕ → Prop} {p : PublishPass}

theorem outcomes_entries (o : PublisherOptions) (s : Suppressors)
    (entries : List (QueueEntry × Answers)) :
    (outcomes o s entries).map Prod.fst = entries.map Prod.fst := by
  induction entries generalizing s with
  | nil => rfl
  | cons x rest ih =>
    obtain ⟨e, a⟩ := x
    simp only [outcomes, List.map_cons, ih]

theorem mem_remaining {done : List (QueueEntry × Outcome)} {q : QueueEntry}
    (kept : q ∈ remaining done) : ∃ d ∈ done, (d.2 = .failed ∨ d.2 = .held) ∧
      q.round = d.1.round ∧ entryRounds q = entryRounds d.1 := by
  obtain ⟨⟨e, outcome⟩, listed, made⟩ := List.mem_filterMap.mp kept
  cases outcome with
  | failed =>
    rw [← Option.some.inj made]
    exact ⟨_, listed, Or.inl rfl, rfl, rfl⟩
  | held =>
    rw [← Option.some.inj made]
    exact ⟨_, listed, Or.inr rfl, rfl, rfl⟩
  | published => cases made
  | resolved => cases made
  | deadLettered => cases made

theorem remaining_of {done : List (QueueEntry × Outcome)} {d : QueueEntry × Outcome}
    (listed : d ∈ done) (stays : d.2 = .failed ∨ d.2 = .held) :
    ∃ q ∈ remaining done, entryRounds q = entryRounds d.1 := by
  obtain ⟨e, outcome⟩ := d
  rcases stays with rfl | rfl
  · exact ⟨{ e with attempts := e.attempts + 1 }, List.mem_filterMap.mpr ⟨_, listed, rfl⟩, rfl⟩
  · exact ⟨e, List.mem_filterMap.mpr ⟨_, listed, rfl⟩, rfl⟩

theorem rebuild_firsts (resolved seen : List ℕ) (acc fresh : List QueueEntry) :
    (fresh.foldl (fun (acc : List ℕ × List QueueEntry) e =>
      if e.round ∈ resolved ∨ e.round ∈ acc.1 then acc
      else (e.round :: acc.1, acc.2 ++ [e])) (seen, acc)).2 =
      acc ++ firsts QueueEntry.round (resolved ++ seen) fresh := by
  induction fresh generalizing seen acc with
  | nil => simp [firsts]
  | cons e fresh ih =>
    rw [List.foldl_cons, firsts]
    by_cases met : e.round ∈ resolved ∨ e.round ∈ seen
    · rw [if_pos met, if_pos (List.mem_append.mpr met)]
      exact ih seen acc
    · rw [if_neg met, if_neg (fun both => met (List.mem_append.mp both)), ih]
      have same : ∀ k, k ∈ resolved ++ e.round :: seen ↔ k ∈ e.round :: (resolved ++ seen) := by
        intro k
        simp only [List.mem_append, List.mem_cons]
        tauto
      rw [firsts_congr same, List.append_assoc, List.singleton_append]

/-- The rebuilt queue: what the pass leaves, and the arrivals of first rounds it did not meet. -/
theorem rebuilt_queue (o : PublisherOptions) (p : PublishPass) :
    rebuildQueueAfterPass (p.entries.map Prod.fst) (remaining (p.outcomes o)) p.queued =
      remaining (p.outcomes o) ++
        firsts QueueEntry.round (p.entries.map fun x => x.1.round) p.arrivals := by
  have names : p.entries.map (fun x => x.1.round) =
      (p.entries.map Prod.fst).map QueueEntry.round := by
    rw [List.map_map]
    rfl
  have kept : ∀ k ∈ (remaining (p.outcomes o)).map QueueEntry.round,
      k ∈ (p.entries.map Prod.fst).map QueueEntry.round := by
    intro k member
    obtain ⟨q, left, rfl⟩ := List.mem_map.mp member
    obtain ⟨d, done, -, name, -⟩ := mem_remaining left
    rw [name, ← outcomes_entries o p.suppressors]
    exact List.mem_map_of_mem (List.mem_map_of_mem done)
  have met : ∀ k, k ∈ ((p.entries.map Prod.fst).map QueueEntry.round).filter
        (· ∉ (remaining (p.outcomes o)).map QueueEntry.round) ++
          (remaining (p.outcomes o)).map QueueEntry.round ↔
      k ∈ (p.entries.map Prod.fst).map QueueEntry.round := by
    intro k
    rw [List.mem_append, List.mem_filter, decide_eq_true_eq]
    have inside := kept k
    tauto
  simp only [rebuildQueueAfterPass]
  rw [rebuild_firsts, firsts_congr met, names, PublishPass.queued, firsts_met]
  intro e member
  exact List.mem_map_of_mem member

theorem stays_cases {outcome : Outcome} (stays : outcome.stays = true) :
    outcome = .published ∨ outcome = .failed ∨ outcome = .held := by
  cases outcome with
  | published => exact Or.inl rfl
  | failed => exact Or.inr (Or.inl rfl)
  | held => exact Or.inr (Or.inr rfl)
  | resolved => cases stays
  | deadLettered => cases stays

theorem rounds_staying (rebuilt : p.rebuilt = true) {n : ℕ} :
    (∃ q ∈ staying o p, n ∈ entryRounds q) ↔
      (∃ w ∈ wires (p.outcomes o), n ∈ entryRounds w) ∨
        ∃ q ∈ queueAfter o p, n ∈ entryRounds q := by
  rw [queueAfter, if_pos rebuilt, rebuilt_queue]
  constructor
  · rintro ⟨q, stays, carries⟩
    rcases List.mem_append.mp stays with handled | first
    · obtain ⟨d, kept, rfl⟩ := List.mem_map.mp handled
      obtain ⟨listed, how⟩ := List.mem_filter.mp kept
      rcases stays_cases how with sent | left
      · exact Or.inl ⟨d.1, List.mem_map_of_mem (List.mem_filter.mpr ⟨listed, decide_eq_true sent⟩),
          carries⟩
      · obtain ⟨r, stays, same⟩ := remaining_of listed left
        exact Or.inr ⟨r, List.mem_append_left _ stays, same ▸ carries⟩
    · exact Or.inr ⟨q, List.mem_append_right _ first, carries⟩
  · rintro (⟨w, sent, carries⟩ | ⟨q, queued, carries⟩)
    · obtain ⟨d, kept, rfl⟩ := List.mem_map.mp sent
      obtain ⟨listed, how⟩ := List.mem_filter.mp kept
      have stays : d ∈ (p.outcomes o).filter fun d => d.2.stays :=
        List.mem_filter.mpr ⟨listed, by rw [of_decide_eq_true how]; rfl⟩
      exact ⟨d.1, List.mem_append_left _ (List.mem_map_of_mem stays), carries⟩
    · rcases List.mem_append.mp queued with left | first
      · obtain ⟨d, listed, how, -, same⟩ := mem_remaining left
        have stays : d ∈ (p.outcomes o).filter fun d => d.2.stays :=
          List.mem_filter.mpr ⟨listed, by rcases how with h | h <;> rw [h] <;> rfl⟩
        exact ⟨d.1, List.mem_append_left _ (List.mem_map_of_mem stays), same ▸ carries⟩
      · exact ⟨q, List.mem_append_right _ first, carries⟩

/-- Each queued entry stays or leaves. -/
theorem queued_stays_or_leaves {e : QueueEntry} :
    e ∈ p.queued ↔ e ∈ staying o p ∨ e ∈ leaving o p := by
  have handled : e ∈ p.entries.map Prod.fst ↔ ∃ d ∈ p.outcomes o, d.1 = e := by
    rw [← outcomes_entries o p.suppressors, List.mem_map]
    rfl
  simp only [PublishPass.queued, staying, leaving, List.mem_append, handled,
    @first_or_repeat _ _ _ QueueEntry.round (p.entries.map fun x => x.1.round)
      p.arrivals, List.mem_map, List.mem_filter, Bool.not_eq_true']
  constructor
  · rintro (⟨d, listed, rfl⟩ | first | again)
    · cases how : d.2.stays with
      | true => exact Or.inl (Or.inl ⟨d, ⟨listed, how⟩, rfl⟩)
      | false => exact Or.inr (Or.inl ⟨d, ⟨listed, how⟩, rfl⟩)
    · exact Or.inl (Or.inr first)
    · exact Or.inr (Or.inr again)
  · rintro ((⟨d, ⟨listed, -⟩, same⟩ | first) | (⟨d, ⟨listed, -⟩, same⟩ | again))
    · exact Or.inl ⟨d, listed, same⟩
    · exact Or.inr (Or.inl first)
    · exact Or.inl ⟨d, listed, same⟩
    · exact Or.inr (Or.inr again)

/- A batch from round 10 is sent, and a longer one from round 10 arrives meanwhile. -/
def overlappingPass : PublishPass :=
  ⟨⟨[], []⟩, [(⟨10, [10, 11, 12], 0⟩, ⟨fun _ => .none, true, true, .txid⟩)],
    [⟨10, [10, 11, 12, 13, 14, 15], 0⟩], true⟩

end Rebuild

end XChainHub.Oracle.Publisher
