import XChainHub.Consensus.EquivocationHeader
import XChainHub.Library.FirstWriter
import XChainHub.Library.GuardedRuns
import XChainHub.Library.OrderedMap

/-!
The claim of a publisher-attestation slot in anchor/publisher/attest_round.js, cut at
its awaits: calls run side by side over one map of entries and the consensus_state
rows, and every answer of the database, an eviction and a restart may come between.
-/
namespace XChainHub.Anchor.Publisher.AttestSlot
open FirstWriter GuardedRuns EquivocationHeader

def ATTEST_SLOT_MEMORY : Nat := 4096
def ATTEST_SLOT_KEY_PREFIX : String := "xancpub_slot:"

section Slots

/- The text through the first double bar. -/
def throughBars : List Char → Option (List Char)
  | '|' :: '|' :: _ => some ['|', '|']
  | c :: rest => (throughBars rest).map (c :: ·)
  | [] => none

def attestSlotOf (canonical : String) : Option String :=
  if "EQUIV|".toList.isPrefixOf canonical.toList then
    (throughBars canonical.toList).map String.ofList
  else none

/- No double bar begins in the text or at a bar behind it. -/
def Closed (text : String) : Prop := throughBars (text.toList ++ ['|']) = none

theorem through_bars_joined (front rest : List Char) (closed : throughBars (front ++ ['|']) = none) :
    throughBars (front ++ '|' :: '|' :: rest) = some (front ++ ['|', '|']) := by
  induction front with
  | nil => simp [throughBars]
  | cons c front ih =>
    have tail : throughBars (front ++ ['|']) = none := by
      cases front with
      | nil => simp [throughBars]
      | cons d front =>
        rw [List.cons_append, List.cons_append] at closed
        unfold throughBars at closed
        split at closed
        · cases closed
        · rename_i same
          cases same
          exact Option.map_eq_none_iff.mp closed
        · rename_i nothing
          cases nothing
    have apart : ¬(c = '|' ∧ ∃ more, front = '|' :: more) ∧ ¬(c = '|' ∧ front = []) := by
      constructor
      · rintro ⟨rfl, more, rfl⟩
        simp [throughBars] at closed
      · rintro ⟨rfl, rfl⟩
        simp [throughBars] at closed
    have step : throughBars (c :: (front ++ '|' :: '|' :: rest)) =
        (throughBars (front ++ '|' :: '|' :: rest)).map (c :: ·) := by
      cases front with
      | nil =>
        have bar : c ≠ '|' := fun bar => apart.2 ⟨bar, rfl⟩
        simp [throughBars, bar]
      | cons d front =>
        rw [List.cons_append]
        conv => lhs; unfold throughBars
        split
        · rename_i same
          simp only [List.cons.injEq] at same
          exact absurd ⟨same.1, front, by rw [same.2.1]⟩ apart.1
        · rename_i same
          simp only [List.cons.injEq] at same
          rw [← same.1, ← same.2]
        · rename_i nothing
          cases nothing
    rw [List.cons_append, step, ih tail]
    rfl

/-- A canonical under the header signs into the slot of its key. -/
theorem attest_slot_of_equiv {engineTag roundId view : String} (content : String)
    (closed : Closed ("EQUIV|" ++ equivKey engineTag roundId view)) :
    attestSlotOf (buildEquivCanonical engineTag roundId view content) =
      some (equivPrefix (equivKey engineTag roundId view)) := by
  have chars : (buildEquivCanonical engineTag roundId view content).toList =
      ("EQUIV|" ++ equivKey engineTag roundId view).toList ++ '|' :: '|' :: content.toList := by
    simp [buildEquivCanonical, equivPrefix]
  have start : "EQUIV|".toList.isPrefixOf
      (buildEquivCanonical engineTag roundId view content).toList = true := by
    rw [chars]
    simp [List.isPrefixOf]
  rw [attestSlotOf, if_pos start, chars, through_bars_joined _ _ closed, Option.map_some,
    Option.some.injEq, ← String.toList_inj]
  simp [equivPrefix]

theorem plain_slot : attestSlotOf (buildEquivCanonical "XANCHOR" "12" "0" "row|a||b") =
    some "EQUIV|XANCHOR|12|0||" :=
  attest_slot_of_equiv "row|a||b" (by unfold Closed; decide)

end Slots

/- A promise of the digest the row of a slot holds; none where it could not be recorded. -/
inductive Stored where
  | writing
  | reading
  | settled (digest : Option String)
  deriving DecidableEq

/- The slot is the one that the entry's record is made under. -/
structure Entry where
  slot : String
  digest : String
  stored : Stored
  refused : Bool
  deriving DecidableEq

/- What is left of a call behind its await: the one that made the entry it waits for goes on
   to free or to replace it, and the others only compare. -/
structure Waiting where
  canonical : String
  slot : String
  digest : String
  entry : Nat
  made : Bool
  deriving DecidableEq

structure Memory where
  entries : List Entry
  slots : OrderedMap String Nat
  calls : List (Option Waiting)
  refusals : Nat

def Memory.empty : Memory := ⟨[], OrderedMap.empty, [], 0⟩

/- The writes are all that were ever sent, and one may take effect late; granted is every
   canonical a call returned true for, in this process or an earlier one. -/
structure Hub where
  rows : String → Option String
  writes : List (String × String)
  memory : Memory
  granted : List String

inductive Event where
  | claim (canonical : String)
  | lands (k : Nat)
  | wrote (entry : Nat) (done : Bool)
  | read (entry : Nat) (done : Bool)
  | resume (call : Nat)
  | restart

section Step
variable (sha256Hex : String → String)

def rowKey (slot : String) : String :=
  ATTEST_SLOT_KEY_PREFIX ++ ((sha256Hex slot).take 48).toString

/- The oldest slots are forgotten while there are more than the memory holds. -/
def forgetOldest (limit : Nat) (slots : OrderedMap String Nat) : OrderedMap String Nat :=
  ⟨slots.entries.drop (slots.size - limit),
    slots.nodup.sublist ((List.drop_sublist _ _).map Prod.fst)⟩

def refuseSecondAttestation (m : Memory) (entry : Nat) : Memory :=
  { m with
    refusals := m.refusals + 1
    entries := m.entries.modify entry ({ · with refused := true }) }

def settle (m : Memory) (entry : Nat) (stored : Stored) : Memory :=
  { m with entries := m.entries.modify entry ({ · with stored := stored }) }

/- A call up to its first await. -/
def claimAttestSlot (h : Hub) (canonical : String) : Hub :=
  match attestSlotOf canonical with
  | none => { h with granted := h.granted ++ [canonical] }
  | some slot =>
    let digest := sha256Hex canonical
    let m := h.memory
    match m.slots.get slot with
    | some held =>
      match m.entries[held]? with
      | none => h
      | some entry =>
        if entry.digest ≠ digest then { h with memory := refuseSecondAttestation m held }
        else
          { h with memory :=
            { m with calls := m.calls ++ [some ⟨canonical, slot, digest, held, false⟩] } }
    | none =>
      let entry := m.entries.length
      { h with
        writes := h.writes ++ [(rowKey sha256Hex slot, digest)]
        memory :=
          { m with
            entries := m.entries ++ [⟨slot, digest, .writing, false⟩]
            slots := forgetOldest ATTEST_SLOT_MEMORY (m.slots.set slot entry)
            calls := m.calls ++ [some ⟨canonical, slot, digest, entry, true⟩] } }

/- The insert answered; one that did not may still have been done, or be done later. -/
def afterWrite (h : Hub) (entry : Nat) (done : Bool) : Hub :=
  match h.memory.entries[entry]? with
  | some ⟨slot, digest, .writing, _⟩ =>
    if done then
      { h with
        rows := insertIfAbsent h.rows (rowKey sha256Hex slot) digest
        memory := settle h.memory entry .reading }
    else { h with memory := settle h.memory entry (.settled none) }
  | _ => h

/- An empty value reads as no row. -/
def valueOf (row : Option String) : Option String :=
  match row with
  | some "" => none
  | held => held

def afterRead (h : Hub) (entry : Nat) (done : Bool) : Hub :=
  match h.memory.entries[entry]? with
  | some ⟨slot, _, .reading, _⟩ =>
    let value := if done then valueOf (h.rows (rowKey sha256Hex slot)) else none
    { h with memory := settle h.memory entry (.settled value) }
  | _ => h

def freeSlot (m : Memory) (slot : String) (entry : Nat) : Memory :=
  if m.slots.get slot = some entry then { m with slots := m.slots.erase slot } else m

/- A payload signed before a restart becomes the slot's entry, and refuses this one. -/
def refusePrior (m : Memory) (slot digest : String) : Memory :=
  let prior := m.entries.length
  refuseSecondAttestation
    { m with
      entries := m.entries ++ [⟨slot, digest, .settled (some digest), false⟩]
      slots := m.slots.set slot prior } prior

/- A call behind its await. -/
def resume (h : Hub) (call : Nat) : Hub :=
  match h.memory.calls[call]?.join with
  | none => h
  | some w =>
    match (h.memory.entries[w.entry]?).map Entry.stored with
    | some (.settled stored) =>
      let m := { h.memory with calls := h.memory.calls.set call none }
      if stored = some w.digest then
        { h with memory := m, granted := h.granted ++ [w.canonical] }
      else if !w.made then { h with memory := m }
      else
        match stored with
        | none => { h with memory := freeSlot m w.slot w.entry }
        | some digest => { h with memory := refusePrior (freeSlot m w.slot w.entry) w.slot digest }
    | _ => h

def step (h : Hub) : Event → Hub
  | .claim canonical => claimAttestSlot sha256Hex h canonical
  | .lands k =>
    match h.writes[k]? with
    | none => h
    | some (key, digest) => { h with rows := insertIfAbsent h.rows key digest }
  | .wrote entry done => afterWrite sha256Hex h entry done
  | .read entry done => afterRead sha256Hex h entry done
  | .resume call => resume h call
  | .restart => { h with memory := Memory.empty }

end Step

section Records
variable (sha256Hex : String → String)

def Named (entries : List Entry) (entry : Nat) (slot : String) : Prop :=
  ∃ e, entries[entry]? = some e ∧ e.slot = slot

/- Nothing is settled, awaited or granted but what the row of the slot says. -/
structure Recorded (h : Hub) : Prop where
  settled : ∀ e ∈ h.memory.entries, ∀ digest, e.stored = .settled (some digest) →
    h.rows (rowKey sha256Hex e.slot) = some digest
  slots : ∀ slot entry, h.memory.slots.get slot = some entry → Named h.memory.entries entry slot
  calls : ∀ w, some w ∈ h.memory.calls → attestSlotOf w.canonical = some w.slot ∧
    w.digest = sha256Hex w.canonical ∧ Named h.memory.entries w.entry w.slot
  granted : ∀ canonical ∈ h.granted, ∀ slot, attestSlotOf canonical = some slot →
    h.rows (rowKey sha256Hex slot) = some (sha256Hex canonical)

variable {sha256Hex} {h : Hub} {entries : List Entry} {entry k : Nat} {slot : String}

theorem Named.modify {f : Entry → Entry} (named : Named entries entry slot)
    (keeps : ∀ e, (f e).slot = e.slot) : Named (entries.modify k f) entry slot := by
  obtain ⟨e, found, same⟩ := named
  by_cases here : k = entry
  · exact ⟨f e, by simp [here, found], (keeps e).trans same⟩
  · exact ⟨e, by simp [here, found], same⟩

theorem Named.push {e : Entry} (named : Named entries entry slot) :
    Named (entries ++ [e]) entry slot := by
  obtain ⟨old, found, same⟩ := named
  have inside : entry < entries.length := (List.getElem?_eq_some_iff.mp found).1
  exact ⟨old, by rw [List.getElem?_append_left inside, found], same⟩

theorem named_last {e : Entry} : Named (entries ++ [e]) entries.length e.slot :=
  ⟨e, by simp, rfl⟩

theorem member_modify {f : Entry → Entry} {e : Entry} (member : e ∈ entries.modify k f) :
    e ∈ entries ∨ ∃ old, entries[k]? = some old ∧ e = f old := by
  obtain ⟨i, found⟩ := List.mem_iff_getElem?.mp member
  rw [List.getElem?_modify] at found
  cases old : entries[i]? with
  | none => simp [old] at found
  | some x =>
    by_cases here : k = i
    · refine Or.inr ⟨x, here ▸ old, ?_⟩
      simpa [old, here] using found.symm
    · refine Or.inl ?_
      have same : x = e := by simpa [old, here] using found
      exact same ▸ List.mem_of_getElem? old

theorem get_forget {limit : Nat} {slots : OrderedMap String Nat}
    (found : (forgetOldest limit slots).get slot = some entry) : slots.get slot = some entry :=
  OrderedMap.get_of_mem (List.mem_of_mem_drop (OrderedMap.mem_of_get found))

theorem get_erase {slots : OrderedMap String Nat} {gone : String}
    (found : (slots.erase gone).get slot = some entry) : slots.get slot = some entry := by
  by_cases same : slot = gone
  · rw [same, OrderedMap.get_erase_same] at found
    cases found
  · rwa [OrderedMap.get_erase_other same] at found

/-- A write of another row, or a late one, takes nothing back. -/
theorem Recorded.insert (recorded : Recorded sha256Hex h) (key digest : String) :
    Recorded sha256Hex { h with rows := insertIfAbsent h.rows key digest } where
  settled e member value stored := insert_keeps (recorded.settled e member value stored)
  slots := recorded.slots
  calls := recorded.calls
  granted canonical member slot here :=
    insert_keeps (recorded.granted canonical member slot here)

theorem Recorded.settle {e : Entry} {stored : Stored} (recorded : Recorded sha256Hex h)
    (found : h.memory.entries[entry]? = some e)
    (holds : ∀ digest, stored = .settled (some digest) →
      h.rows (rowKey sha256Hex e.slot) = some digest) :
    Recorded sha256Hex { h with memory := settle h.memory entry stored } where
  settled x member digest same := by
    rcases member_modify member with old | ⟨old, here, rfl⟩
    · exact recorded.settled x old digest same
    · rw [found] at here
      cases here
      exact holds digest same
  slots slot entry' here := (recorded.slots slot entry' here).modify fun _ => rfl
  calls w member := by
    obtain ⟨claimed, digest, named⟩ := recorded.calls w member
    exact ⟨claimed, digest, named.modify fun _ => rfl⟩
  granted := recorded.granted

theorem Recorded.refuse (recorded : Recorded sha256Hex h) (entry : Nat) :
    Recorded sha256Hex { h with memory := refuseSecondAttestation h.memory entry } where
  settled e member digest stored := by
    rcases member_modify member with old | ⟨old, here, rfl⟩
    · exact recorded.settled e old digest stored
    · exact recorded.settled old (List.mem_of_getElem? here) digest stored
  slots slot entry' here := (recorded.slots slot entry' here).modify fun _ => rfl
  calls w member := by
    obtain ⟨claimed, digest, named⟩ := recorded.calls w member
    exact ⟨claimed, digest, named.modify fun _ => rfl⟩
  granted := recorded.granted

theorem claim_recorded (recorded : Recorded sha256Hex h) (canonical : String) :
    Recorded sha256Hex (claimAttestSlot sha256Hex h canonical) := by
  unfold claimAttestSlot
  cases claimed : attestSlotOf canonical with
  | none =>
    refine ⟨recorded.settled, recorded.slots, recorded.calls, ?_⟩
    intro c member slot here
    rcases List.mem_append.mp member with old | new
    · exact recorded.granted c old slot here
    · rw [List.mem_singleton.mp new, claimed] at here
      cases here
  | some slot =>
    dsimp only
    cases held : h.memory.slots.get slot with
    | some entry =>
      have named := recorded.slots slot entry held
      dsimp only
      split
      · exact recorded
      · split
        · exact recorded.refuse entry
        · refine ⟨recorded.settled, recorded.slots, ?_, recorded.granted⟩
          intro w member
          rcases List.mem_append.mp member with old | new
          · exact recorded.calls w old
          · cases List.mem_singleton.mp new
            exact ⟨claimed, rfl, named⟩
    | none =>
      dsimp only
      refine ⟨?_, ?_, ?_, recorded.granted⟩
      · intro e member digest stored
        rcases List.mem_append.mp member with old | new
        · exact recorded.settled e old digest stored
        · rw [List.mem_singleton.mp new] at stored
          cases stored
      · intro other entry found
        have kept := get_forget found
        by_cases same : other = slot
        · rw [same, OrderedMap.get_set_same] at kept
          cases kept
          exact same ▸ named_last
        · rw [OrderedMap.get_set_other same] at kept
          exact (recorded.slots other entry kept).push
      · intro w member
        rcases List.mem_append.mp member with old | new
        · obtain ⟨text, digest, named⟩ := recorded.calls w old
          exact ⟨text, digest, named.push⟩
        · cases List.mem_singleton.mp new
          exact ⟨claimed, rfl, named_last⟩

theorem write_recorded (recorded : Recorded sha256Hex h) (entry : Nat) (done : Bool) :
    Recorded sha256Hex (afterWrite sha256Hex h entry done) := by
  unfold afterWrite
  split
  · rename_i slot digest refused found
    split
    · have written := recorded.insert (rowKey sha256Hex slot) digest
      exact written.settle found fun _ other => by cases other
    · exact recorded.settle found fun _ other => by cases other
  · exact recorded

theorem value_of_some {row : Option String} {digest : String} (read : valueOf row = some digest) :
    row = some digest := by
  unfold valueOf at read
  split at read
  · cases read
  · exact read

theorem read_recorded (recorded : Recorded sha256Hex h) (entry : Nat) (done : Bool) :
    Recorded sha256Hex (afterRead sha256Hex h entry done) := by
  unfold afterRead
  split
  · rename_i slot digest refused found
    refine recorded.settle found ?_
    intro value same
    simp only [Stored.settled.injEq] at same
    split at same
    · exact value_of_some same
    · cases same
  · exact recorded

theorem Recorded.drop (recorded : Recorded sha256Hex h) (call : Nat) :
    Recorded sha256Hex
      { h with memory := { h.memory with calls := h.memory.calls.set call none } } where
  settled := recorded.settled
  slots := recorded.slots
  calls w member := by
    rcases List.mem_or_eq_of_mem_set member with old | none
    · exact recorded.calls w old
    · cases none
  granted := recorded.granted

theorem Recorded.free (recorded : Recorded sha256Hex h) (slot : String) (entry : Nat) :
    Recorded sha256Hex { h with memory := freeSlot h.memory slot entry } := by
  unfold freeSlot
  split
  · exact ⟨recorded.settled, fun other held here => recorded.slots other held (get_erase here),
      recorded.calls, recorded.granted⟩
  · exact recorded

theorem Recorded.prior {digest : String} (recorded : Recorded sha256Hex h)
    (row : h.rows (rowKey sha256Hex slot) = some digest) :
    Recorded sha256Hex { h with memory := refusePrior h.memory slot digest } := by
  let replaced : Hub :=
    { h with memory :=
      { h.memory with
        entries := h.memory.entries ++ [⟨slot, digest, .settled (some digest), false⟩]
        slots := h.memory.slots.set slot h.memory.entries.length } }
  have kept : Recorded sha256Hex replaced := by
    refine ⟨?_, ?_, ?_, recorded.granted⟩
    · intro e member value settled
      rcases List.mem_append.mp member with old | new
      · exact recorded.settled e old value settled
      · rw [List.mem_singleton.mp new] at settled ⊢
        cases settled
        exact row
    · intro other entry here
      by_cases own : other = slot
      · rw [own, OrderedMap.get_set_same] at here
        cases here
        exact own ▸ named_last
      · rw [OrderedMap.get_set_other own] at here
        exact (recorded.slots other entry here).push
    · intro w member
      obtain ⟨text, digest', named⟩ := recorded.calls w member
      exact ⟨text, digest', named.push⟩
  exact kept.refuse h.memory.entries.length

theorem resume_recorded (recorded : Recorded sha256Hex h) (call : Nat) :
    Recorded sha256Hex (resume h call) := by
  unfold resume
  cases held : h.memory.calls[call]?.join with
  | none => exact recorded
  | some w =>
    dsimp only
    split
    · rename_i stored entryStored
      have awaited := recorded.calls w
        (List.mem_of_getElem? (Option.join_eq_some_iff.mp held))
      obtain ⟨claimed, digest, e, found, same⟩ := awaited
      have read : e.stored = .settled stored := by simpa [found] using entryStored
      have member := List.mem_of_getElem? found
      have dropped := recorded.drop call
      split
      · rename_i agrees
        refine ⟨dropped.settled, dropped.slots, dropped.calls, ?_⟩
        intro c member' slot here
        rcases List.mem_append.mp member' with old | new
        · exact recorded.granted c old slot here
        · rw [List.mem_singleton.mp new] at here ⊢
          rw [claimed] at here
          cases here
          rw [← digest, ← same]
          exact recorded.settled e member w.digest (agrees ▸ read)
      · split
        · exact dropped
        · have freed := dropped.free w.slot w.entry
          cases stored with
          | none => exact freed
          | some value => exact freed.prior (same ▸ recorded.settled e member value read)
    · exact recorded

theorem step_recorded (recorded : Recorded sha256Hex h) (e : Event) :
    Recorded sha256Hex (step sha256Hex h e) := by
  cases e with
  | claim canonical => exact claim_recorded recorded canonical
  | lands k =>
    simp only [step]
    split
    · exact recorded
    · exact recorded.insert _ _
  | wrote entry done => exact write_recorded recorded entry done
  | read entry done => exact read_recorded recorded entry done
  | resume call => exact resume_recorded recorded call
  | restart => exact ⟨by simp [step, Memory.empty], by simp [step, Memory.empty],
      by simp [step, Memory.empty], recorded.granted⟩

end Records

section Runs
variable {sha256Hex : String → String} {h : Hub} {events : List Event}

def claimed : List Event → List String
  | [] => []
  | .claim canonical :: events => canonical :: claimed events
  | _ :: events => claimed events

theorem mem_claimed {canonical : String} :
    canonical ∈ claimed events ↔ .claim canonical ∈ events := by
  induction events with
  | nil => simp [claimed]
  | cons e events ih =>
    cases e <;> simp [claimed, ih]

def Hub.first (rows : String → Option String) : Hub := ⟨rows, [], Memory.empty, []⟩

/- Whatever is granted or awaited was claimed. -/
structure Asked (asked : String → Prop) (h : Hub) : Prop where
  granted : ∀ canonical ∈ h.granted, asked canonical
  calls : ∀ w, some w ∈ h.memory.calls → asked w.canonical

variable {asked : String → Prop}

theorem Asked.same {h' : Hub} (held : Asked asked h) (granted : h'.granted = h.granted)
    (calls : h'.memory.calls = h.memory.calls) : Asked asked h' :=
  ⟨granted ▸ held.granted, calls ▸ held.calls⟩

theorem free_calls (m : Memory) (slot : String) (entry : Nat) :
    (freeSlot m slot entry).calls = m.calls := by
  unfold freeSlot
  split <;> rfl

theorem prior_calls (m : Memory) (slot digest : String) :
    (refusePrior m slot digest).calls = m.calls := rfl

theorem claim_asked (held : Asked asked h) {canonical : String} (new : asked canonical) :
    Asked asked (claimAttestSlot sha256Hex h canonical) := by
  have more {w : Waiting} (call : w.canonical = canonical) :
      ∀ x, some x ∈ h.memory.calls ++ [some w] → asked x.canonical := by
    intro x member
    rcases List.mem_append.mp member with old | fresh
    · exact held.calls x old
    · cases List.mem_singleton.mp fresh
      exact call ▸ new
  unfold claimAttestSlot
  split
  · refine ⟨?_, held.calls⟩
    intro c member
    rcases List.mem_append.mp member with old | fresh
    · exact held.granted c old
    · exact List.mem_singleton.mp fresh ▸ new
  · dsimp only
    split
    · split
      · exact held
      · split
        · exact held.same rfl rfl
        · exact ⟨held.granted, more rfl⟩
    · exact ⟨held.granted, more rfl⟩

theorem resume_asked (held : Asked asked h) (call : Nat) : Asked asked (resume h call) := by
  unfold resume
  cases found : h.memory.calls[call]?.join with
  | none => exact held
  | some w =>
    have own := held.calls w (List.mem_of_getElem? (Option.join_eq_some_iff.mp found))
    have fewer : ∀ x, some x ∈ h.memory.calls.set call none → asked x.canonical := by
      intro x member
      rcases List.mem_or_eq_of_mem_set member with old | none
      · exact held.calls x old
      · cases none
    dsimp only
    split
    · split
      · refine ⟨?_, fewer⟩
        intro c member
        rcases List.mem_append.mp member with old | new
        · exact held.granted c old
        · exact List.mem_singleton.mp new ▸ own
      · split
        · exact ⟨held.granted, fewer⟩
        · split
          · refine ⟨held.granted, ?_⟩
            rw [free_calls]
            exact fewer
          · refine ⟨held.granted, ?_⟩
            rw [prior_calls, free_calls]
            exact fewer
    · exact held

theorem step_asked {e : Event} (held : Asked asked h)
    (new : ∀ canonical, e = .claim canonical → asked canonical) :
    Asked asked (step sha256Hex h e) := by
  cases e with
  | claim canonical => exact claim_asked held (new canonical rfl)
  | lands k =>
    simp only [step]
    split
    · exact held
    · exact held.same rfl rfl
  | wrote entry done =>
    simp only [step, afterWrite]
    split
    · split
      · exact held.same rfl rfl
      · exact held.same rfl rfl
    · exact held
  | read entry done =>
    simp only [step, afterRead]
    split
    · exact held.same rfl rfl
    · exact held
  | resume call => exact resume_asked held call
  | restart => exact ⟨held.granted, by simp [step, Memory.empty]⟩

theorem run_asked (rows : String → Option String) (asked : String → Prop)
    (all : ∀ canonical ∈ claimed events, asked canonical) :
    Asked asked (run (step sha256Hex) (Hub.first rows) events) := by
  have along (h : Hub) (held : Asked asked h) : Asked asked (run (step sha256Hex) h events) := by
    induction events generalizing h with
    | nil => exact held
    | cons e events ih =>
      refine ih ?_ _ ?_
      · intro canonical member
        exact all canonical (mem_claimed.mpr (List.mem_cons_of_mem e (mem_claimed.mp member)))
      · refine step_asked held ?_
        rintro canonical rfl
        exact all canonical (mem_claimed.mpr List.mem_cons_self)
  exact along _ ⟨by simp [Hub.first], by simp [Hub.first, Memory.empty]⟩

theorem run_recorded (rows : String → Option String) (events : List Event) :
    Recorded sha256Hex (run (step sha256Hex) (Hub.first rows) events) :=
  run_preserves (Recorded sha256Hex) (fun _ e recorded => step_recorded recorded e)
    ⟨by simp [Hub.first, Memory.empty], by simp [Hub.first, Memory.empty],
      by simp [Hub.first, Memory.empty], by simp [Hub.first]⟩ events

/-- Of the canonicals of one slot a hub grants at most one, over all its restarts, where the
    digests of what it was asked for do not collide. -/
theorem slot_granted_once (sha256Hex : String → String) (rows : String → Option String)
    (events : List Event)
    (apart : ∀ a ∈ claimed events, ∀ b ∈ claimed events, sha256Hex a = sha256Hex b → a = b)
    (first second slot : String)
    (one : first ∈ (run (step sha256Hex) (Hub.first rows) events).granted)
    (two : second ∈ (run (step sha256Hex) (Hub.first rows) events).granted)
    (slotOne : attestSlotOf first = some slot) (slotTwo : attestSlotOf second = some slot) :
    first = second := by
  have recorded := @run_recorded sha256Hex rows events
  have asked := @run_asked sha256Hex _ rows (· ∈ claimed events) fun _ member => member
  have rowOne := recorded.granted first one slot slotOne
  have rowTwo := recorded.granted second two slot slotTwo
  refine apart first (asked.granted first one) second (asked.granted second two) ?_
  exact Option.some.inj (rowOne.symm.trans rowTwo)

/- Two publishers in one slot. The first record fails, and its retry is made but not read
   before a restart; the next process refuses the other publisher and grants the same one. -/
def failoverRun : List Event :=
  [.claim "EQUIV|r||a", .wrote 0 false, .resume 0, .claim "EQUIV|r||a", .wrote 1 true,
    .claim "EQUIV|r||b", .restart, .claim "EQUIV|r||b", .wrote 0 true, .read 0 true, .resume 0,
    .claim "EQUIV|r||a", .resume 1]

theorem failover_granted_once :
    (run (step id) (Hub.first fun _ => none) failoverRun).granted = ["EQUIV|r||a"] ∧
      ∀ other ∈ (run (step id) (Hub.first fun _ => none) failoverRun).granted,
        attestSlotOf other = some "EQUIV|r||" → "EQUIV|r||a" = other := by
  have granted : (run (step id) (Hub.first fun _ => none) failoverRun).granted =
      ["EQUIV|r||a"] := by decide +kernel
  refine ⟨granted, ?_⟩
  intro other member slot
  exact slot_granted_once id (fun _ => none) failoverRun (fun _ _ _ _ same => same) _ other _
    (by rw [granted]; exact List.mem_singleton_self _) member (by decide +kernel) slot

end Runs
end XChainHub.Anchor.Publisher.AttestSlot
