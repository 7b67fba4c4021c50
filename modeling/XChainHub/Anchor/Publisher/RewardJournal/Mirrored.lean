import XChainHub.Library.GuardedRuns
import XChainHub.Anchor.Publisher.RewardJournal.Queue

/-!
When the journal holds the queue. A write and a delete of one key may be run in either
order unless the delete waits for the write, so what matters is whether a key is queued,
by a deferral or by a restore, while a delete of it is still to be run.
-/
namespace XChainHub.Anchor.Publisher.RewardJournal
open SlotHeap GuardedRuns

section Conditions
variable (cfg : Params) (h : Hub)

def Call.key : Call → Option String
  | .write key _ _ => some key
  | .delete key _ _ => some key
  | .read _ => none

/- A delete of the key that the database has not run. -/
def Call.deletes (key : String) : Call → Bool
  | .delete other _ done => !done && other = key
  | _ => false

def deleting (key : String) : Bool := h.calls.any fun slot => slot.any (Call.deletes key)

def Drain.keys : Drain → List String
  | .restoring _ => []
  | .visiting todo _ => todo.map Prod.fst

/- The keys that the queue, the journal, the calls and the drain name. -/
def known : List String :=
  h.queue.entries.map Prod.fst ++ h.journal.entries.map (fun row => row.2.key) ++
    h.calls.filterMap (fun slot => slot.bind Call.key) ++ (h.drain.map Drain.keys).getD []

/- A key is queued only when no delete of it is outstanding: at a deferral, and at a restore,
   which must also find its row still there. No other key has the key's row name. -/
def Guarded : Event → Prop
  | .defer e _ => deferrable cfg h e = true →
    deleting h e.key = false ∧ ∀ other ∈ known h, journalKey cfg other = journalKey cfg e.key → other = e.key
  | .settle n => ∀ rows, slotAt h.calls n = some (.read (some rows)) →
    ∀ s ∈ rows.filterMap (parseJournalRow cfg), h.queue.has s.1 = false →
      deleting h s.1 = false ∧ h.journal.get (journalKey cfg s.1) = some ⟨s.1, s.2⟩
  | _ => True

instance : (ev : Event) → Decidable (Guarded cfg h ev)
  | .defer e _ => inferInstanceAs (Decidable (deferrable cfg h e = true →
    deleting h e.key = false ∧
      ∀ other ∈ known h, journalKey cfg other = journalKey cfg e.key → other = e.key))
  | .settle n =>
    match found : slotAt h.calls n with
    | some (.read (some rows)) =>
      decidable_of_iff (∀ s ∈ rows.filterMap (parseJournalRow cfg), h.queue.has s.1 = false →
          deleting h s.1 = false ∧ h.journal.get (journalKey cfg s.1) = some ⟨s.1, s.2⟩) (by
        simp [Guarded, found])
    | some (.read none) | some (.write ..) | some (.delete ..) | none =>
      isTrue (by simp [Guarded, found])
  | .ran _ | .drainStart | .drainStep .. | .restart => isTrue trivial

end Conditions

section Invariant
variable (cfg : Params) (h : Hub)

/- A write of the key that the database has not run. -/
def Writing (m : ℕ) (key : String) (e : Entry) : Prop := slotAt h.calls m = some (.write key e false)

def Settled : Prop := ∀ n, slotAt h.calls n = none

structure Mirror : Prop where
  rows : ∀ row ∈ h.journal.entries, row.1 = journalKey cfg row.2.key ∧ row.2.entry.whole = true
  written : ∀ m key e, Writing h m key e → e.whole = true
  held : ∀ key e, h.queue.get key = some e → deleting h key = false ∧
    ((∀ m e', ¬ Writing h m key e') ∧ h.journal.get (journalKey cfg key) = some ⟨key, e⟩ ∨
      ∃ m, Writing h m key e ∧ h.writes.get key = some m)
  single : ∀ m n key e e', Writing h m key e → Writing h n key e' → m = n
  gone : ∀ m key e, Writing h m key e → h.queue.get key = none →
    ∃ d, slotAt h.calls d = some (.delete key (some m) false)
  left : ∀ key s, h.journal.get (journalKey cfg key) = some s → s.key = key → h.queue.get key = none →
    deleting h key = true ∨ h.restored = false ∧
      ∀ n rows, slotAt h.calls n = some (.read (some rows)) → (journalKey cfg key, s) ∈ rows
  names : ∀ key ∈ known h, ∀ other ∈ known h, journalKey cfg key = journalKey cfg other → key = other
  booting : h.restored = false → ∃ n rows, slotAt h.calls n = some (.read rows)
  found : ∀ n rows, slotAt h.calls n = some (.read (some rows)) → (rows.map Prod.fst).Nodup

end Invariant

section Readings
variable {cfg : Params} {h : Hub}

theorem deleting_iff {key : String} :
    deleting h key = true ↔ ∃ d after, slotAt h.calls d = some (.delete key after false) := by
  unfold deleting
  rw [List.any_eq_true]
  constructor
  · rintro ⟨slot, member, hit⟩
    cases slot with
    | none => simp at hit
    | some c =>
      obtain ⟨d, at'⟩ := List.getElem?_of_mem member
      cases c with
      | delete other after done =>
        simp [Call.deletes] at hit
        obtain ⟨rfl, rfl⟩ := hit
        exact ⟨d, after, by simp [slotAt, at']⟩
      | write _ _ _ => simp [Call.deletes] at hit
      | read _ => simp [Call.deletes] at hit
  · rintro ⟨d, after, held⟩
    rw [slotAt, Option.join_eq_some_iff] at held
    exact ⟨_, List.mem_of_getElem? held, by simp [Call.deletes]⟩

theorem mem_known {key : String} :
    key ∈ known h ↔ (∃ e, h.queue.get key = some e) ∨ (∃ row ∈ h.journal.entries, row.2.key = key) ∨
      (∃ n c, slotAt h.calls n = some c ∧ c.key = some key) ∨ ∃ d, h.drain = some d ∧ key ∈ d.keys := by
  unfold known
  rw [List.mem_append, List.mem_append, List.mem_append, or_assoc, or_assoc]
  refine or_congr ?_ (or_congr ?_ (or_congr ?_ ?_))
  · constructor
    · intro member
      obtain ⟨⟨k, e⟩, inside, rfl⟩ := List.mem_map.mp member
      exact ⟨e, OrderedMap.get_of_mem inside⟩
    · rintro ⟨e, found⟩
      exact List.mem_map.mpr ⟨(key, e), OrderedMap.mem_of_get found, rfl⟩
  · exact List.mem_map
  · rw [List.mem_filterMap]
    constructor
    · rintro ⟨slot, member, named⟩
      obtain ⟨c, rfl, own⟩ := Option.bind_eq_some_iff.mp named
      obtain ⟨n, at'⟩ := List.getElem?_of_mem member
      exact ⟨n, c, by simp [slotAt, at'], own⟩
    · rintro ⟨n, c, held, own⟩
      rw [slotAt, Option.join_eq_some_iff] at held
      exact ⟨some c, List.mem_of_getElem? held, by simpa using own⟩
  · cases h.drain with
    | none => simp
    | some d => simp

theorem known_of_queue {key : String} {e : Entry} (held : h.queue.get key = some e) : key ∈ known h :=
  mem_known.mpr (Or.inl ⟨e, held⟩)

theorem known_of_row {row : String × Saved} (member : row ∈ h.journal.entries) : row.2.key ∈ known h :=
  mem_known.mpr (Or.inr (Or.inl ⟨row, member, rfl⟩))

theorem known_of_call {n : ℕ} {c : Call} {key : String} (held : slotAt h.calls n = some c)
    (own : c.key = some key) : key ∈ known h :=
  mem_known.mpr (Or.inr (Or.inr (Or.inl ⟨n, c, held, own⟩)))

end Readings

section Issuing
variable {cfg : Params} {h after : Hub} {c : Call}

theorem deleting_push (grown : after.calls = h.calls ++ [some c]) (key : String) :
    deleting after key = (deleting h key || c.deletes key) := by
  simp [deleting, grown]

theorem writing_push (grown : after.calls = h.calls ++ [some c]) {m : ℕ} {key : String} {e : Entry} :
    Writing after m key e ↔ Writing h m key e ∨ m = h.calls.length ∧ .write key e false = c := by
  rw [Writing, grown, slot_push_iff, Writing]

theorem read_push (grown : after.calls = h.calls ++ [some c]) (silent : ∀ rows, c ≠ .read (some rows))
    {n : ℕ} {rows : List (String × Saved)} (held : slotAt after.calls n = some (.read (some rows))) :
    slotAt h.calls n = some (.read (some rows)) := by
  rw [grown] at held
  rcases slot_push_iff.mp held with old | ⟨-, new⟩
  · exact old
  · exact absurd new.symm (silent rows)

/-- What a call, the queue and the drain name after a step is known of before it. -/
theorem known_push (grown : after.calls = h.calls ++ [some c]) (journal : after.journal = h.journal)
    (queue : ∀ key e, after.queue.get key = some e → key ∈ known h)
    (drain : ∀ d, after.drain = some d → ∀ key ∈ d.keys, key ∈ known h)
    (own : ∀ key, c.key = some key → key ∈ known h) : ∀ key ∈ known after, key ∈ known h := by
  intro key member
  rcases mem_known.mp member with ⟨e, held⟩ | ⟨row, inside, rfl⟩ | ⟨n, d, held, named⟩ | ⟨d, going, inside⟩
  · exact queue key e held
  · rw [journal] at inside
    exact known_of_row inside
  · rw [grown] at held
    rcases slot_push_iff.mp held with old | ⟨-, rfl⟩
    · exact known_of_call old named
    · exact own key named
  · exact drain d going key inside

theorem Mirror.names_of (mirror : Mirror cfg h) (sub : ∀ key ∈ known after, key ∈ known h) :
    ∀ key ∈ known after, ∀ other ∈ known after, journalKey cfg key = journalKey cfg other → key = other :=
  fun key own other own' => mirror.names key (sub key own) other (sub other own')

/-- The queue drops a known key, and its row goes after its write. -/
theorem mirror_drop (mirror : Mirror cfg h) {key : String} (own : key ∈ known h) :
    Mirror cfg (dropDeferredRewardAttest h key) := by
  have grown : (dropDeferredRewardAttest h key).calls =
      h.calls ++ [some (.delete key (h.writes.get key) false)] := rfl
  have deletes : ∀ k, deleting (dropDeferredRewardAttest h key) k =
      (deleting h k || decide (key = k)) := fun k => by
    rw [deleting_push grown]
    simp [Call.deletes]
  have writing : ∀ m k e, Writing (dropDeferredRewardAttest h key) m k e ↔ Writing h m k e := by
    intro m k e
    rw [writing_push grown]
    simp
  have queue : ∀ k e, (dropDeferredRewardAttest h key).queue.get k = some e →
      k ≠ key ∧ h.queue.get k = some e := by
    intro k e held
    by_cases same : k = key
    · rw [same] at held
      simp [dropDeferredRewardAttest, Hub.issue] at held
    · refine ⟨same, ?_⟩
      rw [← held]
      exact (OrderedMap.get_erase_other same).symm
  refine ⟨mirror.rows, ?_, ?_, ?_, ?_, ?_, ?_, ?_, ?_⟩
  · exact fun m k e pending => mirror.written m k e ((writing m k e).mp pending)
  · intro k e held
    obtain ⟨apart, held'⟩ := queue k e held
    obtain ⟨calm, state⟩ := mirror.held k e held'
    refine ⟨by rw [deletes, calm]; simpa using Ne.symm apart, ?_⟩
    rcases state with ⟨none', stored⟩ | ⟨m, pending, last⟩
    · exact Or.inl ⟨fun m e' pending => none' m e' ((writing m k e').mp pending), stored⟩
    · refine Or.inr ⟨m, (writing m k e).mpr pending, ?_⟩
      rw [← last]
      exact OrderedMap.get_erase_other apart
  · exact fun m n k e e' first second =>
      mirror.single m n k e e' ((writing m k e).mp first) ((writing n k e').mp second)
  · intro m k e pending absent
    have pending' := (writing m k e).mp pending
    cases held : h.queue.get k with
    | none =>
      obtain ⟨d, covers⟩ := mirror.gone m k e pending' held
      exact ⟨d, by rw [grown]; exact slot_push_old covers⟩
    | some e' =>
      have same : k = key := by
        by_contra apart
        have kept : (dropDeferredRewardAttest h key).queue.get k = h.queue.get k :=
          OrderedMap.get_erase_other apart
        rw [kept, held] at absent
        cases absent
      rcases (mirror.held k e' held).2 with ⟨none', -⟩ | ⟨n, last, tracked⟩
      · exact absurd pending' (none' m e)
      · refine ⟨h.calls.length, ?_⟩
        rw [grown, slot_push_iff]
        refine Or.inr ⟨rfl, ?_⟩
        rw [← same, tracked, mirror.single m n k e e' pending' last]
  · intro k s stored named absent
    by_cases same : key = k
    · exact Or.inl (by rw [deletes]; simp [same])
    · have kept : (dropDeferredRewardAttest h key).queue.get k = h.queue.get k :=
        OrderedMap.get_erase_other (Ne.symm same)
      rw [kept] at absent
      rcases mirror.left k s stored named absent with gone | ⟨boot, found⟩
      · exact Or.inl (by rw [deletes, gone]; rfl)
      · exact Or.inr ⟨boot, fun n rows held => found n rows (read_push grown (by simp) held)⟩
  · refine mirror.names_of (known_push grown rfl ?_ ?_ ?_)
    · exact fun k e held => known_of_queue (queue k e held).2
    · exact fun d going k inside => mem_known.mpr (Or.inr (Or.inr (Or.inr ⟨d, going, inside⟩)))
    · rintro k named
      rw [← Option.some.inj named]
      exact own
  · intro boot
    obtain ⟨n, rows, held⟩ := mirror.booting boot
    exact ⟨n, rows, by rw [grown]; exact slot_push_old held⟩
  · exact fun n rows held => mirror.found n rows (read_push grown (by simp) held)

/-- A key that nothing deletes is queued, and its row is written. -/
theorem mirror_queue (mirror : Mirror cfg h) {key : String} {e : Entry} (whole : e.whole = true)
    (absent : h.queue.get key = none) (calm : deleting h key = false)
    (alone : ∀ other ∈ known h, journalKey cfg other = journalKey cfg key → other = key) :
    Mirror cfg (persistDeferredRewardAttest { h with queue := h.queue.set key e } key e) := by
  generalize queued : persistDeferredRewardAttest { h with queue := h.queue.set key e } key e = after
  have grown : after.calls = h.calls ++ [some (.write key e false)] := by rw [← queued]; rfl
  have journal : after.journal = h.journal := by rw [← queued]; rfl
  have restored : after.restored = h.restored := by rw [← queued]; rfl
  have own : after.queue.get key = some e := by
    rw [← queued]
    exact OrderedMap.get_set_same ..
  have other : ∀ k, k ≠ key → after.queue.get k = h.queue.get k := by
    intro k apart
    rw [← queued]
    exact OrderedMap.get_set_other apart
  have deletes : ∀ k, deleting after k = deleting h k := fun k => by
    rw [deleting_push grown]
    simp [Call.deletes]
  have idle : ∀ m e', ¬ Writing h m key e' := by
    intro m e' pending
    have covered := deleting_iff.mpr (by
      obtain ⟨d, covers⟩ := mirror.gone m key e' pending absent
      exact ⟨d, _, covers⟩)
    rw [calm] at covered
    cases covered
  have writing : ∀ m k e', Writing after m k e' →
      Writing h m k e' ∧ k ≠ key ∨ m = h.calls.length ∧ k = key ∧ e' = e := by
    intro m k e' pending
    rcases (writing_push grown).mp pending with old | ⟨last, new⟩
    · refine Or.inl ⟨old, fun same => idle m e' (same ▸ old)⟩
    · cases new
      exact Or.inr ⟨last, rfl, rfl⟩
  refine ⟨?_, ?_, ?_, ?_, ?_, ?_, ?_, ?_, ?_⟩
  · rw [journal]
    exact mirror.rows
  · intro m k e' pending
    rcases writing m k e' pending with ⟨old, -⟩ | ⟨-, -, rfl⟩
    · exact mirror.written m k e' old
    · exact whole
  · intro k e' held
    rw [deletes, journal]
    by_cases same : k = key
    · rw [same, own, Option.some.injEq] at held
      rw [same, ← held]
      refine ⟨calm, Or.inr ⟨h.calls.length, (writing_push grown).mpr (Or.inr ⟨rfl, rfl⟩), ?_⟩⟩
      rw [← queued]
      exact OrderedMap.get_set_same ..
    · rw [other k same] at held
      obtain ⟨quiet, state⟩ := mirror.held k e' held
      refine ⟨quiet, state.imp ?_ ?_⟩
      · rintro ⟨none', stored⟩
        refine ⟨fun m e'' pending => ?_, stored⟩
        rcases writing m k e'' pending with ⟨old, -⟩ | ⟨-, named, -⟩
        · exact none' m e'' old
        · exact same named
      · rintro ⟨m, pending, last⟩
        refine ⟨m, (writing_push grown).mpr (Or.inl pending), ?_⟩
        rw [← last, ← queued]
        exact OrderedMap.get_set_other same
  · intro m n k e₁ e₂ first second
    rcases writing m k e₁ first with ⟨old, apart⟩ | ⟨last, same, -⟩
    · rcases writing n k e₂ second with ⟨old', -⟩ | ⟨-, same, -⟩
      · exact mirror.single m n k e₁ e₂ old old'
      · exact absurd same apart
    · rcases writing n k e₂ second with ⟨-, apart⟩ | ⟨last', -, -⟩
      · exact absurd same apart
      · rw [last, last']
  · intro m k e' pending gone
    rcases writing m k e' pending with ⟨old, apart⟩ | ⟨-, same, -⟩
    · rw [other k apart] at gone
      obtain ⟨d, covers⟩ := mirror.gone m k e' old gone
      exact ⟨d, by rw [grown]; exact slot_push_old covers⟩
    · rw [same, own] at gone
      cases gone
  · intro k s stored named gone
    rw [journal] at stored
    have apart : k ≠ key := by
      rintro rfl
      rw [own] at gone
      cases gone
    rw [other k apart] at gone
    rw [deletes, restored]
    refine (mirror.left k s stored named gone).imp id ?_
    rintro ⟨boot, found⟩
    exact ⟨boot, fun n rows held => found n rows (read_push grown (by simp) held)⟩
  · have sub : ∀ k ∈ known after, k ∈ known h ∨ k = key := by
      intro k member
      rcases mem_known.mp member with ⟨e', held⟩ | ⟨row, inside, rfl⟩ | ⟨n, c, held, named⟩ | ⟨d, going, inside⟩
      · by_cases same : k = key
        · exact Or.inr same
        · rw [other k same] at held
          exact Or.inl (known_of_queue held)
      · rw [journal] at inside
        exact Or.inl (known_of_row inside)
      · rw [grown] at held
        rcases slot_push_iff.mp held with old | ⟨-, rfl⟩
        · exact Or.inl (known_of_call old named)
        · exact Or.inr (Option.some.inj named).symm
      · rw [← queued] at going
        exact Or.inl (mem_known.mpr (Or.inr (Or.inr (Or.inr ⟨d, going, inside⟩))))
    intro k₁ first k₂ second same
    rcases sub k₁ first with old | rfl
    · rcases sub k₂ second with old' | rfl
      · exact mirror.names k₁ old k₂ old' same
      · exact alone k₁ old same
    · rcases sub k₂ second with old' | rfl
      · exact (alone k₂ old' same.symm).symm
      · rfl
  · intro boot
    rw [restored] at boot
    obtain ⟨n, rows, held⟩ := mirror.booting boot
    exact ⟨n, rows, by rw [grown]; exact slot_push_old held⟩
  · exact fun n rows held => mirror.found n rows (read_push grown (by simp) held)

theorem mirror_defer (mirror : Mirror cfg h) (e : Entry) (now : ℤ)
    (guarded : Guarded cfg h (.defer e now)) : Mirror cfg (deferRewardAttestation cfg h e now) := by
  unfold deferRewardAttestation
  split
  · rename_i takes
    obtain ⟨calm, alone⟩ := guarded takes
    unfold deferrable at takes
    rw [Bool.and_eq_true, Bool.and_eq_true] at takes
    obtain ⟨⟨-, whole⟩, unheld⟩ := takes
    have absent : h.queue.get e.key = none := by
      simpa [OrderedMap.has] using unheld
    dsimp only
    have room : Mirror cfg (makeRoom cfg h) ∧ (makeRoom cfg h).queue.get e.key = none ∧
        deleting (makeRoom cfg h) e.key = false ∧ ∀ k ∈ known (makeRoom cfg h), k ∈ known h := by
      unfold makeRoom
      split
      · split
        · exact ⟨mirror, absent, calm, fun _ member => member⟩
        · rename_i oldest _ entries
          have inside : oldest ∈ h.queue.entries := by
            rw [entries]
            exact List.mem_cons_self
          have held : h.queue.get oldest.1 = some oldest.2 := OrderedMap.get_of_mem inside
          have apart : oldest.1 ≠ e.key := by
            intro same
            rw [same, absent] at held
            cases held
          have grown : (dropDeferredRewardAttest h oldest.1).calls =
              h.calls ++ [some (.delete oldest.1 (h.writes.get oldest.1) false)] := rfl
          refine ⟨mirror_drop mirror (known_of_queue held), ?_, ?_, ?_⟩
          · exact (OrderedMap.get_erase_other apart.symm).trans absent
          · rw [deleting_push grown, calm]
            simpa [Call.deletes] using apart
          · refine known_push grown rfl ?_ ?_ ?_
            · intro k e' kept
              by_cases same : k = oldest.1
              · rw [same]
                exact known_of_queue held
              · exact known_of_queue ((OrderedMap.get_erase_other same).symm.trans kept)
            · exact fun d going k inside => mem_known.mpr (Or.inr (Or.inr (Or.inr ⟨d, going, inside⟩)))
            · rintro k named
              rw [← Option.some.inj named]
              exact known_of_queue held
      · exact ⟨mirror, absent, calm, fun _ member => member⟩
    obtain ⟨roomy, absent', calm', sub⟩ := room
    exact mirror_queue roomy whole absent' calm' fun other own same => alone other (sub other own) same
  · exact mirror

end Issuing

section Running
variable {cfg : Params} {h : Hub} {n : ℕ} {c : Call} {x : Option Call}

/- A call that the database has run, or that writes and deletes nothing. -/
def Call.inert : Call → Bool
  | .write _ _ done => done
  | .delete _ _ done => done
  | .read _ => true

theorem moved_slot (held : slotAt h.calls n = some c) (inert : ∀ c' ∈ x, c'.inert = true) {m : ℕ} {b : Call}
    (open' : b.inert = false) :
    slotAt (h.calls.set n x) m = some b ↔ m ≠ n ∧ slotAt h.calls m = some b := by
  constructor
  · intro found
    rcases slot_set_cases held found with ⟨-, same⟩ | old
    · have ended := inert b same
      rw [open'] at ended
      cases ended
    · exact old
  · rintro ⟨apart, old⟩
    rw [slot_set_other apart]
    exact old

theorem writing_kept {after : Hub} (held : slotAt h.calls n = some c) (inert : ∀ c' ∈ x, c'.inert = true)
    (other : ∀ k e, c ≠ .write k e false) (calls : after.calls = h.calls.set n x) (m : ℕ) (k : String)
    (e : Entry) : Writing after m k e ↔ Writing h m k e := by
  unfold Writing
  rw [calls, moved_slot held inert rfl]
  refine and_iff_right_of_imp fun pending same => ?_
  rw [same, held, Option.some.injEq] at pending
  exact other k e pending

theorem delete_apart (held : slotAt h.calls n = some c) (other : ∀ k a, c ≠ .delete k a false) (d : ℕ)
    (k : String) (a : Option ℕ) (found : slotAt h.calls d = some (.delete k a false)) : d ≠ n := by
  rintro rfl
  rw [held, Option.some.injEq] at found
  exact other k a found

theorem deleting_kept {after : Hub} (held : slotAt h.calls n = some c)
    (inert : ∀ c' ∈ x, c'.inert = true) (other : ∀ k a, c ≠ .delete k a false)
    (calls : after.calls = h.calls.set n x) (k : String) : deleting after k = deleting h k := by
  rw [Bool.eq_iff_iff, deleting_iff, deleting_iff, calls]
  refine exists_congr fun d => exists_congr fun a => ?_
  rw [moved_slot held inert rfl]
  exact and_iff_right_of_imp fun found => delete_apart held other d k a found

theorem read_kept {after : Hub} (held : slotAt h.calls n = some c) (calls : after.calls = h.calls.set n x)
    (silent : ∀ rows, x ≠ some (.read (some rows))) (m : ℕ) (rows : List (String × Saved))
    (at' : slotAt after.calls m = some (.read (some rows))) :
    slotAt h.calls m = some (.read (some rows)) := by
  rw [calls] at at'
  rcases slot_set_cases held at' with ⟨-, same⟩ | ⟨-, old⟩
  · exact absurd same (silent rows)
  · exact old

theorem known_moved (held : slotAt h.calls n = some c)
    (own : ∀ c' ∈ x, ∀ key, c'.key = some key → c.key = some key) :
    ∀ key ∈ known { h with calls := h.calls.set n x }, key ∈ known h := by
  intro key member
  rcases mem_known.mp member with queued | row | ⟨m, c', at', named⟩ | draining
  · exact mem_known.mpr (Or.inl queued)
  · exact mem_known.mpr (Or.inr (Or.inl row))
  · rcases slot_set_cases held at' with ⟨-, same⟩ | ⟨-, old⟩
    · exact known_of_call held (own c' same key named)
    · exact known_of_call old named
  · exact mem_known.mpr (Or.inr (Or.inr (Or.inr draining)))

/-- A call moves on that neither writes nor deletes. -/
theorem mirror_move (mirror : Mirror cfg h) (held : slotAt h.calls n = some c) (quiet : c.inert = true)
    (inert : ∀ c' ∈ x, c'.inert = true) (own : ∀ c' ∈ x, ∀ key, c'.key = some key → c.key = some key)
    (reads : ∀ rows, x = some (.read (some rows)) → rows = h.journal.entries)
    (boots : ∀ rows, c = .read rows → ∃ rows', x = some (.read rows')) :
    Mirror cfg { h with calls := h.calls.set n x } := by
  have other : ∀ b : Call, b.inert = false → c ≠ b := by
    rintro b pending rfl
    rw [quiet] at pending
    cases pending
  have writing : ∀ m key e, Writing { h with calls := h.calls.set n x } m key e ↔ Writing h m key e :=
    writing_kept held inert (fun _ _ => other _ rfl) rfl
  have stays := delete_apart held (fun _ _ => other _ rfl)
  have deletes : ∀ key, deleting { h with calls := h.calls.set n x } key = deleting h key :=
    deleting_kept held inert (fun _ _ => other _ rfl) rfl
  refine ⟨mirror.rows, ?_, ?_, ?_, ?_, ?_, mirror.names_of (known_moved held own), ?_, ?_⟩
  · exact fun m key e pending => mirror.written m key e ((writing m key e).mp pending)
  · intro key e queued
    rw [deletes]
    obtain ⟨calm, state⟩ := mirror.held key e queued
    refine ⟨calm, state.imp ?_ ?_⟩
    · rintro ⟨none', stored⟩
      exact ⟨fun m e' pending => none' m e' ((writing m key e').mp pending), stored⟩
    · rintro ⟨m, pending, last⟩
      exact ⟨m, (writing m key e).mpr pending, last⟩
  · exact fun a b key e e' first second =>
      mirror.single a b key e e' ((writing a key e).mp first) ((writing b key e').mp second)
  · intro m key e pending absent
    obtain ⟨d, covers⟩ := mirror.gone m key e ((writing m key e).mp pending) absent
    exact ⟨d, (moved_slot held inert rfl).mpr ⟨stays d key _ covers, covers⟩⟩
  · intro key s stored named absent
    rw [deletes]
    refine (mirror.left key s stored named absent).imp id ?_
    rintro ⟨boot, found⟩
    refine ⟨boot, fun m rows at' => ?_⟩
    rcases slot_set_cases held at' with ⟨-, same⟩ | ⟨-, old⟩
    · rw [reads rows same]
      exact OrderedMap.mem_of_get stored
    · exact found m rows old
  · intro boot
    obtain ⟨m, rows, at'⟩ := mirror.booting boot
    by_cases same : m = n
    · rw [same, held, Option.some.injEq] at at'
      obtain ⟨rows', new⟩ := boots rows at'
      exact ⟨n, rows', (slot_set_same held).trans new⟩
    · exact ⟨m, rows, (slot_set_other same).trans at'⟩
  · intro m rows at'
    rcases slot_set_cases held at' with ⟨-, same⟩ | ⟨-, old⟩
    · rw [reads rows same]
      exact h.journal.nodup
    · exact mirror.found m rows old

/-- The database runs a write. -/
theorem mirror_write (mirror : Mirror cfg h) {key : String} {e : Entry}
    (held : slotAt h.calls n = some (.write key e false)) :
    Mirror cfg
      { h with
        journal := h.journal.set (journalKey cfg key) ⟨key, e⟩
        calls := h.calls.set n (some (.write key e true)) } := by
  generalize made : ({ h with
        journal := h.journal.set (journalKey cfg key) ⟨key, e⟩
        calls := h.calls.set n (some (.write key e true)) } : Hub) = after
  have calls : after.calls = h.calls.set n (some (.write key e true)) := by rw [← made]
  have queue : after.queue = h.queue := by rw [← made]
  have restored : after.restored = h.restored := by rw [← made]
  have inert : ∀ c' ∈ some (Call.write key e true), c'.inert = true := by
    rintro c' ⟨⟩
    rfl
  have own : key ∈ known h := known_of_call held rfl
  have stored : after.journal.get (journalKey cfg key) = some ⟨key, e⟩ := by
    rw [← made]
    exact OrderedMap.get_set_same ..
  have others : ∀ k ∈ known h, k ≠ key →
      after.journal.get (journalKey cfg k) = h.journal.get (journalKey cfg k) := by
    intro k known' apart
    rw [← made]
    exact OrderedMap.get_set_other fun same => apart (mirror.names k known' key own same)
  have writing : ∀ m k e', Writing after m k e' ↔ m ≠ n ∧ Writing h m k e' := by
    intro m k e'
    unfold Writing
    rw [calls]
    exact moved_slot held inert rfl
  have alone : ∀ m e', ¬ Writing after m key e' := by
    intro m e' pending
    obtain ⟨apart, old⟩ := (writing m key e').mp pending
    exact apart (mirror.single m n key e' e old held)
  have stays := delete_apart held (by simp)
  have deletes := deleting_kept held inert (by simp) calls
  have reads := read_kept held calls (by simp)
  refine ⟨?_, ?_, ?_, ?_, ?_, ?_, ?_, ?_, ?_⟩
  · intro row member
    rw [← made] at member
    rcases OrderedMap.mem_set member with ⟨name, value⟩ | ⟨-, old⟩
    · rw [name, value]
      exact ⟨rfl, mirror.written n key e held⟩
    · exact mirror.rows row old
  · exact fun m k e' pending => mirror.written m k e' ((writing m k e').mp pending).2
  · intro k e' queued
    rw [queue] at queued
    rw [deletes]
    obtain ⟨calm, state⟩ := mirror.held k e' queued
    refine ⟨calm, ?_⟩
    by_cases same : k = key
    · subst same
      refine Or.inl ⟨alone, ?_⟩
      rcases state with ⟨none', -⟩ | ⟨m, pending, -⟩
      · exact absurd held (none' n e)
      · have last := mirror.single m n k e' e pending held
        subst last
        rw [Writing, held, Option.some.injEq, Call.write.injEq] at pending
        rw [stored, pending.2.1]
    · refine state.imp ?_ ?_
      · rintro ⟨none', kept⟩
        refine ⟨fun m e'' pending => none' m e'' ((writing m k e'').mp pending).2, ?_⟩
        rw [others k (known_of_queue queued) same]
        exact kept
      · rintro ⟨m, pending, last⟩
        refine ⟨m, (writing m k e').mpr ⟨?_, pending⟩, by rw [← made]; exact last⟩
        rintro rfl
        rw [Writing, held, Option.some.injEq, Call.write.injEq] at pending
        exact same pending.1.symm
  · exact fun a b k e₁ e₂ first second =>
      mirror.single a b k e₁ e₂ ((writing a k e₁).mp first).2 ((writing b k e₂).mp second).2
  · intro m k e' pending absent
    rw [queue] at absent
    obtain ⟨d, covers⟩ := mirror.gone m k e' ((writing m k e').mp pending).2 absent
    refine ⟨d, ?_⟩
    rw [calls]
    exact (moved_slot held inert rfl).mpr ⟨stays d k _ covers, covers⟩
  · intro k s found named absent
    rw [queue] at absent
    rw [deletes, restored]
    by_cases same : k = key
    · subst same
      obtain ⟨d, covers⟩ := mirror.gone n k e held absent
      exact Or.inl (deleting_iff.mpr ⟨d, _, covers⟩)
    · by_cases row : journalKey cfg k = journalKey cfg key
      · rw [row, stored, Option.some.injEq] at found
        rw [← found] at named
        exact absurd named.symm same
      · have old : h.journal.get (journalKey cfg k) = some s := by
          rw [← found, ← made]
          exact (OrderedMap.get_set_other row).symm
        refine (mirror.left k s old named absent).imp id ?_
        rintro ⟨boot, read⟩
        exact ⟨boot, fun m rows at' => read m rows (reads m rows at')⟩
  · refine mirror.names_of fun k member => ?_
    rcases mem_known.mp member with ⟨e', queued⟩ | ⟨row, inside, rfl⟩ | ⟨m, c', at', named⟩ | ⟨d, going, inside⟩
    · rw [queue] at queued
      exact known_of_queue queued
    · rw [← made] at inside
      rcases OrderedMap.mem_set inside with ⟨-, value⟩ | ⟨-, old⟩
      · rw [value]
        exact own
      · exact known_of_row old
    · rw [calls] at at'
      rcases slot_set_cases held at' with ⟨-, same⟩ | ⟨-, old⟩
      · rw [← Option.some.inj same] at named
        rw [← Option.some.inj named]
        exact own
      · exact known_of_call old named
    · rw [← made] at going
      exact mem_known.mpr (Or.inr (Or.inr (Or.inr ⟨d, going, inside⟩)))
  · intro boot
    rw [restored] at boot
    obtain ⟨m, rows, at'⟩ := mirror.booting boot
    refine ⟨m, rows, ?_⟩
    rw [calls, slot_set_other]
    · exact at'
    · rintro rfl
      rw [held] at at'
      cases at'
  · exact fun m rows at' => mirror.found m rows (reads m rows at')

/-- The database runs a delete whose write has settled. -/
theorem mirror_delete (mirror : Mirror cfg h) {key : String} {awaited : Option ℕ}
    (held : slotAt h.calls n = some (.delete key awaited false))
    (out : ∀ m ∈ awaited, slotAt h.calls m = none) :
    Mirror cfg
      { h with
        journal := h.journal.erase (journalKey cfg key)
        calls := h.calls.set n (some (.delete key awaited true)) } := by
  generalize made : ({ h with
        journal := h.journal.erase (journalKey cfg key)
        calls := h.calls.set n (some (.delete key awaited true)) } : Hub) = after
  have calls : after.calls = h.calls.set n (some (.delete key awaited true)) := by rw [← made]
  have queue : after.queue = h.queue := by rw [← made]
  have restored : after.restored = h.restored := by rw [← made]
  have inert : ∀ c' ∈ some (Call.delete key awaited true), c'.inert = true := by
    rintro c' ⟨⟩
    rfl
  have own : key ∈ known h := known_of_call held rfl
  have going : deleting h key = true := deleting_iff.mpr ⟨n, awaited, held⟩
  have others : ∀ k ∈ known h, k ≠ key →
      after.journal.get (journalKey cfg k) = h.journal.get (journalKey cfg k) := by
    intro k known' apart
    rw [← made]
    exact OrderedMap.get_erase_other fun same => apart (mirror.names k known' key own same)
  have writing := writing_kept held inert (by simp) calls
  have fewer : ∀ k, deleting h k = false → deleting after k = false := by
    intro k calm
    by_contra still
    rw [Bool.not_eq_false, deleting_iff, calls] at still
    obtain ⟨d, a, at'⟩ := still
    have old := ((moved_slot held inert rfl).mp at').2
    rw [deleting_iff.mpr ⟨d, a, old⟩] at calm
    cases calm
  have reads := read_kept held calls (by simp)
  refine ⟨?_, ?_, ?_, ?_, ?_, ?_, ?_, ?_, ?_⟩
  · intro row member
    rw [← made] at member
    exact mirror.rows row (List.mem_of_mem_filter member)
  · exact fun m k e pending => mirror.written m k e ((writing m k e).mp pending)
  · intro k e queued
    rw [queue] at queued
    obtain ⟨calm, state⟩ := mirror.held k e queued
    have apart : k ≠ key := by
      rintro rfl
      rw [going] at calm
      cases calm
    refine ⟨fewer k calm, state.imp ?_ ?_⟩
    · rintro ⟨none', kept⟩
      refine ⟨fun m e' pending => none' m e' ((writing m k e').mp pending), ?_⟩
      rw [others k (known_of_queue queued) apart]
      exact kept
    · rintro ⟨m, pending, last⟩
      exact ⟨m, (writing m k e).mpr pending, by rw [← made]; exact last⟩
  · exact fun a b k e e' first second =>
      mirror.single a b k e e' ((writing a k e).mp first) ((writing b k e').mp second)
  · intro m k e pending absent
    rw [queue] at absent
    have pending' := (writing m k e).mp pending
    obtain ⟨d, covers⟩ := mirror.gone m k e pending' absent
    refine ⟨d, ?_⟩
    rw [calls]
    refine (moved_slot held inert rfl).mpr ⟨?_, covers⟩
    rintro rfl
    rw [held, Option.some.injEq, Call.delete.injEq] at covers
    rw [Writing, out m covers.2.1] at pending'
    cases pending'
  · intro k s found named absent
    rw [queue] at absent
    rw [restored]
    have row : journalKey cfg k ≠ journalKey cfg key := by
      intro same
      rw [same, ← made, OrderedMap.get_erase_same] at found
      cases found
    have old : h.journal.get (journalKey cfg k) = some s := by
      rw [← found, ← made]
      exact (OrderedMap.get_erase_other row).symm
    rcases mirror.left k s old named absent with gone | ⟨boot, read⟩
    · obtain ⟨d, a, covers⟩ := deleting_iff.mp gone
      refine Or.inl (deleting_iff.mpr ⟨d, a, ?_⟩)
      rw [calls]
      refine (moved_slot held inert rfl).mpr ⟨?_, covers⟩
      rintro rfl
      rw [held, Option.some.injEq, Call.delete.injEq] at covers
      exact row (by rw [covers.1])
    · exact Or.inr ⟨boot, fun m rows at' => read m rows (reads m rows at')⟩
  · refine mirror.names_of fun k member => ?_
    rcases mem_known.mp member with ⟨e, queued⟩ | ⟨row, inside, rfl⟩ | ⟨m, c', at', named⟩ | ⟨d, drains, inside⟩
    · rw [queue] at queued
      exact known_of_queue queued
    · rw [← made] at inside
      exact known_of_row (List.mem_of_mem_filter inside)
    · rw [calls] at at'
      rcases slot_set_cases held at' with ⟨-, same⟩ | ⟨-, old⟩
      · rw [← Option.some.inj same] at named
        rw [← Option.some.inj named]
        exact own
      · exact known_of_call old named
    · rw [← made] at drains
      exact mem_known.mpr (Or.inr (Or.inr (Or.inr ⟨d, drains, inside⟩)))
  · intro boot
    rw [restored] at boot
    obtain ⟨m, rows, at'⟩ := mirror.booting boot
    refine ⟨m, rows, ?_⟩
    rw [calls, slot_set_other]
    · exact at'
    · rintro rfl
      rw [held] at at'
      cases at'
  · exact fun m rows at' => mirror.found m rows (reads m rows at')

theorem mirror_ran (mirror : Mirror cfg h) (n : ℕ) : Mirror cfg (ran cfg h n) := by
  unfold ran
  split
  · rename_i key e held
    exact mirror_write mirror held
  · rename_i key awaited held
    split
    · exact mirror
    · rename_i settled
      refine mirror_delete mirror held fun m waits => ?_
      rw [Option.mem_def] at waits
      rw [waits, Option.any_some, inFlight, Option.not_isSome_iff_eq_none] at settled
      exact settled
  · rename_i held
    refine mirror_move mirror held rfl ?_ ?_ ?_ ?_
    · rintro c' ⟨⟩
      rfl
    · rintro c' ⟨⟩ key named
      exact named
    · intro rows same
      rw [Option.some.injEq, Call.read.injEq, Option.some.injEq] at same
      exact same.symm
    · exact fun rows _ => ⟨_, rfl⟩
  · exact mirror

end Running

section Restoring
variable {cfg : Params} {h : Hub}

theorem fold_set_get {pairs : List (String × Entry)} (distinct : (pairs.map Prod.fst).Nodup) (q : Queue)
    (key : String) (e : Entry) :
    (pairs.foldl (fun q s => q.set s.1 s.2) q).get key = some e ↔
      (key, e) ∈ pairs ∨ key ∉ pairs.map Prod.fst ∧ q.get key = some e := by
  induction pairs generalizing q with
  | nil => simp
  | cons s pairs ih =>
    obtain ⟨new, rest⟩ := List.nodup_cons.mp distinct
    rw [List.foldl_cons, ih rest, List.map_cons, List.mem_cons, List.mem_cons, not_or]
    by_cases same : key = s.1
    · subst same
      have absent : ∀ e', (s.1, e') ∉ pairs := fun e' inside =>
        new (List.mem_map.mpr ⟨(s.1, e'), inside, rfl⟩)
      simp only [OrderedMap.get_set_same, Option.some.injEq]
      constructor
      · rintro (inside | ⟨-, rfl⟩)
        · exact absurd inside (absent e)
        · exact Or.inl (Or.inl rfl)
      · rintro ((own | inside) | ⟨⟨apart, -⟩, -⟩)
        · exact Or.inr ⟨new, by rw [← own]⟩
        · exact absurd inside (absent e)
        · exact absurd trivial apart
    · have other : (key, e) ≠ s := fun own => same (by rw [← own])
      rw [OrderedMap.get_set_other same]
      simp [same, other]

/-- What a restore queues: the entries held, and those of the rows whose key is not. -/
theorem merged_get {queue : Queue} {rows : List (String × Saved)} (distinct : (rows.map Prod.fst).Nodup)
    (key : String) (e : Entry) :
    (merged cfg queue rows).get key = some e ↔ queue.get key = some e ∨
      queue.get key = none ∧ (key, e) ∈ rows.filterMap (parseJournalRow cfg) := by
  have parsed : ((rows.filterMap (parseJournalRow cfg)).map Prod.fst).Nodup := by
    have pairwise : rows.Pairwise fun a b => a.1 ≠ b.1 := List.pairwise_map.mp distinct
    refine List.pairwise_map.mpr (List.Pairwise.filterMap _ ?_ pairwise)
    intro a b apart s first t second same
    unfold parseJournalRow at first second
    split at first
    · cases first
    · rename_i own
      split at first
      · split at second
        · cases second
        · rename_i own'
          split at second
          · cases first
            cases second
            rw [not_not] at own own'
            exact apart (own.symm.trans ((congrArg (journalKey cfg) same).trans own'))
          · cases second
      · cases first
  have absent : ∀ s ∈ (rows.filterMap (parseJournalRow cfg)).filter (fun s => !queue.has s.1),
      queue.get s.1 = none := by
    intro s member
    simpa [OrderedMap.has] using (List.mem_filter.mp member).2
  have all : ((queue.entries ++ (rows.filterMap (parseJournalRow cfg)).filter
      (fun s => !queue.has s.1)).map Prod.fst).Nodup := by
    rw [List.map_append]
    refine List.nodup_append.mpr ⟨queue.nodup, parsed.sublist (List.filter_sublist.map Prod.fst), ?_⟩
    rintro k old k' new rfl
    obtain ⟨s, member, rfl⟩ := List.mem_map.mp new
    obtain ⟨t, inside, same⟩ := List.mem_map.mp old
    have held := absent s member
    rw [← same, OrderedMap.get_of_mem (show (t.1, t.2) ∈ queue.entries from inside)] at held
    cases held
  unfold merged
  dsimp only
  have perm := List.perm_insertionSort (fun a b : String × Entry => a.2.at' ≤ b.2.at')
    (queue.entries ++ (rows.filterMap (parseJournalRow cfg)).filter fun s => !queue.has s.1)
  rw [fold_set_get ((perm.map Prod.fst).nodup_iff.mpr all), perm.mem_iff, List.mem_append, List.mem_filter,
    OrderedMap.get_empty]
  constructor
  · rintro ((old | ⟨saved, new⟩) | ⟨-, empty⟩)
    · exact Or.inl (OrderedMap.get_of_mem old)
    · exact Or.inr ⟨by simpa [OrderedMap.has] using new, saved⟩
    · cases empty
  · rintro (old | ⟨none', saved⟩)
    · exact Or.inl (Or.inl (OrderedMap.mem_of_get old))
    · exact Or.inl (Or.inr ⟨saved, by simp [OrderedMap.has, none']⟩)

/-- A restore queues the rows that are still there, of keys that nothing deletes. -/
theorem mirror_restore (mirror : Mirror cfg h) {n : ℕ} {rows : List (String × Saved)}
    (held : slotAt h.calls n = some (.read (some rows)))
    (guarded : ∀ s ∈ rows.filterMap (parseJournalRow cfg), h.queue.has s.1 = false →
      deleting h s.1 = false ∧ h.journal.get (journalKey cfg s.1) = some ⟨s.1, s.2⟩) :
    Mirror cfg
      { h with queue := merged cfg h.queue rows, restored := true, calls := h.calls.set n none } := by
  generalize made : ({ h with
    queue := merged cfg h.queue rows, restored := true, calls := h.calls.set n none } : Hub) = after
  have calls : after.calls = h.calls.set n none := by rw [← made]
  have journal : after.journal = h.journal := by rw [← made]
  have restored : after.restored = true := by rw [← made]
  have inert : ∀ c' ∈ (none : Option Call), c'.inert = true := by simp
  have queue : ∀ k e, after.queue.get k = some e ↔ h.queue.get k = some e ∨
      h.queue.get k = none ∧ (k, e) ∈ rows.filterMap (parseJournalRow cfg) := by
    intro k e
    rw [← made]
    exact merged_get (mirror.found n rows held) k e
  have unheld : ∀ k, after.queue.get k = none → h.queue.get k = none := by
    intro k absent
    cases old : h.queue.get k with
    | none => rfl
    | some e =>
      rw [(queue k e).mpr (Or.inl old)] at absent
      cases absent
  have writing := writing_kept held inert (by simp) calls
  have stays := delete_apart held (by simp)
  have deletes := deleting_kept held inert (by simp) calls
  have reads := read_kept held calls (by simp)
  have journaled : ∀ k e, (k, e) ∈ rows.filterMap (parseJournalRow cfg) → h.queue.get k = none →
      deleting h k = false ∧ h.journal.get (journalKey cfg k) = some ⟨k, e⟩ :=
    fun k e saved absent => guarded (k, e) saved (by simp [OrderedMap.has, absent])
  refine ⟨?_, ?_, ?_, ?_, ?_, ?_, ?_, ?_, ?_⟩
  · rw [journal]
    exact mirror.rows
  · exact fun m k e pending => mirror.written m k e ((writing m k e).mp pending)
  · intro k e queued
    rw [deletes, journal]
    rcases (queue k e).mp queued with old | ⟨absent, saved⟩
    · obtain ⟨calm, state⟩ := mirror.held k e old
      refine ⟨calm, state.imp ?_ ?_⟩
      · rintro ⟨none', stored⟩
        exact ⟨fun m e' pending => none' m e' ((writing m k e').mp pending), stored⟩
      · rintro ⟨m, pending, last⟩
        exact ⟨m, (writing m k e).mpr pending, by rw [← made]; exact last⟩
    · obtain ⟨calm, stored⟩ := journaled k e saved absent
      refine ⟨calm, Or.inl ⟨fun m e' pending => ?_, stored⟩⟩
      obtain ⟨d, covers⟩ := mirror.gone m k e' ((writing m k e').mp pending) absent
      rw [deleting_iff.mpr ⟨d, _, covers⟩] at calm
      cases calm
  · exact fun a b k e e' first second =>
      mirror.single a b k e e' ((writing a k e).mp first) ((writing b k e').mp second)
  · intro m k e pending absent
    obtain ⟨d, covers⟩ := mirror.gone m k e ((writing m k e).mp pending) (unheld k absent)
    refine ⟨d, ?_⟩
    rw [calls]
    exact (moved_slot held inert rfl).mpr ⟨stays d k _ covers, covers⟩
  · intro k s stored named absent
    rw [journal] at stored
    rw [deletes]
    rcases mirror.left k s stored named (unheld k absent) with gone | ⟨-, found⟩
    · exact Or.inl gone
    · have whole := (mirror.rows _ (OrderedMap.mem_of_get stored)).2
      have saved : (k, s.entry) ∈ rows.filterMap (parseJournalRow cfg) := by
        refine List.mem_filterMap.mpr ⟨_, found n rows held, ?_⟩
        simp [parseJournalRow, named, whole]
      rw [(queue k s.entry).mpr (Or.inr ⟨unheld k absent, saved⟩)] at absent
      cases absent
  · refine mirror.names_of fun k member => ?_
    rcases mem_known.mp member with ⟨e, queued⟩ | ⟨row, inside, rfl⟩ | ⟨m, c', at', named⟩ | ⟨d, drains, inside⟩
    · rcases (queue k e).mp queued with old | ⟨absent, saved⟩
      · exact known_of_queue old
      · exact known_of_row (OrderedMap.mem_of_get (journaled k e saved absent).2)
    · rw [journal] at inside
      exact known_of_row inside
    · rw [calls] at at'
      rcases slot_set_cases held at' with ⟨-, same⟩ | ⟨-, old⟩
      · cases same
      · exact known_of_call old named
    · rw [← made] at drains
      exact mem_known.mpr (Or.inr (Or.inr (Or.inr ⟨d, drains, inside⟩)))
  · intro boot
    rw [restored] at boot
    cases boot
  · exact fun m rs at' => mirror.found m rs (reads m rs at')

theorem mirror_settle (mirror : Mirror cfg h) (n : ℕ) (guarded : Guarded cfg h (.settle n)) :
    Mirror cfg (settle cfg h n) := by
  unfold settle
  split
  · rename_i held
    exact mirror_move mirror held rfl (by simp) (by simp) (by simp) (fun rows same => by cases same)
  · rename_i held
    exact mirror_move mirror held rfl (by simp) (by simp) (by simp) (fun rows same => by cases same)
  · rename_i rows held
    exact mirror_restore mirror held (guarded rows held)
  · exact mirror

end Restoring

section Runs
variable {cfg : Params} {h : Hub}

/-- The drain takes up another part of the queue. -/
theorem mirror_turn (mirror : Mirror cfg h) (drain : Option Drain)
    (own : ∀ d, drain = some d → ∀ key ∈ d.keys, key ∈ known h) : Mirror cfg { h with drain := drain } := by
  obtain ⟨rows, written, held, single, gone, left, names, booting, found⟩ := mirror
  refine ⟨rows, written, held, single, gone, left, ?_, booting, found⟩
  have sub : ∀ key ∈ known { h with drain := drain }, key ∈ known h := by
    intro key member
    rcases mem_known.mp member with queued | row | call | ⟨d, going, inside⟩
    · exact mem_known.mpr (Or.inl queued)
    · exact mem_known.mpr (Or.inr (Or.inl row))
    · exact mem_known.mpr (Or.inr (Or.inr (Or.inl call)))
    · exact own d going key inside
  exact fun key first other second => names key (sub key first) other (sub other second)

/-- Another SELECT goes out. -/
theorem mirror_read (mirror : Mirror cfg h) : Mirror cfg (h.issue (.read none)) := by
  have grown : (h.issue (.read none)).calls = h.calls ++ [some (.read none)] := rfl
  have writing : ∀ m key e, Writing (h.issue (.read none)) m key e ↔ Writing h m key e := by
    intro m key e
    rw [writing_push grown]
    simp
  have deletes : ∀ key, deleting (h.issue (.read none)) key = deleting h key := fun key => by
    rw [deleting_push grown]
    simp [Call.deletes]
  refine ⟨mirror.rows, ?_, ?_, ?_, ?_, ?_, ?_, ?_, ?_⟩
  · exact fun m key e pending => mirror.written m key e ((writing m key e).mp pending)
  · intro key e queued
    rw [deletes]
    obtain ⟨calm, state⟩ := mirror.held key e queued
    refine ⟨calm, state.imp ?_ ?_⟩
    · rintro ⟨none', stored⟩
      exact ⟨fun m e' pending => none' m e' ((writing m key e').mp pending), stored⟩
    · rintro ⟨m, pending, last⟩
      exact ⟨m, (writing m key e).mpr pending, last⟩
  · exact fun a b key e e' first second =>
      mirror.single a b key e e' ((writing a key e).mp first) ((writing b key e').mp second)
  · intro m key e pending absent
    obtain ⟨d, covers⟩ := mirror.gone m key e ((writing m key e).mp pending) absent
    exact ⟨d, slot_push_old covers⟩
  · intro key s stored named absent
    rw [deletes]
    refine (mirror.left key s stored named absent).imp id ?_
    rintro ⟨boot, found⟩
    exact ⟨boot, fun n rows held => found n rows (read_push grown (by simp) held)⟩
  · refine mirror.names_of (known_push grown rfl ?_ ?_ (by simp [Call.key]))
    · exact fun key e queued => known_of_queue queued
    · exact fun d going key inside => mem_known.mpr (Or.inr (Or.inr (Or.inr ⟨d, going, inside⟩)))
  · intro boot
    obtain ⟨n, rows, held⟩ := mirror.booting boot
    exact ⟨n, rows, slot_push_old held⟩
  · exact fun n rows held => mirror.found n rows (read_push grown (by simp) held)

theorem queue_known : ∀ key ∈ (Drain.visiting h.queue.entries none).keys, key ∈ known h := by
  intro key member
  obtain ⟨s, inside, rfl⟩ := List.mem_map.mp member
  exact known_of_queue (OrderedMap.get_of_mem (show (s.1, s.2) ∈ h.queue.entries from inside))

theorem mirror_drain_start (mirror : Mirror cfg h) : Mirror cfg (drainStart h) := by
  unfold drainStart
  split
  · exact mirror
  · split
    · refine mirror_turn mirror _ ?_
      rintro d ⟨⟩
      exact queue_known
    · refine mirror_read (mirror_turn mirror _ ?_)
      rintro d ⟨⟩ key inside
      cases inside

theorem mirror_drain_step (mirror : Mirror cfg h) (now : ℤ) (outcome : Outcome) :
    Mirror cfg (drainStep cfg h now outcome) := by
  unfold drainStep
  split
  · exact mirror
  · split
    · exact mirror
    · refine mirror_turn mirror _ ?_
      rintro d ⟨⟩
      exact queue_known
  · rename_i todo awaits going
    split
    · exact mirror
    · split
      · exact mirror_turn mirror none (by simp)
      · rename_i _ key e rest
        have named : ∀ k ∈ ((key, e) :: rest).map Prod.fst, k ∈ known h := fun k inside =>
          mem_known.mpr (Or.inr (Or.inr (Or.inr ⟨_, going, inside⟩)))
        split
        · have dropped := mirror_drop mirror (named key (by simp))
          refine mirror_turn dropped _ ?_
          rintro d ⟨⟩ k inside
          refine mem_known.mpr (Or.inr (Or.inr (Or.inr ⟨_, going, ?_⟩)))
          exact List.mem_cons_of_mem _ inside
        · refine mirror_turn mirror _ ?_
          rintro d ⟨⟩ k inside
          exact named k (List.mem_cons_of_mem _ inside)

theorem boot_calls {journal : Journal} {n : ℕ} {c : Call} (held : slotAt (Hub.boot journal).calls n = some c) :
    c = .read none := by
  cases n with
  | zero => simpa [Hub.boot, slotAt, eq_comm] using held
  | succ n => simp [Hub.boot, slotAt] at held

/-- A restart keeps the journal alone. -/
theorem mirror_boot {journal : Journal}
    (rows : ∀ row ∈ journal.entries, row.1 = journalKey cfg row.2.key ∧ row.2.entry.whole = true)
    (names : ∀ row ∈ journal.entries, ∀ other ∈ journal.entries,
      journalKey cfg row.2.key = journalKey cfg other.2.key → row.2.key = other.2.key) :
    Mirror cfg (Hub.boot journal) := by
  have own : ∀ key ∈ known (Hub.boot journal), ∃ row ∈ journal.entries, row.2.key = key := by
    intro key member
    rcases mem_known.mp member with ⟨e, queued⟩ | row | ⟨n, c, held, named⟩ | ⟨d, going, -⟩
    · cases queued
    · exact row
    · rw [boot_calls held] at named
      cases named
    · cases going
  refine ⟨rows, ?_, ?_, ?_, ?_, ?_, ?_, ?_, ?_⟩
  · exact fun m key e pending => absurd (boot_calls pending) (by simp)
  · exact fun key e queued => absurd queued (by simp [Hub.boot])
  · exact fun m n key e e' pending => absurd (boot_calls pending) (by simp)
  · exact fun m key e pending => absurd (boot_calls pending) (by simp)
  · exact fun key s _ _ _ => Or.inr ⟨rfl, fun n rs held => absurd (boot_calls held) (by simp)⟩
  · intro key first other second same
    obtain ⟨row, inside, rfl⟩ := own key first
    obtain ⟨row', inside', rfl⟩ := own other second
    exact names row inside row' inside' same
  · exact fun _ => ⟨0, none, rfl⟩
  · exact fun n rs held => absurd (boot_calls held) (by simp)

/-- The step lemma. -/
theorem step_mirror (mirror : Mirror cfg h) {ev : Event} (guarded : Guarded cfg h ev) :
    Mirror cfg (step cfg h ev) := by
  cases ev with
  | defer e now => exact mirror_defer mirror e now guarded
  | ran n => exact mirror_ran mirror n
  | settle n => exact mirror_settle mirror n guarded
  | drainStart => exact mirror_drain_start mirror
  | drainStep now outcome => exact mirror_drain_step mirror now outcome
  | restart =>
    refine mirror_boot mirror.rows fun row inside other inside' same => ?_
    exact mirror.names _ (known_of_row inside) _ (known_of_row inside') same

/-- With no call in flight, the rows are the entries of the queue. -/
theorem Mirror.exact (mirror : Mirror cfg h) (settled : Settled h) (row : String × Saved) :
    row ∈ h.journal.entries ↔
      ∃ key e, h.queue.get key = some e ∧ row = (journalKey cfg key, ⟨key, e⟩) := by
  have stored : ∀ key e, h.queue.get key = some e →
      h.journal.get (journalKey cfg key) = some ⟨key, e⟩ := by
    intro key e queued
    rcases (mirror.held key e queued).2 with ⟨-, stored⟩ | ⟨m, pending, -⟩
    · exact stored
    · rw [Writing, settled m] at pending
      cases pending
  constructor
  · intro inside
    obtain ⟨own, -⟩ := mirror.rows row inside
    have found : h.journal.get (journalKey cfg row.2.key) = some row.2 := by
      rw [← own]
      exact OrderedMap.get_of_mem inside
    cases queued : h.queue.get row.2.key with
    | none =>
      rcases mirror.left row.2.key row.2 found rfl queued with gone | ⟨boot, -⟩
      · obtain ⟨d, after, covers⟩ := deleting_iff.mp gone
        rw [settled d] at covers
        cases covers
      · obtain ⟨n, rows, held⟩ := mirror.booting boot
        rw [settled n] at held
        cases held
    | some e =>
      have same := stored row.2.key e queued
      rw [found, Option.some.injEq] at same
      refine ⟨row.2.key, e, queued, Prod.ext own ?_⟩
      exact same
  · rintro ⟨key, e, queued, rfl⟩
    exact OrderedMap.mem_of_get (stored key e queued)

/-- A restart whose restore is run restores the queue of such a moment. -/
theorem Mirror.restores (mirror : Mirror cfg h) (settled : Settled h) (key : String) :
    (run (step cfg) h [.restart, .ran 0, .settle 0]).queue.get key = h.queue.get key := by
  have restart : (run (step cfg) h [.restart, .ran 0, .settle 0]).queue =
      merged cfg OrderedMap.empty h.journal.entries := rfl
  have same : ∀ e, (merged cfg OrderedMap.empty h.journal.entries).get key = some e ↔
      h.queue.get key = some e := by
    intro e
    rw [merged_get h.journal.nodup, OrderedMap.get_empty, List.mem_filterMap]
    constructor
    · rintro (none' | ⟨-, row, inside, parsed⟩)
      · cases none'
      · obtain ⟨k, e', queued, rfl⟩ := (mirror.exact settled row).mp inside
        unfold parseJournalRow at parsed
        split at parsed
        · cases parsed
        · split at parsed
          · cases parsed
            exact queued
          · cases parsed
    · intro queued
      have inside := (mirror.exact settled (journalKey cfg key, ⟨key, e⟩)).mpr ⟨key, e, queued, rfl⟩
      refine Or.inr ⟨rfl, _, inside, ?_⟩
      have whole := (mirror.rows _ inside).2
      simp [parseJournalRow, whole]
  rw [restart]
  exact Option.ext same

/-- In a run that queues no key while a delete of it is to be run, the journal holds one row
    an entry of the queue and no other, whenever no call is in flight, and a restart then
    restores the queue. -/
theorem journal_mirrors_queue {evs : List Event}
    (guarded : Admitted (step cfg) (Guarded cfg) (Hub.boot OrderedMap.empty) evs)
    (settled : Settled (run (step cfg) (Hub.boot OrderedMap.empty) evs)) :
    (∀ row, row ∈ (run (step cfg) (Hub.boot OrderedMap.empty) evs).journal.entries ↔
      ∃ key e, (run (step cfg) (Hub.boot OrderedMap.empty) evs).queue.get key = some e ∧
        row = (journalKey cfg key, ⟨key, e⟩)) ∧
    ∀ key, (run (step cfg) (Hub.boot OrderedMap.empty) (evs ++ [.restart, .ran 0, .settle 0])).queue.get key =
      (run (step cfg) (Hub.boot OrderedMap.empty) evs).queue.get key := by
  have mirror := run_invariant (Mirror cfg) (fun _ _ mirror guarded => step_mirror mirror guarded)
    (@mirror_boot cfg OrderedMap.empty (by simp [OrderedMap.empty]) (by simp [OrderedMap.empty])) guarded
  refine ⟨mirror.exact settled, fun key => ?_⟩
  rw [run_append]
  exact mirror.restores settled key

end Runs

section Sample

def sampleParams : Params where
  rewardDeriveActive := fun _ _ => true
  announceQueueMax := 2
  queue_max_pos := by decide
  announceRetryTtlMs := 100
  sha256 := id

def sampleEntry (snapshotBlock : ℕ) : Entry where
  chain := "BTC"
  network := "regtest"
  blockIndex := 7
  checkpointSeq := 1
  txid := "aa"
  anchorVersion := 0
  rewardType := "anchor_bundle"
  roundReference := snapshotBlock
  snapshotBlock := snapshotBlock
  publisher := "bb"
  attestSigs := [⟨"bb", "cc"⟩]
  federate := some true
  at' := 0

/- The restore of a first boot, a deferral and its write. -/
def queuedRun : List Event :=
  [.ran 0, .settle 0, .defer (sampleEntry 5) 0, .ran 1, .settle 1]

/- The drain drops the entry after the TTL, and another one is queued before the delete is
   run. -/
@[irreducible] def drainedRun : List Event :=
  queuedRun ++ [.drainStart, .drainStep 101 .undecided, .defer (sampleEntry 6) 101, .ran 3, .ran 2,
    .settle 2, .settle 3]

/- As above, but the entry itself is queued again and its write is run before the delete. -/
@[irreducible] def requeuedRun : List Event :=
  queuedRun ++ [.drainStart, .drainStep 101 .undecided, .defer (sampleEntry 5) 101, .ran 3, .ran 2,
    .settle 2, .settle 3]

/- Every call has been settled, and the keys of the queue beside the number of rows. -/
def atRest (h : Hub) : Bool × List String × ℕ :=
  (h.calls.all Option.isNone, h.queue.entries.map Prod.fst, h.journal.size)

theorem settled_of_rest {h : Hub} (rest : (atRest h).1 = true) : Settled h := by
  intro n
  cases held : slotAt h.calls n with
  | none => rfl
  | some c =>
    rw [slotAt, Option.join_eq_some_iff] at held
    have empty := List.all_eq_true.mp rest _ (List.mem_of_getElem? held)
    cases empty

theorem sample_runs :
    (Admitted (step sampleParams) (Guarded sampleParams) (Hub.boot OrderedMap.empty) drainedRun ∧
      atRest (run (step sampleParams) (Hub.boot OrderedMap.empty) drainedRun) =
        (true, ["anchor_bundle|6|6|bb|aa"], 1)) ∧
    atRest (run (step sampleParams) (Hub.boot OrderedMap.empty) requeuedRun) =
      (true, ["anchor_bundle|5|5|bb|aa"], 0) := by
  decide +kernel

theorem sample_mirrored :
    (∀ row, row ∈ (run (step sampleParams) (Hub.boot OrderedMap.empty) drainedRun).journal.entries ↔
      ∃ key e, (run (step sampleParams) (Hub.boot OrderedMap.empty) drainedRun).queue.get key = some e ∧
        row = (journalKey sampleParams key, ⟨key, e⟩)) ∧
    ∀ key, (run (step sampleParams) (Hub.boot OrderedMap.empty)
        (drainedRun ++ [.restart, .ran 0, .settle 0])).queue.get key =
      (run (step sampleParams) (Hub.boot OrderedMap.empty) drainedRun).queue.get key :=
  journal_mirrors_queue sample_runs.1.1 (settled_of_rest (by rw [sample_runs.1.2]))

/-- An entry that is queued again while its row is being deleted has no row. -/
theorem requeued_entry_unjournaled :
    ¬ (Settled (run (step sampleParams) (Hub.boot OrderedMap.empty) requeuedRun) →
      ∀ row, row ∈ (run (step sampleParams) (Hub.boot OrderedMap.empty) requeuedRun).journal.entries ↔
        ∃ key e, (run (step sampleParams) (Hub.boot OrderedMap.empty) requeuedRun).queue.get key = some e ∧
          row = (journalKey sampleParams key, ⟨key, e⟩)) := by
  intro mirrors
  have shape := sample_runs.2
  generalize run (step sampleParams) (Hub.boot OrderedMap.empty) requeuedRun = h at mirrors shape
  have rest : (atRest h).1 = true := by rw [shape]
  have queue : h.queue.entries.map Prod.fst = ["anchor_bundle|5|5|bb|aa"] := congrArg (fun r => r.2.1) shape
  have rows : h.journal.entries = [] := List.length_eq_zero_iff.mp (congrArg (fun r => r.2.2) shape)
  have member : "anchor_bundle|5|5|bb|aa" ∈ h.queue.entries.map Prod.fst := by
    rw [queue]
    exact List.mem_cons_self
  obtain ⟨⟨key, e⟩, inside, -⟩ := List.mem_map.mp member
  have journaled := (mirrors (settled_of_rest rest) _).mpr ⟨key, e, OrderedMap.get_of_mem inside, rfl⟩
  rw [rows] at journaled
  cases journaled

end Sample
end XChainHub.Anchor.Publisher.RewardJournal
