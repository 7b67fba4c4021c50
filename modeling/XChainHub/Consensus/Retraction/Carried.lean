import XChainHub.Consensus.Retraction.Rounds

/-!
What carries a submitted retraction to the stream, the steps that drop a record of it, and
what each handler passes on.
-/
namespace XChainHub.RetractionConsensus
open GuardedRuns SlotHeap

def Delivered (h : Hub) (d : Deletion) (since : ℕ) : Prop :=
  d ∈ (h.streamed.drop since).map Streamed.deletion

/- A round in the pending map has its re-ask and its timeout armed. -/
def InRound (h : Hub) (d : Deletion) : Prop := d ∈ h.rounds.keys.items.map Signed.deletion

def HasDeferral (h : Hub) (d : Deletion) : Prop :=
  (h.deferrals.get d.intentKey).map Deferral.deletion = some d

def Task.finalizing : Task → Option Deletion
  | .finalize s _ _ => some s.deletion
  | _ => none

def Finalizing (h : Hub) (d : Deletion) : Prop :=
  ∃ t ∈ h.tasks, t.bind Task.finalizing = some d

/- What answers for a deletion submitted when so many were streamed. -/
def Carried (h : Hub) (d : Deletion) (since : ℕ) : Prop :=
  Delivered h d since ∨ InRound h d ∨ HasDeferral h d ∨ Finalizing h d

instance (h : Hub) (d : Deletion) (since : ℕ) : Decidable (Carried h d since) :=
  inferInstanceAs (Decidable (_ ∈ _ ∨ _ ∈ _ ∨ _ = _ ∨ ∃ t ∈ h.tasks, _ = _))

def Origin.caller : Origin → Option ℕ
  | .submitted since => some since
  | .retry _ => none

/- A record a step drops with none in its place: the hub left with, the event, and the
   submission that returns on it. -/
structure Loss where
  left : Hub
  d : Deletion
  caller : Option ℕ

/- The deferral a submission clears or overwrites while it holds another generation. -/
def superseded (h : Hub) (d : Deletion) (origin : Origin) : List Loss :=
  match h.deferrals.get d.intentKey with
  | none => []
  | some state =>
    if origin.clears state && state.deletion ≠ d then
      [⟨h.clearDeferral d origin, state.deletion, none⟩]
    else []

def overwritten (h : Hub) (d : Deletion) : Origin → List Loss
  | .submitted since => superseded h d (.submitted since)
  | .retry _ => []

/- A resolved submission whose id is in the finalized ring with no round open for it. -/
def deduped (h : Hub) (s : Signed) (origin : Origin) : List Loss :=
  if s ∈ h.finalized ∧ h.rounds.has s = false then
    [⟨h.clearDeferral s.deletion origin, s.deletion, origin.caller⟩]
  else []

def refused (h : Hub) (n : ℕ) (s : Signed) (caller : Option ℕ) : Answer ℕ → List Loss
  | .value (_ + 1) => []
  | _ => [⟨h.settle n, s.deletion, caller⟩]

section Guard
variable (cfg : Params)

def losses (h : Hub) : Event → List Loss
  | .block n (.value answer) =>
    match slotAt h.tasks n with
    | some (.submit d origin .block) =>
      match answer with
      | none => overwritten (h.settle n) d origin
      | some snapshotBlock =>
        if cfg.gateActive snapshotBlock then [] else superseded (h.settle n) d origin
    | _ => []
  | .validators n (.value snap) =>
    match slotAt h.tasks n with
    | some (.submit d origin (.validators snapshotBlock)) =>
      if snap.rows = [] then overwritten (h.settle n) d origin
      else superseded (h.settle n) d origin ++ deduped (h.settle n) ⟨d, snapshotBlock⟩ origin
    | _ => []
  | .persisted n answer =>
    match slotAt h.tasks n with
    | some (.finalize s _ caller) => refused h n s caller answer
    | _ => []
  | _ => []

/- Where a submission is owed the event, or waits for it, something else still carries it. -/
def Loss.Spared (l : Loss) : Prop :=
  (∀ o ∈ l.left.owed, o.1 = l.d → Carried l.left l.d o.2) ∧
    ∀ since ∈ l.caller.toList, Carried l.left l.d since

instance (l : Loss) : Decidable l.Spared := inferInstanceAs (Decidable (_ ∧ _))

def Spares (h : Hub) (e : Event) : Prop := ∀ l ∈ losses cfg h e, l.Spared

instance (h : Hub) (e : Event) : Decidable (Spares cfg h e) :=
  inferInstanceAs (Decidable (∀ l ∈ losses cfg h e, l.Spared))

end Guard

theorem delivered_mono {h h' : Hub} {d : Deletion} {since : ℕ}
    (grown : h.streamed <+: h'.streamed) (delivered : Delivered h d since) :
    Delivered h' d since := by
  obtain ⟨more, same⟩ := grown
  unfold Delivered at delivered ⊢
  rw [← same, List.drop_append, List.map_append]
  exact List.mem_append_left _ delivered

theorem delivered_last {h : Hub} {r : Streamed} {since : ℕ} (bound : since ≤ h.streamed.length) :
    Delivered { h with streamed := h.streamed ++ [r] } r.deletion since := by
  unfold Delivered
  simp only [List.drop_append_of_le_length bound, List.map_append, List.map_cons, List.map_nil]
  exact List.mem_append_right _ (List.mem_singleton_self _)

/- Whatever carries d in the first hub carries it in the second. -/
structure Passes (h h' : Hub) (d : Deletion) : Prop where
  grown : h.streamed <+: h'.streamed
  carries : ∀ since ≤ h.streamed.length, Carried h d since → Carried h' d since

theorem Passes.trans {a b c : Hub} {d : Deletion} (first : Passes a b d) (second : Passes b c d) :
    Passes a c d :=
  ⟨first.grown.trans second.grown, fun since bound carried =>
    second.carries since (bound.trans first.grown.length_le) (first.carries since bound carried)⟩

theorem passes_refl (h : Hub) (d : Deletion) : Passes h h d :=
  ⟨List.prefix_refl _, fun _ _ carried => carried⟩

theorem passes_of {h h' : Hub} {d : Deletion} (grown : h.streamed <+: h'.streamed)
    (rounds : InRound h d → InRound h' d ∨ Finalizing h' d ∨
      ∀ since ≤ h.streamed.length, Delivered h' d since)
    (deferrals : HasDeferral h d → HasDeferral h' d)
    (tasks : Finalizing h d → Finalizing h' d ∨ ∀ since ≤ h.streamed.length, Delivered h' d since) :
    Passes h h' d := by
  refine ⟨grown, ?_⟩
  rintro since bound (delivered | held | deferred | finalizing)
  · exact Or.inl (delivered_mono grown delivered)
  · rcases rounds held with still | moved | streamed
    · exact Or.inr (Or.inl still)
    · exact Or.inr (Or.inr (Or.inr moved))
    · exact Or.inl (streamed since bound)
  · exact Or.inr (Or.inr (Or.inl (deferrals deferred)))
  · rcases tasks finalizing with still | streamed
    · exact Or.inr (Or.inr (Or.inr still))
    · exact Or.inl (streamed since bound)

section Records
variable {h : Hub} {d e : Deletion} {s : Signed} {n : ℕ} {origin : Origin}

theorem in_round_iff : InRound h d ↔ ∃ b, h.rounds.has ⟨d, b⟩ = true := by
  simp only [InRound, List.mem_map, OrderedMap.has_iff_mem_keys, OrderedSet.mem_items]
  constructor
  · rintro ⟨s, held, rfl⟩
    exact ⟨s.snapshotBlock, held⟩
  · rintro ⟨b, held⟩
    exact ⟨⟨d, b⟩, held, rfl⟩

theorem has_deferral_iff :
    HasDeferral h d ↔ ∃ state, h.deferrals.get d.intentKey = some state ∧ state.deletion = d :=
  Option.map_eq_some_iff

theorem finalizing_iff :
    Finalizing h d ↔
      ∃ n s sigs caller, slotAt h.tasks n = some (.finalize s sigs caller) ∧ s.deletion = d := by
  constructor
  · rintro ⟨t, member, found⟩
    obtain ⟨n, inside, same⟩ := List.getElem_of_mem member
    obtain ⟨task, rfl, finalizes⟩ := Option.bind_eq_some_iff.mp found
    cases task with
    | finalize s sigs caller =>
      refine ⟨n, s, sigs, caller, ?_, Option.some.inj finalizes⟩
      rw [slotAt, List.getElem?_eq_getElem inside, same, Option.join_some]
    | submit => simp [Task.finalizing] at finalizes
    | adopt => simp [Task.finalizing] at finalizes
  · rintro ⟨n, s, sigs, caller, held, rfl⟩
    refine ⟨some (.finalize s sigs caller), ?_, rfl⟩
    exact List.mem_of_getElem? (Option.join_eq_some_iff.mp held)

/-- A slot of the heap written over: only what that slot finalized is let go. -/
theorem finalizing_set {t : Task} {x : Option Task} (held : slotAt h.tasks n = some t)
    (finalizing : Finalizing h d) :
    t.finalizing = some d ∨ Finalizing { h with tasks := h.tasks.set n x } d := by
  obtain ⟨m, s, sigs, caller, found, rfl⟩ := finalizing_iff.mp finalizing
  by_cases same : m = n
  · rw [same, held, Option.some.injEq] at found
    exact Or.inl (by rw [found, Task.finalizing])
  · refine Or.inr (finalizing_iff.mpr ⟨m, s, sigs, caller, ?_, rfl⟩)
    rw [slot_set_other same]
    exact found

theorem finalizing_push {t : Task} (finalizing : Finalizing h d) :
    Finalizing { h with tasks := h.tasks ++ [some t] } d := by
  obtain ⟨u, member, found⟩ := finalizing
  exact ⟨u, List.mem_append_left _ member, found⟩

theorem write_passes {t : Task} {x : Option Task} (held : slotAt h.tasks n = some t)
    (other : t.finalizing ≠ some d) : Passes h { h with tasks := h.tasks.set n x } d :=
  passes_of (List.prefix_refl _) Or.inl id
    (fun finalizing => Or.inl ((finalizing_set held finalizing).resolve_left other))

theorem push_passes (h : Hub) (t : Task) (d : Deletion) :
    Passes h { h with tasks := h.tasks ++ [some t] } d :=
  passes_of (List.prefix_refl _) Or.inl id (fun finalizing => Or.inl (finalizing_push finalizing))

theorem broadcast_passes (h : Hub) (d e : Deletion) : Passes h (h.broadcastUnsigned e) d :=
  passes_of (List.prefix_append _ _) Or.inl id Or.inl

theorem broadcast_delivers {since : ℕ} (bound : since ≤ h.streamed.length) :
    Carried (h.broadcastUnsigned d) d since := Or.inl (delivered_last bound)

theorem finalize_passes (h : Hub) (s : Signed) (sigs : Signatures) (caller : Option ℕ)
    (d : Deletion) : Passes h (h.finalize s sigs caller) d :=
  passes_of (List.prefix_refl _) Or.inl id (fun finalizing => Or.inl (finalizing_push finalizing))

theorem finalize_carries (h : Hub) (s : Signed) (sigs : Signatures) (caller : Option ℕ)
    (since : ℕ) : Carried (h.finalize s sigs caller) s.deletion since :=
  Or.inr (Or.inr (Or.inr
    ⟨_, List.mem_append_right _ (List.mem_singleton_self _), rfl⟩))

theorem set_deferral_passes {key : IntentKey} {state : Deferral} (serials : ℕ)
    (same : ∀ old, h.deferrals.get key = some old → old.deletion = d → state.deletion = d) :
    Passes h { h with deferrals := h.deferrals.set key state, serials := serials } d := by
  refine passes_of (List.prefix_refl _) Or.inl ?_ Or.inl
  intro deferred
  obtain ⟨old, found, holds⟩ := has_deferral_iff.mp deferred
  rw [has_deferral_iff]
  by_cases here : d.intentKey = key
  · rw [here] at found ⊢
    exact ⟨state, OrderedMap.get_set_same _ _ _, same old found holds⟩
  · refine ⟨old, ?_, holds⟩
    rw [OrderedMap.get_set_other here]
    exact found

theorem schedule_passes (h : Hub) (key : IntentKey) (serial : ℕ) (d : Deletion) :
    Passes h (h.scheduleDeferredRetry key serial) d := by
  unfold Hub.scheduleDeferredRetry
  split
  · exact passes_refl h d
  · rename_i state found
    split
    · refine set_deferral_passes _ ?_
      intro old held holds
      rw [found, Option.some.injEq] at held
      rw [held]
      exact holds
    · exact passes_refl h d

theorem defer_carries (h : Hub) (d : Deletion) (mark since : ℕ) :
    Carried (h.deferSigningRound d (.submitted mark)) d since := by
  refine Or.inr (Or.inr (Or.inl (has_deferral_iff.mpr ?_)))
  dsimp only [Hub.deferSigningRound]
  split
  · exact ⟨_, OrderedMap.get_set_same _ _ _, rfl⟩
  · exact ⟨_, OrderedMap.get_set_same _ _ _, rfl⟩

theorem clear_passes (spared : ∀ state, h.deferrals.get e.intentKey = some state →
      origin.clears state = true → state.deletion ≠ d) :
    Passes h (h.clearDeferral e origin) d := by
  unfold Hub.clearDeferral
  split
  · exact passes_refl h d
  · rename_i state found
    split
    · rename_i clears
      refine passes_of (List.prefix_refl _) Or.inl ?_ Or.inl
      intro deferred
      obtain ⟨old, held, holds⟩ := has_deferral_iff.mp deferred
      rw [has_deferral_iff]
      have other : d.intentKey ≠ e.intentKey := by
        intro key
        rw [key, found, Option.some.injEq] at held
        exact spared state found clears (held ▸ holds)
      refine ⟨old, ?_, holds⟩
      rw [OrderedMap.get_erase_other other]
      exact held
    · exact passes_refl h d

theorem has_set (m : OrderedMap Signed PendingRound) (s t : Signed) (r : PendingRound)
    (held : m.has t = true) : (m.set s r).has t = true := by
  rw [OrderedMap.has_iff_mem_keys] at held ⊢
  exact OrderedMap.mem_keys_set.mpr (Or.inr held)

theorem set_round_passes (h : Hub) (s : Signed) (r : PendingRound) (d : Deletion) :
    Passes h { h with rounds := h.rounds.set s r } d := by
  refine passes_of (List.prefix_refl _) (fun held => Or.inl ?_) id Or.inl
  obtain ⟨b, open'⟩ := in_round_iff.mp held
  exact in_round_iff.mpr ⟨b, has_set _ _ _ _ open'⟩

theorem in_round_erase (held : InRound h d) :
    s.deletion = d ∨ InRound { h with rounds := h.rounds.erase s } d := by
  obtain ⟨b, open'⟩ := in_round_iff.mp held
  by_cases same : s = ⟨d, b⟩
  · exact Or.inl (by rw [same])
  · refine Or.inr (in_round_iff.mpr ⟨b, ?_⟩)
    rw [OrderedMap.has] at open' ⊢
    rw [OrderedMap.get_erase_other (Ne.symm same)]
    exact open'

theorem check_quorum_passes (cfg : Params) (s : Signed) (h : Hub) (d : Deletion) :
    Passes h (checkQuorum cfg s h) d := by
  unfold checkQuorum
  split
  · exact passes_refl h d
  · split
    · refine passes_of (List.prefix_refl _) ?_ id (fun held => Or.inl (finalizing_push held))
      intro held
      rcases in_round_erase (s := s) held with rfl | still
      · exact Or.inr (Or.inl ⟨_, List.mem_append_right _ (List.mem_singleton_self _), rfl⟩)
      · exact Or.inl still
    · exact passes_refl h d

theorem open_round_carries (cfg : Params) (s : Signed) (snap : StakeWeightedQuorum.Snapshot)
    (h : Hub) (since : ℕ) : Carried (openSigningRound cfg s snap h) s.deletion since := by
  refine Or.inr (Or.inl (in_round_iff.mpr ⟨s.snapshotBlock, ?_⟩))
  rw [OrderedMap.has_iff_mem_keys]
  exact OrderedMap.mem_keys_set.mpr (Or.inl rfl)

theorem timeout_passes (s : Signed) (h : Hub) (d : Deletion) : Passes h (roundTimeout s h) d := by
  unfold roundTimeout
  split
  · exact passes_refl h d
  · refine passes_of (List.prefix_append _ _) ?_ id Or.inl
    intro held
    rcases in_round_erase (s := s) held with rfl | still
    · exact Or.inr (Or.inr (fun since bound => delivered_last bound))
    · exact Or.inl still

theorem retry_passes (key : IntentKey) (h : Hub) (d : Deletion) :
    Passes h (retryTimer key h) d := by
  unfold retryTimer
  split
  · exact passes_refl h d
  · rename_i state found
    split
    · refine (set_deferral_passes h.serials ?_).trans (push_passes _ _ d)
      intro old held holds
      rw [found, Option.some.injEq] at held
      rw [held]
      exact holds
    · exact passes_refl h d

theorem sign_passes (cfg : Params) (s : Signed) (sigPubkey sig : String) (h : Hub) (d : Deletion) :
    Passes h (handleSign cfg s sigPubkey sig h) d := by
  unfold handleSign
  split
  · exact passes_refl h d
  · dsimp only
    split
    · exact (set_round_passes h s _ d).trans (check_quorum_passes cfg s _ d)
    · exact passes_refl h d

/-- What a clear leaves, a submission that overwrites the deferral leaves. -/
theorem clear_defer_passes (h : Hub) (e : Deletion) (since : ℕ) (d : Deletion) :
    Passes (h.clearDeferral e (.submitted since)) (h.deferSigningRound e (.submitted since)) d := by
  cases standing : h.deferrals.get e.intentKey with
  | none =>
    simp only [Hub.clearDeferral, Hub.deferSigningRound, standing]
    refine set_deferral_passes _ ?_
    intro old found
    rw [standing] at found
    exact absurd found (by simp)
  | some state =>
    simp only [Hub.clearDeferral, Hub.deferSigningRound, standing, Origin.clears, if_true]
    refine passes_of (List.prefix_refl _) Or.inl ?_ Or.inl
    intro deferred
    obtain ⟨old, held, holds⟩ := has_deferral_iff.mp deferred
    rw [has_deferral_iff]
    have other : d.intentKey ≠ e.intentKey := by
      intro key
      rw [key, OrderedMap.get_erase_same] at held
      exact absurd held (by simp)
    refine ⟨old, ?_, holds⟩
    rw [OrderedMap.get_erase_other other] at held
    rw [OrderedMap.get_set_other other]
    exact held

end Records

section Fields
variable (h : Hub) (d : Deletion) (origin : Origin)

@[simp] theorem settle_owed (n : ℕ) : (h.settle n).owed = h.owed := rfl

@[simp] theorem schedule_owed (key : IntentKey) (serial : ℕ) :
    (h.scheduleDeferredRetry key serial).owed = h.owed := by
  unfold Hub.scheduleDeferredRetry
  split
  · rfl
  · split <;> rfl

@[simp] theorem defer_owed : (h.deferSigningRound d origin).owed = h.owed := by
  cases origin with
  | retry serial => exact schedule_owed h d.intentKey serial
  | submitted since =>
    dsimp only [Hub.deferSigningRound]
    split <;> rfl

@[simp] theorem schedule_streamed (key : IntentKey) (serial : ℕ) :
    (h.scheduleDeferredRetry key serial).streamed = h.streamed := by
  unfold Hub.scheduleDeferredRetry
  split
  · rfl
  · split <;> rfl

@[simp] theorem defer_streamed : (h.deferSigningRound d origin).streamed = h.streamed := by
  cases origin with
  | retry serial => exact schedule_streamed h d.intentKey serial
  | submitted since =>
    dsimp only [Hub.deferSigningRound]
    split <;> rfl

@[simp] theorem clear_owed : (h.clearDeferral d origin).owed = h.owed := by
  unfold Hub.clearDeferral
  split
  · rfl
  · split <;> rfl

@[simp] theorem clear_streamed : (h.clearDeferral d origin).streamed = h.streamed := by
  unfold Hub.clearDeferral
  split
  · rfl
  · split <;> rfl

@[simp] theorem clear_rounds : (h.clearDeferral d origin).rounds = h.rounds := by
  unfold Hub.clearDeferral
  split
  · rfl
  · split <;> rfl

@[simp] theorem clear_finalized : (h.clearDeferral d origin).finalized = h.finalized := by
  unfold Hub.clearDeferral
  split
  · rfl
  · split <;> rfl

@[simp] theorem check_quorum_owed (cfg : Params) (s : Signed) :
    (checkQuorum cfg s h).owed = h.owed := by
  unfold checkQuorum
  split
  · rfl
  · split <;> rfl

end Fields

/- Every submission that returned is carried; in SureBut, those of one event aside. -/
def SureBut (d : Option Deletion) (h : Hub) : Prop :=
  ∀ o ∈ h.owed, o.2 ≤ h.streamed.length ∧ (d ≠ some o.1 → Carried h o.1 o.2)

abbrev Sure (h : Hub) : Prop := SureBut none h

section Sureness
variable {h h' : Hub} {d : Deletion} {but : Option Deletion} {s : Signed} {n : ℕ} {origin : Origin}

theorem Sure.held (sure : Sure h) {o : Deletion × ℕ} (owed : o ∈ h.owed) : Carried h o.1 o.2 :=
  (sure o owed).2 (by simp)

theorem SureBut.passes (sure : SureBut but h) (same : h'.owed = h.owed)
    (passes : ∀ e, Passes h h' e) : SureBut but h' := by
  intro o owed
  rw [same] at owed
  obtain ⟨bound, held⟩ := sure o owed
  exact ⟨bound.trans (passes o.1).grown.length_le,
    fun other => (passes o.1).carries o.2 bound (held other)⟩

/-- A step that gives the event set aside a record of its own. -/
theorem SureBut.close (sure : SureBut (some d) h) (same : h'.owed = h.owed)
    (passes : ∀ e, Passes h h' e) (carried : ∀ since ≤ h.streamed.length, Carried h' d since) :
    Sure h' := by
  intro o owed
  rw [same] at owed
  obtain ⟨bound, held⟩ := sure o owed
  refine ⟨bound.trans (passes o.1).grown.length_le, fun _ => ?_⟩
  by_cases own : o.1 = d
  · rw [own]
    exact carried o.2 bound
  · exact (passes o.1).carries o.2 bound (held (fun eq => own (Option.some.inj eq).symm))

/-- The event set aside, where the guard found it carried by something else. -/
theorem SureBut.spared {l : Loss} (sure : SureBut (some l.d) l.left) (spared : l.Spared) :
    Sure l.left := by
  intro o owed
  obtain ⟨bound, held⟩ := sure o owed
  refine ⟨bound, fun _ => ?_⟩
  by_cases own : o.1 = l.d
  · rw [own]
    exact spared.1 o owed own
  · exact held (fun eq => own (Option.some.inj eq).symm)

/- The submission a call runs for entered in the past. -/
def Origin.Past (origin : Origin) (h : Hub) : Prop :=
  ∀ since ∈ origin.caller, since ≤ h.streamed.length

theorem returned_sure (sure : Sure h) (past : origin.Past h)
    (carried : ∀ since ∈ origin.caller, Carried h d since) : Sure (h.returned d origin) := by
  cases origin with
  | retry serial => exact sure
  | submitted since =>
    intro o owed
    rcases List.mem_append.mp owed with old | new
    · exact sure o old
    · rw [List.mem_singleton] at new
      subst new
      exact ⟨past since rfl, fun _ => carried since rfl⟩

theorem SureBut.returned (sure : SureBut (some d) h) (past : origin.Past h)
    (same : h'.owed = h.owed) (passes : ∀ e, Passes h h' e)
    (carried : ∀ since ≤ h.streamed.length, Carried h' d since) :
    Sure (h'.returned d origin) :=
  returned_sure (sure.close same passes carried)
    (fun since mark => (past since mark).trans (passes d).grown.length_le)
    (fun since mark => carried since (past since mark))

theorem clear_sure (sure : Sure h) (spares : ∀ l ∈ superseded h d origin, l.Spared) :
    SureBut (some d) (h.clearDeferral d origin) := by
  intro o owed
  rw [clear_owed] at owed
  rw [clear_streamed]
  refine ⟨(sure o owed).1, fun other => ?_⟩
  by_cases lost : ∃ state, h.deferrals.get d.intentKey = some state ∧
      origin.clears state = true ∧ state.deletion = o.1
  · obtain ⟨state, found, clears, holds⟩ := lost
    have differs : state.deletion ≠ d := fun same => other (by rw [← same, holds])
    have spared := (spares ⟨h.clearDeferral d origin, state.deletion, none⟩ (by
      simp [superseded, found, clears, differs])).1
    have kept := spared o (by rw [clear_owed]; exact owed) holds.symm
    rw [holds] at kept
    exact kept
  · push Not at lost
    exact (clear_passes lost).carries o.2 (sure o owed).1 (sure.held owed)

theorem defer_sure (sure : Sure h) (spares : ∀ l ∈ overwritten h d origin, l.Spared) :
    Sure (h.deferSigningRound d origin) := by
  cases origin with
  | retry serial =>
    exact sure.passes (by simp) (fun e => schedule_passes h d.intentKey serial e)
  | submitted since =>
    have cleared := clear_sure sure spares
    exact cleared.close (by simp) (fun e => clear_defer_passes h d since e)
      (fun mark _ => defer_carries h d since mark)

theorem settle_sure {t : Task} (sure : Sure h) (held : slotAt h.tasks n = some t)
    (idle : t.finalizing = none) : Sure (h.settle n) :=
  sure.passes rfl (fun e => write_passes held (by rw [idle]; simp))

theorem threw_sure (sure : Sure h) : Sure (submitThrew d h origin) := by
  cases origin with
  | submitted since => exact sure
  | retry serial => exact sure.passes (by simp [submitThrew]) (schedule_passes h d.intentKey serial)

theorem defer_returned_sure (sure : Sure h) (past : origin.Past h)
    (spares : ∀ l ∈ overwritten h d origin, l.Spared) :
    Sure ((h.deferSigningRound d origin).returned d origin) := by
  cases origin with
  | retry serial => exact defer_sure sure spares
  | submitted since =>
    refine returned_sure (defer_sure sure spares) ?_ (fun mark _ => defer_carries h d since mark)
    intro mark entered
    rw [defer_streamed]
    exact past mark entered

theorem block_sure (cfg : Params) {answer : Option ℕ}
    (held : slotAt h.tasks n = some (.submit d origin .block)) (sure : Sure h)
    (past : origin.Past h) (spares : Spares cfg h (.block n (.value answer))) :
    Sure (blockResolved cfg n d origin answer h) := by
  have settled : Sure (h.settle n) := settle_sure sure held rfl
  simp only [Spares, losses, held] at spares
  cases answer with
  | none => exact defer_returned_sure settled past spares
  | some snapshotBlock =>
    dsimp only [blockResolved]
    split
    · exact sure.passes rfl (fun e => write_passes held (by simp [Task.finalizing]))
    · rename_i inactive
      simp only [inactive] at spares
      exact (clear_sure settled spares).returned (by simpa [Origin.Past, Hub.settle] using past) rfl
        (fun e => broadcast_passes _ e d) (fun since bound => broadcast_delivers bound)

theorem validators_sure (cfg : Params) {snap : StakeWeightedQuorum.Snapshot}
    (held : slotAt h.tasks n = some (.submit s.deletion origin (.validators s.snapshotBlock)))
    (sure : Sure h) (past : origin.Past h)
    (spares : Spares cfg h (.validators n (.value snap))) :
    Sure (validatorsResolved cfg n s origin snap h) := by
  have settled : Sure (h.settle n) := settle_sure sure held rfl
  simp only [Spares, losses, held] at spares
  dsimp only [validatorsResolved]
  split
  · rename_i empty
    rw [if_pos empty] at spares
    exact defer_returned_sure settled past spares
  · rename_i filled
    rw [if_neg filled] at spares
    have cleared := clear_sure settled (fun l member => spares l (List.mem_append_left _ member))
    have cleared_past : origin.Past ((h.settle n).clearDeferral s.deletion origin) := by
      simpa [Origin.Past, Hub.settle] using past
    split
    · rename_i known
      by_cases open' : h.rounds.has s = true
      · refine cleared.returned cleared_past rfl (fun e => passes_refl _ e) (fun since _ => ?_)
        refine Or.inr (Or.inl (in_round_iff.mpr ⟨s.snapshotBlock, ?_⟩))
        rw [clear_rounds]
        exact open'
      · have spared := spares ⟨_, s.deletion, origin.caller⟩ (List.mem_append_right _ (by
          simp only [clear_rounds, clear_finalized, Bool.or_eq_true, decide_eq_true_eq] at known
          rw [deduped, if_pos ⟨known.resolve_left open', Bool.not_eq_true _ ▸ open'⟩]
          exact List.mem_singleton_self _))
        exact returned_sure (SureBut.spared (l := ⟨_, s.deletion, origin.caller⟩) cleared spared)
          cleared_past (fun since mark => spared.2 since (Option.mem_toList.mpr mark))
    · split
      · exact cleared.close rfl (fun e => finalize_passes _ _ _ _ e)
          (fun since _ => finalize_carries _ _ _ _ since)
      · refine cleared.returned cleared_past (by simp [openSigningRound])
          (fun e => (set_round_passes _ s _ e).trans (check_quorum_passes cfg s _ e)) ?_
        intro since bound
        exact (check_quorum_passes cfg s _ s.deletion).carries since bound
          (open_round_carries cfg s snap _ since)

theorem finalize_returned_sure {caller : Option ℕ} (sure : Sure h)
    (past : ∀ since ∈ caller, since ≤ h.streamed.length)
    (carried : ∀ since ∈ caller, Carried h d since) : Sure (h.finalizeReturned d caller) := by
  cases caller with
  | none => exact sure
  | some since =>
    exact @returned_sure h d (.submitted since) sure past carried

theorem persist_sure {sigs : Signatures} {caller : Option ℕ} {answer : Answer ℕ}
    (held : slotAt h.tasks n = some (.finalize s sigs caller)) (sure : Sure h)
    (past : ∀ since ∈ caller, since ≤ h.streamed.length)
    (spares : ∀ l ∈ refused h n s caller answer, l.Spared) :
    Sure (persistResolved n s sigs caller answer h) := by
  have released (loss : Loss.Spared ⟨h.settle n, s.deletion, caller⟩) :
      Sure (Hub.finalizeReturned { h.settle n with finalized := h.finalized.erase s }
        s.deletion caller) := by
    have others : SureBut (some s.deletion) (h.settle n) := by
      intro o owed
      refine ⟨(sure o owed).1, fun other => ?_⟩
      exact (write_passes held other).carries o.2 (sure o owed).1 (sure.held owed)
    exact finalize_returned_sure
      ((SureBut.spared (l := ⟨h.settle n, s.deletion, caller⟩) others loss).passes rfl
        (fun e => passes_of (List.prefix_refl _) Or.inl id Or.inl))
      past (fun since mark => loss.2 since (Option.mem_toList.mpr mark))
  match answer with
  | .threw => exact released (spares _ (List.mem_singleton_self _))
  | .value 0 => exact released (spares _ (List.mem_singleton_self _))
  | .value (rows + 1) =>
    have passes (e : Deletion) : Passes h { h.settle n with
        streamed := h.streamed ++ [⟨s.deletion, some (s.snapshotBlock, sigs)⟩] } e := by
      refine passes_of (List.prefix_append _ _) Or.inl id ?_
      intro finalizing
      rcases finalizing_set held finalizing with here | still
      · rw [Task.finalizing, Option.some.injEq] at here
        exact Or.inr (fun since bound => here ▸ delivered_last bound)
      · exact Or.inl still
    refine finalize_returned_sure (sure.passes rfl passes) ?_ ?_
    · exact fun since mark => (past since mark).trans (passes s.deletion).grown.length_le
    · exact fun since mark => Or.inl (delivered_last (past since mark))

theorem adopt_sure (cfg : Params) {signatures : Signatures} {snap : StakeWeightedQuorum.Snapshot}
    (held : slotAt h.tasks n = some (.adopt s signatures)) (sure : Sure h) :
    Sure (adoptResolved cfg n s signatures snap h) := by
  have settled : Sure (h.settle n) := settle_sure sure held rfl
  dsimp only [adoptResolved]
  split
  · exact settled.passes rfl (fun e => finalize_passes _ _ _ _ e)
  · exact settled

end Sureness

end XChainHub.RetractionConsensus
