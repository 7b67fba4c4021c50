import XChainHub.Library.GuardedRuns
import XChainHub.Peers.HubDb.Standing

/-!
What the broadcaster published stands: the rounds behind a height are over, no later row falls
under it as far as the cap in force reaches, and what was pruned is never missed.
-/
namespace XChainHub.HubDb
open HighWater MirrorAdmissionGate

section Steps
variable {cfg : Config} {b : Broadcaster}

theorem start_sound : Sound cfg .start where
  kept _ := Kept.start
  past e member := absurd member List.not_mem_nil
  unloaded _ := rfl
  floor k member := absurd member List.not_mem_nil
  stored k member := absurd member List.not_mem_nil
  saving s under := by cases under
  frames f member := absurd member List.not_mem_nil
  standing k member := absurd member List.not_mem_nil
  rounds r member := absurd member List.not_mem_nil
  sent s member := absurd member List.not_mem_nil

theorem advance_sound (sound : Sound cfg b) (ms : ℕ) : Sound cfg { b with clock := b.clock + ms } := by
  have passes : b.clock ≤ b.clock + ms := by omega
  have kept c := (sound.kept c).mono (List.Subset.refl _) passes
  constructor
  case kept => exact kept
  case past => exact fun e member => ⟨le_trans (sound.past e member).1 passes, (sound.past e member).2⟩
  case unloaded => exact sound.unloaded
  case floor => exact fun k member => (sound.floor k member).mono (List.Subset.refl _) passes
  case stored => exact fun k member => (sound.stored k member).mono (List.Subset.refl _) passes
  case saving => exact fun s under k member => (sound.saving s under k member).mono (List.Subset.refl _) passes
  case frames => exact sound.frames
  case standing =>
    intro k member
    exact stands_mono (sound.standing k member) passes sound.kept kept (fun c => List.Subset.refl _)
      (fun t f floor => floor)
  case rounds => exact fun r member => ⟨le_trans (sound.rounds r member).1 passes, (sound.rounds r member).2⟩
  case sent => exact sound.sent

/- The broadcaster after a reading that is an advance. -/
def recorded (cfg : Config) (b : Broadcaster) (c : String) (m : Observation) : Broadcaster :=
  { b with
    watermark := { b.watermark with
      obs := b.watermark.obs.set c (dropSettled (b.clock - cfg.longest) (b.watermark.marks c ++ [m])) }
    readings := (c, m.height) :: b.readings
    history := (c, m) :: b.history
    seen := b.seen.set c (b.seenOn c ++ [m]) }

theorem observe_cases (cfg : Config) (b : Broadcaster) (chain : String) (height : Option ℤ) :
    (∃ rs, observe cfg b chain height = { b with readings := rs }) ∨
      ∃ c h, usable h = true ∧ (∀ top ∈ (b.watermark.marks c).getLast?, top.height < h) ∧
        observe cfg b chain height = recorded cfg b c ⟨b.clock, h⟩ := by
  unfold observe observeTip
  generalize normalizeChain chain = code
  match code, height with
  | none, _ => exact Or.inl ⟨b.readings, rfl⟩
  | some _, none => exact Or.inl ⟨b.readings, rfl⟩
  | some c, some h =>
    cases ok : usable h with
    | false => exact Or.inl ⟨b.readings, by simp only [ok, Bool.false_eq_true, if_false]⟩
    | true =>
      rcases raise_cases (b.watermark.marks c) ⟨b.clock, h⟩ with repeat' | ⟨advance, above⟩
      · exact Or.inl ⟨(c, h) :: b.readings, by simp only [ok, repeat', if_true]⟩
      · have grown : raise (b.watermark.marks c) ⟨b.clock, h⟩ ≠ b.watermark.marks c := by
          rw [advance]
          simp
        refine Or.inr ⟨c, h, ok, above, ?_⟩
        simp only [ok, if_true, grown, if_false]
        rw [advance]
        rfl

theorem readings_sound (sound : Sound cfg b) (rs : List (String × ℤ)) :
    Sound cfg { b with readings := rs } := { sound with }

theorem marks_set (w : Watermark) (c c' : String) (marks : List Observation) :
    ({ w with obs := w.obs.set c marks } : Watermark).marks c' = if c' = c then marks else w.marks c' := by
  unfold Watermark.marks
  split
  · rename_i same
    rw [same, OrderedMap.get_set_same]
    rfl
  · rename_i other
    rw [OrderedMap.get_set_other other]

theorem seen_recorded (b : Broadcaster) (c c' : String) (m : Observation) :
    (recorded cfg b c m).seenOn c' = if c' = c then b.seenOn c ++ [m] else b.seenOn c' := by
  unfold Broadcaster.seenOn recorded
  split
  · rename_i same
    rw [same, OrderedMap.get_set_same]
    rfl
  · rename_i other
    rw [OrderedMap.get_set_other other]

theorem recorded_kept (sound : Sound cfg b) {c : String} {m : Observation} (current : m.time = b.clock)
    (above : ∀ top ∈ (b.watermark.marks c).getLast?, top.height < m.height) (c' : String) :
    Kept cfg b.clock ((c, m) :: b.history) c' ((recorded cfg b c m).watermark.marks c')
      ((recorded cfg b c m).seenOn c') := by
  rw [seen_recorded]
  unfold recorded
  rw [marks_set]
  by_cases same : c' = c
  · subst same
    rw [if_pos rfl, if_pos rfl]
    exact (sound.kept c').raised (fun e member => (sound.past e member).1) current above
  · rw [if_neg same, if_neg same]
    exact (sound.kept c').mono (List.subset_cons_self _ _) (le_refl _)

theorem recorded_sound (sound : Sound cfg b) {c : String} {m : Observation} (current : m.time = b.clock)
    (ok : m.height ≤ maxSafeInteger)
    (above : ∀ top ∈ (b.watermark.marks c).getLast?, top.height < m.height) :
    Sound cfg (recorded cfg b c m) := by
  have kept := recorded_kept sound current above
  have grown : b.history ⊆ (c, m) :: b.history := List.subset_cons_self _ _
  constructor
  case kept => exact kept
  case past =>
    intro e member
    rcases List.mem_cons.mp member with rfl | old
    · exact ⟨le_of_eq current, ok⟩
    · exact sound.past e old
  case unloaded => exact sound.unloaded
  case floor => exact fun k member => (sound.floor k member).mono grown (le_refl _)
  case stored => exact fun k member => (sound.stored k member).mono grown (le_refl _)
  case saving => exact fun s under k member => (sound.saving s under k member).mono grown (le_refl _)
  case frames => exact fun f member => (sound.frames f member).mono grown (le_refl _)
  case standing =>
    intro k member
    refine stands_mono (sound.standing k member) (le_refl _) sound.kept kept ?_ (fun t f floor => floor)
    intro c'
    rw [seen_recorded]
    split
    · rename_i same
      rw [same]
      exact List.subset_append_left _ _
    · exact List.Subset.refl _
  case rounds =>
    intro r member
    obtain ⟨opened, later⟩ := sound.rounds r member
    refine ⟨opened, ?_⟩
    intro e seen
    rcases List.mem_cons.mp seen with rfl | old
    · exact Or.inr (le_of_le_of_eq opened current.symm)
    · exact later e old
  case sent => exact sound.sent

theorem observe_sound (sound : Sound cfg b) (chain : String) (height : Option ℤ) :
    Sound cfg (observe cfg b chain height) := by
  rcases observe_cases cfg b chain height with ⟨rs, same⟩ | ⟨c, h, ok, above, same⟩
  · rw [same]
    exact readings_sound sound rs
  · rw [same]
    exact recorded_sound sound rfl (usable_iff.mp ok).2 above

theorem set_table_cap_sound (sound : Sound cfg b) (table chain : String) (height : Option ℤ) :
    Sound cfg { b with watermark := setTableCap b.watermark table chain height } := by
  have caps : ∃ caps, setTableCap b.watermark table chain height = { b.watermark with caps := caps } := by
    unfold setTableCap
    split
    · exact ⟨b.watermark.caps, rfl⟩
    · exact ⟨_, rfl⟩
    · split
      · exact ⟨_, rfl⟩
      · exact ⟨b.watermark.caps, rfl⟩
  obtain ⟨caps, same⟩ := caps
  rw [same]
  exact { sound with }

theorem load_floor_sound (sound : Sound cfg b) (ok : Bool) : Sound cfg (loadFloor b ok) := by
  unfold loadFloor
  cases loaded : b.floorLoaded with
  | true => exact sound
  | false =>
    cases ok with
    | false => exact { sound with unloaded := fun none => by cases none }
    | true =>
      have empty := sound.unloaded loaded
      constructor
      case kept => exact sound.kept
      case past => exact sound.past
      case unloaded => exact fun none => by cases none
      case floor => exact set_floor_justified sound.stored
      case stored => exact sound.stored
      case saving => exact sound.saving
      case frames => exact sound.frames
      case standing =>
        intro k member
        rcases List.mem_append.mp member with floor | old
        · obtain ⟨spec, found, inside, -⟩ := set_floor_justified sound.stored k floor
          obtain ⟨v, current, above⟩ := floor_le_level (mem_claims_of.mp floor)
          exact ⟨spec, found, inside, v, current, above⟩
        · refine stands_mono (sound.standing k old) (le_refl _) sound.kept sound.kept
            (fun c => List.Subset.refl _) ?_
          intro t f floor
          rw [empty] at floor
          cases floor
      case rounds => exact sound.rounds
      case sent => exact sound.sent

theorem admission_heights_justified (sound : Sound cfg b) (caughtUp : Bool) :
    ∀ k ∈ admissionHeights cfg b caughtUp, Justified cfg b.history b.clock k := by
  intro k member
  exact (admission_heights_stand member).justified sound

theorem publish_sound (sound : Sound cfg b) (caughtUp : Bool) : Sound cfg (publish cfg b caughtUp) := by
  have justified := admission_heights_justified sound caughtUp
  constructor
  case kept => exact sound.kept
  case past => exact sound.past
  case unloaded => exact sound.unloaded
  case floor => exact sound.floor
  case stored => exact sound.stored
  case saving => exact sound.saving
  case frames =>
    intro f member
    rcases List.mem_append.mp member with new | old
    · obtain ⟨k, out, rfl⟩ := List.mem_map.mp new
      exact justified k out
    · exact sound.frames f old
  case standing =>
    intro k member
    rcases List.mem_append.mp member with new | old
    · exact admission_heights_stand new
    · exact sound.standing k old
  case rounds => exact sound.rounds
  case sent => exact sound.sent

theorem begin_save_sound (sound : Sound cfg b) (caughtUp : Bool) : Sound cfg (beginSave cfg b caughtUp) := by
  unfold beginSave
  split
  · exact sound
  · have justified := admission_heights_justified sound caughtUp
    refine { sound with saving := ?_ }
    intro s under k member
    rw [Option.mem_def, Option.some.injEq] at under
    subst under
    exact justified k member

theorem save_ran_sound (sound : Sound cfg b) : Sound cfg (saveRan b) := by
  unfold saveRan
  split
  · exact sound
  · rename_i s under
    split
    · exact sound
    · have published := sound.saving s under
      have stored : ∀ k ∈ claimsOf (setAll b.stored (s.published.filter (fresh b))),
          Justified cfg b.history b.clock k := by
        intro k member
        rcases mem_set_all member with old | new
        · exact sound.stored k old
        · exact published k (List.mem_of_mem_filter new)
      refine { sound with stored := stored, saving := ?_ }
      intro s' ran
      rw [Option.mem_def, Option.some.injEq] at ran
      subst ran
      exact published

theorem save_answered_sound (sound : Sound cfg b) (ok : Bool) : Sound cfg (saveAnswered b ok) := by
  have dropped : ∀ s ∈ (none : Option Save), ∀ k ∈ s.published, Justified cfg b.history b.clock k := by
    intro s under
    cases under
  unfold saveAnswered
  split
  · exact sound
  · split
    · exact { sound with saving := dropped }
    · split
      · exact sound
      · split
        · exact { sound with saving := dropped }
        · exact { sound with saving := dropped }

theorem opened_sound (sound : Sound cfg b) (table chain : String) (tip : ℤ) :
    Sound cfg { b with rounds := ⟨table, chain, tip, b.clock, b.history⟩ :: b.rounds } := by
  refine { sound with rounds := ?_ }
  intro r member
  rcases List.mem_cons.mp member with rfl | old
  · exact ⟨le_refl _, fun e seen => Or.inl seen⟩
  · exact sound.rounds r old

theorem broadcast_row_sound (sound : Sound cfg b) (table : String) (row : Row) :
    Sound cfg (broadcastRow cfg b table row) := by
  unfold broadcastRow
  split
  · exact sound
  · rename_i out
    refine { sound with sent := ?_ }
    intro s member kept k said
    rcases List.mem_cons.mp member with rfl | old
    · intro ok
      obtain ⟨h, below, listed⟩ := (sound.standing k said).published sound ok
      by_contra against
      have late := late_of_contradicts (k := k.under b.watermark.caps) listed below
        (Bool.eq_true_of_not_eq_false against)
      exact out (by simp [kept, late])
    · exact sound.sent s old kept k said

theorem restart_sound (sound : Sound cfg b) : Sound cfg (restart b) := by
  constructor
  case kept => exact fun c => Kept.start
  case past => exact sound.past
  case unloaded => exact fun _ => rfl
  case floor => exact fun k member => absurd member List.not_mem_nil
  case stored => exact sound.stored
  case saving => exact fun s under => by cases under
  case frames => exact sound.frames
  case standing => exact fun k member => absurd member List.not_mem_nil
  case rounds => exact sound.rounds
  case sent => exact sound.sent

theorem step_sound (sound : Sound cfg b) (ev : Event) : Sound cfg (step cfg b ev) := by
  cases ev with
  | advance ms => exact advance_sound sound ms
  | tip chain height => exact observe_sound sound chain height
  | cap table chain height => exact set_table_cap_sound sound table chain height
  | loadFloor ok => exact load_floor_sound sound ok
  | frame caughtUp => exact publish_sound sound caughtUp
  | save caughtUp => exact begin_save_sound sound caughtUp
  | saveRan => exact save_ran_sound sound
  | saveAnswered ok => exact save_answered_sound sound ok
  | opened table chain tip => exact opened_sound sound table chain tip
  | row table row => exact broadcast_row_sound sound table row
  | restart => exact restart_sound sound

end Steps

section Runs
variable {cfg : Config} {w w' : Watermark} {now : ℤ}

theorem run_sound (cfg : Config) (evs : List Event) :
    Sound cfg (GuardedRuns.run (step cfg) .start evs) :=
  GuardedRuns.run_preserves (Sound cfg) (fun _ ev sound => step_sound sound ev) start_sound evs

theorem heights_congr (floor : w.floor = w'.floor) (caps : w.caps = w'.caps)
    (settles : ∀ c (r : Rail), settledHeight w c (now - cfg.roundWindows r) =
      settledHeight w' c (now - cfg.roundWindows r)) : heights cfg w now = heights cfg w' now := by
  have entry : ∀ table r c, entryAt cfg w table r c now = entryAt cfg w' table r c now := by
    intro table r c
    unfold entryAt level
    rw [settles, floor, caps]
  simp only [heights, entry]

/-- For every run: a row that goes out, a disputed price snapshot apart, has no round behind it
    that opened at a tip covered by what this process published or loaded as its floor, as far as
    the cap in force reaches. A round opened before any tip above a frame's height was observed is
    over by that frame. Without pruning the same heights are published. -/
theorem published_heights_stand (cfg : Config) (evs : List Event) :
    let b := GuardedRuns.run (step cfg) .start evs
    (∀ s ∈ b.sent, withdrawsPriceRound s.table s.row = false → ∀ k ∈ s.standing, StaysAbove cfg s k) ∧
      (∀ f ∈ b.frames, ∀ r ∈ b.rounds, r.table = f.claim.table → r.chain = f.claim.chain →
        (∀ o, (r.chain, o) ∈ r.observed → o.height ≤ f.claim.height) → isOver cfg r f.time = true) ∧
      ∀ now, b.clock ≤ now →
        heights cfg b.watermark now = heights cfg { b.watermark with obs := b.seen } now := by
  intro b
  have sound : Sound cfg b := run_sound cfg evs
  refine ⟨sound.sent, ?_, ?_⟩
  · intro f framed r opened table chain low
    obtain ⟨spec, found, -, o, seen, above, old⟩ := sound.frames f framed
    rw [isOver, roundTerminalMs, table, found, Option.map_some, Option.any_some, decide_eq_true_eq]
    rcases (sound.rounds r opened).2 _ seen with before | after
    · rw [← chain] at before
      exact absurd above (not_lt_of_ge (low o before))
    · have later : r.time ≤ o.time := after
      omega
  · intro now asked
    refine heights_congr rfl rfl ?_
    intro c r
    have window := window_le_longest cfg r
    exact (sound.kept c).answers _ (by omega)

/- The heights of every frame stand whole, for ever, for a round at any reading. -/
def AsClaimed (cfg : Config) (b : Broadcaster) : Prop :=
  (∀ s ∈ b.sent, ∀ f ∈ s.earlier, contradicts cfg s.table s.row f.claim = false) ∧
    ∀ f ∈ b.frames, ∀ r ∈ b.rounds, r.table = f.claim.table → r.chain = f.claim.chain →
      r.tip ≤ f.claim.height → (r.chain, r.tip) ∈ b.readings → isOver cfg r f.time = true

instance (cfg : Config) (b : Broadcaster) : Decidable (AsClaimed cfg b) :=
  inferInstanceAs (Decidable (_ ∧ ∀ f ∈ b.frames, ∀ r ∈ b.rounds, _))

def sampleConfig : Config := ⟨"regtest", fun _ => 10⟩

def sampleRow (btc : ℚ) (status : String) : Row := ⟨⟨some (.number btc), none, none⟩, none, "", none, status⟩

def untilFrame : List Event := [.loadFloor true, .tip "BTC" (some 100), .advance 10, .frame true]

def samplePast (more : List Event) : Broadcaster :=
  GuardedRuns.run (step sampleConfig) .start (untilFrame ++ more)

/-- A disputed price row goes out, a lowered cap and a floor that was never saved let a row below
    the frame out, and a tip that went back opens a round after it. -/
theorem published_height_contradicted :
    ¬ AsClaimed sampleConfig (samplePast [.row "price_snapshots" (sampleRow 60 "disputed")]) ∧
      ¬ AsClaimed sampleConfig (samplePast [.cap "cross_chain_matches" "BTC" (some 10),
        .row "cross_chain_matches" (sampleRow 60 "finalized")]) ∧
      ¬ AsClaimed sampleConfig (samplePast [.restart, .loadFloor true,
        .row "cross_chain_matches" (sampleRow 60 "finalized")]) ∧
      ¬ AsClaimed sampleConfig (samplePast [.tip "BTC" (some 90), .opened "cross_chain_matches" "BTC" 90]) := by
  decide

end Runs
end XChainHub.HubDb
