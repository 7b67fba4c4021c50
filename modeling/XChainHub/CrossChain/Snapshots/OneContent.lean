import XChainHub.CrossChain.Snapshots.Policy
import XChainHub.CrossChain.Snapshots.SharedList

/-!
What the hubs of a federation store and mirror: rows their consensus finalized. While no
honest hub puts two contents of a version in flight, any two stored rows of one version,
whichever rounds and hubs they come from, have the same content.
-/
namespace XChainHub.CrossChain.Snapshots
open GuardedRuns

variable {R Poll Read V D ι : Type}

/- The seats of a federation, whichever engine runs on them. -/
structure Seats (R ι : Type) where
  toLowerCase : String → String
  cfg : ι → Params R
  faulty : Finset String
  binding : Binding

@[reducible] def Seats.federation (seats : Seats R ι) (engine : Engine R) : Federation R ι :=
  ⟨engine, seats.toLowerCase, seats.cfg, seats.faulty, seats.binding⟩

abbrev World (R ι : Type) := ι → Hub R
abbrev Move (R Poll Read ι : Type) := ι × (Env × Event R Poll Read)

def consensusOf (w : World R ι) : CrossChain.World R ι := fun i => (w i).consensus

def started : World R ι := fun _ => .started

section Conditions
variable (rail : Rail R Poll Read V D) (seats : Seats R ι)

/- The move of the consensus that a move of the engine makes. -/
def consensusMove (w : World R ι) (m : Move R Poll Read ι) : Option (CrossChain.Move R ι) :=
  (consensusEvent rail (w m.1) m.2.2).map (fun e => (m.1, (m.2.1, e)))

def Setting (w : World R ι) (m : Move R Poll Read ι) : Prop :=
  ∀ c ∈ consensusMove rail w m, (seats.federation rail.engine).Setting (consensusOf w) c

def Guard [Fintype ι] (w : World R ι) (m : Move R Poll Read ι) : Prop :=
  ∀ c ∈ consensusMove rail w m,
    (seats.federation rail.engine).VersionGuard rail.reading (consensusOf w) c

def federationStep [DecidableEq ι] : World R ι → Move R Poll Read ι → World R ι :=
  move (fun i => step rail (seats.cfg i))

end Conditions

/- Persisted, or streamed to the mirrors. -/
def Hub.Holds (h : Hub R) (r : R) : Prop := r ∈ h.table ∨ r ∈ h.mirrored

/- What a hub writes is what it finalized, and what it mirrors is what it wrote. -/
structure Recorded (h : Hub R) : Prop where
  writes : ∀ ev, some ev ∈ h.writes → .finalized ev ∈ h.consensus.trace
  table : ∀ r ∈ h.table, ∃ ev, .finalized ev ∈ h.consensus.trace ∧ ev.row = r
  mirrored : ∀ r ∈ h.mirrored, r ∈ h.table

section Recorded
variable {rail : Rail R Poll Read V D} {cfg : Params R} {h : Hub R}

theorem started_recorded : Recorded (Hub.started : Hub R) := by
  refine ⟨?_, ?_, ?_⟩
  · intro ev member
    exact absurd member (by simp [Hub.started])
  · intro r member
    exact absurd member (by simp [Hub.started])
  · intro r member
    exact absurd member (by simp [Hub.started])

theorem written_finalized (recorded : Recorded h) {wid : ℕ} {ev : Finalized R}
    (waiting : h.write wid = some ev) : .finalized ev ∈ h.consensus.trace := by
  simp only [Hub.write, Option.join_eq_some_iff] at waiting
  exact recorded.writes ev (List.mem_of_getElem? waiting)

theorem settled_writes {wid : ℕ} {ev : Finalized R} (member : some ev ∈ h.writes.set wid none) :
    some ev ∈ h.writes := by
  rcases List.mem_or_eq_of_mem_set member with old | new
  · exact old
  · exact absurd new (by simp)

theorem Recorded.defer (recorded : Recorded h) (wid : ℕ) (row : R) :
    Recorded (h.defer rail wid row) :=
  ⟨fun ev member => recorded.writes ev (settled_writes member), recorded.table, recorded.mirrored⟩

theorem insert_mem {table : List R} {row r : R} (member : r ∈ insertSnapshot rail table row) :
    r ∈ table ∨ r = row := by
  simp only [insertSnapshot] at member
  split at member
  · exact Or.inl member
  · rcases List.mem_append.mp member with old | new
    · exact Or.inl old
    · exact Or.inr (List.mem_singleton.mp new)

theorem insert_keeps {table : List R} {row r : R} (member : r ∈ table) :
    r ∈ insertSnapshot rail table row := by
  simp only [insertSnapshot]
  split
  · exact member
  · exact List.mem_append_left _ member

theorem Recorded.store (recorded : Recorded h) {wid : ℕ} {ev : Finalized R}
    (waiting : h.write wid = some ev) (streams : Bool) :
    Recorded (h.store rail wid ev.row streams) := by
  refine ⟨fun e member => recorded.writes e (settled_writes member), ?_, ?_⟩
  · intro r member
    rcases insert_mem member with old | rfl
    · exact recorded.table r old
    · exact ⟨ev, written_finalized recorded waiting, rfl⟩
  · intro r member
    simp only [Hub.store] at member ⊢
    split at member
    · rcases List.mem_append.mp member with old | read
      · exact insert_keeps (recorded.mirrored r old)
      · exact List.mem_of_find?_eq_some (Option.mem_toList.mp read)
    · exact insert_keeps (recorded.mirrored r member)

theorem Recorded.own (recorded : Recorded h) (e : Event R Poll Read) : Recorded (h.own rail e) := by
  cases e with
  | poll seen poll snapshot =>
    simp only [Hub.own]
    split
    · exact recorded
    · exact ⟨recorded.writes, recorded.table, recorded.mirrored⟩
  | validated tid seen read => exact recorded
  | round e => exact recorded
  | write wid outcome =>
    simp only [Hub.own]
    split
    · exact recorded
    · rename_i ev streams waiting
      exact recorded.store waiting streams
    · exact recorded.defer _ _

theorem own_consensus (e : Event R Poll Read) : (h.own rail e).consensus = h.consensus := by
  cases e with
  | poll seen poll snapshot =>
    simp only [Hub.own]
    split <;> rfl
  | validated tid seen read => rfl
  | round e => rfl
  | write wid outcome =>
    simp only [Hub.own]
    split <;> rfl

theorem Recorded.advance (recorded : Recorded h) {env : Env} {e : CrossChain.Event R}
    (grown : h.consensus.trace <+: (CrossChain.step cfg h.consensus (env, e)).trace) :
    Recorded (h.advance cfg env e) := by
  refine ⟨?_, ?_, recorded.mirrored⟩
  · intro ev member
    rcases List.mem_append.mp member with old | new
    · exact grown.subset (recorded.writes ev old)
    · obtain ⟨heard, among, same⟩ := List.mem_map.mp new
      obtain ⟨o, output, shape⟩ := List.mem_filterMap.mp among
      have emitted := List.mem_of_mem_drop output
      cases o with
      | finalized event =>
        simp only [finalizedEvent, Option.some.injEq] at shape same
        rw [← same, ← shape]
        exact emitted
      | signed matchId payload => simp [finalizedEvent] at shape
      | broadcast message => simp [finalizedEvent] at shape
      | abandoned matchId => simp [finalizedEvent] at shape
  · intro r member
    obtain ⟨ev, finalized, same⟩ := recorded.table r member
    exact ⟨ev, grown.subset finalized, same⟩

/-- The consensus of a hub takes the step that the engine's event makes it take. -/
theorem step_consensus (m : Env × Event R Poll Read) : (step rail cfg h m).consensus =
    match consensusEvent rail h m.2 with
    | none => h.consensus
    | some e => CrossChain.step cfg h.consensus (m.1, e) := by
  simp only [step]
  cases found : consensusEvent rail h m.2 with
  | none =>
    dsimp only
    split
    · exact own_consensus _
    · rfl
  | some e =>
    dsimp only
    cases taken : due h.consensus e with
    | none => simp [CrossChain.step, taken]
    | some next =>
      dsimp only [Hub.advance, Hub.heard]
      rw [own_consensus]

theorem step_recorded (recorded : Recorded h) {m : Env × Event R Poll Read}
    (grown : ∀ e, consensusEvent rail h m.2 = some e →
      h.consensus.trace <+: (CrossChain.step cfg h.consensus (m.1, e)).trace) :
    Recorded (step rail cfg h m) := by
  simp only [step]
  split
  · split
    · exact recorded.own _
    · exact recorded
  · rename_i e found
    split
    · exact recorded
    · refine (recorded.own _).advance ?_
      rw [own_consensus]
      exact grown e found

end Recorded

section Moves
variable [DecidableEq ι] {rail : Rail R Poll Read V D} {seats : Seats R ι}
  {w : World R ι} {m : Move R Poll Read ι}

/- The invariant of a federation of engines. -/
structure Shared (rail : Rail R Poll Read V D) (seats : Seats R ι) (w : World R ι) : Prop where
  consensus : (seats.federation rail.engine).VersionedHubs rail.reading (consensusOf w)
  recorded : ∀ i, Recorded (w i)

/-- A move of the engine is a move of the consensus, or leaves it alone. -/
theorem consensus_step : consensusOf (federationStep rail seats w m) =
    match consensusMove rail w m with
    | none => consensusOf w
    | some c => (seats.federation rail.engine).step (consensusOf w) c := by
  have taken : (step rail (seats.cfg m.1) (w m.1) m.2).consensus = _ := step_consensus m.2
  have other : ∀ i, i ≠ m.1 → consensusOf (federationStep rail seats w m) i = consensusOf w i := by
    intro i apart
    rw [consensusOf, federationStep, move_other apart]
    rfl
  have here : consensusOf (federationStep rail seats w m) m.1 =
      (step rail (seats.cfg m.1) (w m.1) m.2).consensus := by
    rw [consensusOf, federationStep, move_same]
  simp only [consensusMove]
  funext i
  cases found : consensusEvent rail (w m.1) m.2.2 with
  | none =>
    rw [found] at taken
    by_cases same : i = m.1
    · subst same
      rw [here, taken]
      rfl
    · exact other i same
  | some e =>
    rw [found] at taken
    by_cases same : i = m.1
    · subst same
      rw [here, taken]
      change _ = move (fun i => CrossChain.step (seats.cfg i)) (consensusOf w) (m.1, m.2.1, e) m.1
      rw [move_same]
      rfl
    · rw [other i same]
      exact (move_other same).symm

end Moves

section Runs
variable [Fintype ι] [DecidableEq ι] {rail : Rail R Poll Read V D} {seats : Seats R ι}
  {w : World R ι} {m : Move R Poll Read ι}

theorem step_shared (honest : (seats.federation rail.engine).Honest) (shared : Shared rail seats w)
    (guard : Guard rail seats w m) : Shared rail seats (federationStep rail seats w m) := by
  have grown : ∀ e, consensusEvent rail (w m.1) m.2.2 = some e → (w m.1).consensus.trace <+:
      (CrossChain.step (seats.cfg m.1) (w m.1).consensus (m.2.1, e)).trace := by
    intro e found
    have careful := guard (m.1, (m.2.1, e)) (by simp [consensusMove, found])
    exact (Federation.hub_step_versioned honest shared.consensus careful).2
  refine ⟨?_, fun i => ?_⟩
  · rw [consensus_step]
    cases found : consensusMove rail w m with
    | none => exact shared.consensus
    | some c => exact Federation.step_versioned honest shared.consensus (guard c found)
  · by_cases same : i = m.1
    · subst same
      rw [federationStep, move_same]
      exact step_recorded (shared.recorded m.1) grown
    · rw [federationStep, move_other same]
      exact shared.recorded i

theorem run_shared (honest : (seats.federation rail.engine).Honest) {ms : List (Move R Poll Read ι)}
    (admitted : Admitted (federationStep rail seats) (Guard rail seats) started ms) :
    Shared rail seats (run (federationStep rail seats) started ms) :=
  run_invariant (Shared rail seats) (fun _ _ shared guard => step_shared honest shared guard)
    ⟨Federation.started_versioned, fun _ => started_recorded⟩ admitted

theorem held_finalized {h : Hub R} (recorded : Recorded h) {r : R} (held : h.Holds r) :
    ∃ ev, .finalized ev ∈ h.consensus.trace ∧ ev.row = r := by
  rcases held with stored | streamed
  · exact recorded.table r stored
  · exact recorded.table r (recorded.mirrored r streamed)

/-- Rows of one version that two hubs hold say the same of it. -/
theorem held_digests_agree (honest : (seats.federation rail.engine).Honest)
    (overlap : (seats.federation rail.engine).HonestOverlap) {ms : List (Move R Poll Read ι)}
    (admitted : Admitted (federationStep rail seats) (Guard rail seats) started ms) (i j : ι) (r s : R)
    (first : (run (federationStep rail seats) started ms i).Holds r)
    (second : (run (federationStep rail seats) started ms j).Holds s)
    (same : rail.reading.version r = rail.reading.version s) :
    rail.reading.digest r = rail.reading.digest s := by
  have shared := run_shared honest admitted
  obtain ⟨d, left, rfl⟩ := held_finalized (shared.recorded i) first
  obtain ⟨e, right, rfl⟩ := held_finalized (shared.recorded j) second
  exact Federation.finalized_digests_agree honest overlap shared.consensus i j d e left right same

end Runs
end XChainHub.CrossChain.Snapshots
