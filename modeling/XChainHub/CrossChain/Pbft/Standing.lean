import XChainHub.CrossChain.Pbft.Published

/-!
The canonicals that stand at a hub: those of its unfinished rounds and those it
signed a COMMIT for. An action puts at most one row in place; what agreed before
it agrees after it, if that row agrees with the commits and with the other rounds.
-/
namespace XChainHub.CrossChain

variable {R : Type} {cfg : Params R} {pol : Policy R} {a b : Hub R}

/- The canonical of an unfinished round in the map. -/
def Live (h : Hub R) (id c : String) : Prop :=
  ∃ rid p, h.pendingRound id = some (rid, p) ∧ p.finalized = false ∧ p.canonical = c

def Stands (h : Hub R) (id c : String) : Prop := Live h id c ∨ c ∈ commitsSigned h id

/- Any two standing canonicals, each with its round id, agree. -/
def Locked (agree : String × String → String × String → Prop) (h : Hub R) : Prop :=
  ∀ id c id' c', Stands h id c → Stands h id' c' → agree (id, c) (id', c')

section Live

theorem live_unique {id c d : String} (one : Live a id c) (two : Live a id d) : c = d := by
  obtain ⟨rid, p, held, -, rfl⟩ := one
  obtain ⟨other, q, again, -, rfl⟩ := two
  rw [held, Option.some.injEq, Prod.mk.injEq] at again
  rw [again.2]

theorem live_same (heap : b.rounds = a.rounds) (map : b.pending = a.pending) {id c : String}
    (live : Live b id c) : Live a id c := by
  obtain ⟨rid, p, held, rest⟩ := live
  rw [same_pending_round heap map] at held
  exact ⟨rid, p, held, rest⟩

theorem live_modify {rid : ℕ} {g : Round R → Round R} {id c : String}
    (live : Live (a.modify rid g) id c) :
    Live a id c ∨ ∃ p, a.pendingRound id = some (rid, p) ∧ (g p).finalized = false ∧
      (g p).canonical = c := by
  obtain ⟨other, p, held, unfinished, shape⟩ := live
  obtain ⟨map, record⟩ := pending_round_iff.mp held
  rw [modify_round] at record
  obtain ⟨q, stored, changed⟩ := Option.map_eq_some_iff.mp record
  have before : a.pendingRound id = some (other, q) := pending_round_iff.mpr ⟨map, stored⟩
  split at changed
  · rename_i here
    subst here
    subst changed
    exact Or.inr ⟨q, before, unfinished, shape⟩
  · subst changed
    exact Or.inl ⟨other, q, before, unfinished, shape⟩

/-- A change that neither reopens a round nor touches its canonical. -/
theorem live_kept {rid : ℕ} {g : Round R → Round R}
    (keeps : ∀ p : Round R, (g p).finalized = false → p.finalized = false ∧ (g p).canonical = p.canonical)
    {id c : String} (live : Live (a.modify rid g) id c) : Live a id c := by
  rcases live_modify live with old | ⟨p, held, unfinished, shape⟩
  · exact old
  · obtain ⟨before, same⟩ := keeps p unfinished
    exact ⟨rid, p, held, before, by rw [← same]; exact shape⟩

theorem live_forget {matchId id c : String} (live : Live (a.forget matchId) id c) : Live a id c := by
  obtain ⟨rid, p, held, rest⟩ := live
  obtain ⟨map, record⟩ := pending_round_iff.mp held
  by_cases here : id = matchId
  · subst here
    simp [Hub.forget] at map
  · simp only [Hub.forget, OrderedMap.get_erase_other here] at map
    exact ⟨rid, p, pending_round_iff.mpr ⟨map, record⟩, rest⟩

theorem live_open {p : Round R} (linked : ∀ id rid, a.pending.get id = some rid → rid < a.rounds.length)
    {id c : String} (live : Live (a.openRound p) id c) :
    Live a id c ∨ (id = p.matchId ∧ p.canonical = c) := by
  obtain ⟨rid, q, held, unfinished, shape⟩ := live
  obtain ⟨map, record⟩ := pending_round_iff.mp held
  by_cases here : id = p.matchId
  · subst here
    simp only [Hub.openRound, OrderedMap.get_set_same, Option.some.injEq] at map
    subst map
    simp only [Hub.openRound, List.getElem?_concat_length, Option.some.injEq] at record
    subst record
    exact Or.inr ⟨rfl, shape⟩
  · simp only [Hub.openRound, OrderedMap.get_set_other here] at map
    simp only [Hub.openRound, List.getElem?_append_left (linked id rid map)] at record
    exact Or.inl ⟨rid, q, pending_round_iff.mpr ⟨map, record⟩, unfinished, shape⟩

theorem live_finalized_as {matchId id c : String} {rid : ℕ} {p : Round R}
    (live : Live (finalizedAs cfg a matchId rid p) id c) : Live (a.modify rid Round.finalize) id c :=
  live_same (finalized_as_rounds cfg a matchId rid p) (finalized_as_pending cfg a matchId rid p) live

end Live

section Acts

/- What an action does to the canonicals that stand: it adds none, or it puts a row in
   place under one id and signs nothing. -/
def AddsNone (a b : Hub R) : Prop :=
  (∀ id c, Live b id c → Live a id c) ∧ ∀ id c, c ∈ commitsSigned b id → Stands a id c

def PutsInPlace (cfg : Params R) (pol : Policy R) (a b : Hub R) : Prop :=
  commitsSigned b = commitsSigned a ∧ ∃ id row, pol.admits (commitsSigned a) id row ∧
    ∀ other c, Live b other c →
      Live a other c ∨ (other = id ∧ ∃ v, cfg.engine.canonicalMatch row v = some c)

theorem adds_none_silent (live : ∀ id c, Live b id c → Live a id c)
    (commits : commitsSigned b = commitsSigned a) : AddsNone a b := by
  refine ⟨live, ?_⟩
  intro id c signed
  rw [commits] at signed
  exact Or.inr signed

theorem puts_modify {rid : ℕ} {p : Round R} {g : Round R → Round R} {row : R}
    (ready : Ready cfg pol.soles a) (record : a.rounds[rid]? = some p)
    (built : ∃ v, cfg.engine.canonicalMatch row v = some (g p).canonical)
    (permit : pol.admits (commitsSigned a) p.matchId row) : PutsInPlace cfg pol a (a.modify rid g) := by
  refine ⟨rfl, p.matchId, row, permit, ?_⟩
  intro other c live
  rcases live_modify live with old | ⟨q, held, -, shape⟩
  · exact Or.inl old
  · have named := ready.pending_named held
    have stored := (pending_round_iff.mp held).2
    rw [record, Option.some.injEq] at stored
    subst stored
    subst shape
    exact Or.inr ⟨named.symm, built⟩

theorem act_stands (ready : Ready cfg pol.soles a) (act : Act cfg pol a b) :
    AddsNone a b ∨ PutsInPlace cfg pol a b := by
  have kept : ∀ {rid : ℕ} {g : Round R → Round R},
      (∀ p : Round R, (g p).finalized = p.finalized ∧ (g p).canonical = p.canonical) →
      AddsNone a (a.modify rid g) := by
    intro rid g same
    refine adds_none_silent (fun id c => live_kept (fun p unfinished => ?_)) rfl
    rw [(same p).1] at unfinished
    exact ⟨unfinished, (same p).2⟩
  have settled : ∀ {matchId : String} {rid : ℕ} {p : Round R},
      AddsNone a (finalizedAs cfg a matchId rid p) := by
    intro matchId rid p
    refine adds_none_silent (fun id c live => ?_) (commits_signed_finalized cfg a matchId rid p)
    exact live_kept (fun q finished => absurd finished (by simp [Round.finalize]))
      (live_finalized_as live)
  cases act with
  | quiet heap map said tasks =>
    refine Or.inl (adds_none_silent (fun id c => live_same heap map) ?_)
    funext other
    rw [commitsSigned, said, commitsSigned]
  | park sound => exact Or.inl (adds_none_silent (fun id c => live_same rfl rfl) rfl)
  | forget matchId => exact Or.inl (adds_none_silent (fun id c => live_forget) rfl)
  | say silent =>
    exact Or.inl (adds_none_silent (fun id c => live_same rfl rfl) (commits_signed_silent silent))
  | @«open» p opened bound named permit =>
    refine Or.inr ⟨rfl, p.matchId, p.row, permit, ?_⟩
    intro other c live
    have linked : ∀ id rid, a.pending.get id = some rid → rid < a.rounds.length := by
      intro id rid map
      obtain ⟨q, record, -⟩ := ready.linked id rid map
      exact (List.getElem?_eq_some_iff.mp record).1
    rcases live_open linked live with old | ⟨same, shape⟩
    · exact Or.inl old
    · refine Or.inr ⟨same, 0, ?_⟩
      rw [← shape]
      exact opened.canonical
  | mark rid same => exact Or.inl (kept (fun p => ⟨(same p).finalized, (same p).canonical⟩))
  | restamp rid t => exact Or.inl (kept (fun p => ⟨rfl, rfl⟩))
  | rebuild record built permit => exact Or.inr (puts_modify ready record ⟨_, built⟩ permit)
  | @adopt o rebound p held live sound bound permit =>
    refine Or.inr (puts_modify ready (pending_round_iff.mp held).2 ⟨o.view, sound.canonical⟩ ?_)
    rw [ready.pending_named held]
    exact permit
  | countProposal record agrees sound =>
    exact Or.inl (kept (fun p => ⟨count_proposal_finalized _ p, count_proposal_canonical _ p⟩))
  | castOwn record => exact Or.inl (kept (fun p => ⟨rfl, rfl⟩))
  | collect record lowered signed => exact Or.inl (kept (fun p => ⟨rfl, rfl⟩))
  | countPrepare record lowered signed member => exact Or.inl (kept (fun p => ⟨rfl, rfl⟩))
  | countCommit record lowered signed member vote => exact Or.inl (kept (fun p => ⟨rfl, rfl⟩))
  | @sendCommit matchId rid p held live fresh met =>
    refine Or.inl ⟨fun id c still => ?_, fun id c signed => ?_⟩
    · have modified : Live (a.modify rid (Round.sendCommit cfg)) id c := live_same rfl rfl still
      have keeps : ∀ q : Round R, (q.sendCommit cfg).finalized = false →
          q.finalized = false ∧ (q.sendCommit cfg).canonical = q.canonical :=
        fun q unfinished => ⟨unfinished, rfl⟩
      exact live_kept keeps modified
    · rw [commits_signed_emit, Hub.sign, commits_signed_emit] at signed
      simp only [commits_signed_modify, Output.committed, Option.toList_none, List.append_nil,
        List.mem_append, Option.mem_toList, Option.ite_none_right_eq_some, Option.some.injEq] at signed
      rcases signed with old | ⟨same, shape⟩
      · exact Or.inr old
      · subst same
        exact Or.inl ⟨rid, p, held, live, shape⟩
  | finalize held live met fits => exact Or.inl settled
  | finalizeSole held live own fits => exact Or.inl settled
  | @catchUp s p bound verified held live sound bindings proof synced =>
    refine Or.inl (adds_none_silent (fun id c still => ?_) (commits_signed_finalized ..))
    have modified := live_finalized_as still
    rw [modify_twice] at modified
    exact live_kept (fun q finished => absurd finished (by simp [Round.finalize])) modified

variable {agree : String × String → String × String → Prop}

/- What a row about to be put in place must agree with. -/
def Permits (cfg : Params R) (agree : String × String → String × String → Prop) (a : Hub R)
    (id : String) (row : R) : Prop :=
  ∀ v c, cfg.engine.canonicalMatch row v = some c →
    (∀ other d, d ∈ commitsSigned a other → agree (other, d) (id, c)) ∧
    (∀ other d, other ≠ id → Live a other d → agree (other, d) (id, c))

/-- The step lemma of agreement among what stands. -/
theorem Locked.act (locked : Locked agree a) (same : ∀ x, agree x x)
    (symm : ∀ x y, agree x y → agree y x) (ready : Ready cfg pol.soles a) (act : Act cfg pol a b)
    (permit : ∀ id row, pol.admits (commitsSigned a) id row → Permits cfg agree a id row) :
    Locked agree b := by
  rcases act_stands ready act with ⟨live, signed⟩ | ⟨commits, id, row, admitted, placed⟩
  · have before : ∀ x c, Stands b x c → Stands a x c := by
      intro x c stands
      rcases stands with running | committed
      · exact Or.inl (live x c running)
      · exact signed x c committed
    intro x c y d one two
    exact locked x c y d (before x c one) (before y d two)
  · -- the row in place against anything that stood before
    have meets : ∀ x c d, Live b id d → (∃ v, cfg.engine.canonicalMatch row v = some d) →
        Stands b x c → agree (x, c) (id, d) := by
      rintro x c d here ⟨v, built⟩ stands
      obtain ⟨toCommits, toRounds⟩ := permit id row admitted v d built
      rcases stands with running | committed
      · by_cases own : x = id
        · subst own
          rw [live_unique running here]
          exact same _
        · rcases placed x c running with old | ⟨renamed, -⟩
          · exact toRounds x c own old
          · exact absurd renamed own
      · rw [commits] at committed
        exact toCommits x c committed
    have stood : ∀ x c, Stands b x c → Stands a x c ∨
        (x = id ∧ Live b id c ∧ ∃ v, cfg.engine.canonicalMatch row v = some c) := by
      intro x c stands
      rcases stands with running | committed
      · rcases placed x c running with old | ⟨rfl, built⟩
        · exact Or.inl (Or.inl old)
        · exact Or.inr ⟨rfl, running, built⟩
      · rw [commits] at committed
        exact Or.inl (Or.inr committed)
    intro x c y d one two
    rcases stood y d two with old | ⟨rfl, here, built⟩
    · rcases stood x c one with older | ⟨rfl, here, built⟩
      · exact locked x c y d older old
      · exact symm _ _ (meets y d c here built two)
    · exact meets x c d here built one

/-- Rounds of other ids than the one put in place are those of the start of the step. -/
theorem live_elsewhere {h : Hub R} {within : String → Prop}
    (only : ∀ id c, Live a id c → Live h id c ∨ within id) (ready : Ready cfg pol.soles a)
    (act : Act cfg pol a b) (here : ∀ commits id row, pol.admits commits id row → within id) :
    ∀ id c, Live b id c → Live h id c ∨ within id := by
  intro id c live
  rcases act_stands ready act with ⟨before, -⟩ | ⟨-, placed, row, admitted, cases⟩
  · exact only id c (before id c live)
  · rcases cases id c live with old | ⟨rfl, -⟩
    · exact only id c old
    · exact Or.inr (here _ id row admitted)

end Acts
section Events

/- How an action comes to emit a finalized round. -/
inductive Finalizes (cfg : Params R) (pol : Policy R) (h : Hub R) : Finalized R → Prop where
  | votes {id : String} {rid : ℕ} {p : Round R} (held : h.pendingRound id = some (rid, p))
      (live : p.finalized = false) (met : meetsQuorum cfg p.binding p.commits = true)
      (fits : p.Fits pol) : Finalizes cfg pol h (p.event id)
  | sole {id : String} {p : Round R} (fits : p.SoleFits pol) :
      Finalizes cfg pol h (p.event id)
  | synced {s : Sync R} {p : Round R} {b : Binding} {verified : OrderedMap String String}
      (sound : s.Sound cfg) (synced : pol.synced s.matchId s.row) :
      Finalizes cfg pol h ((p.catchUp s b verified).event s.matchId)

theorem act_finalized (act : Act cfg pol a b) {e : Finalized R} (output : .finalized e ∈ b.trace) :
    .finalized e ∈ a.trace ∨ Finalizes cfg pol a e := by
  have emitted : ∀ (h : Hub R) {matchId : String} {rid : ℕ} {p : Round R}, h.trace = a.trace →
      .finalized e ∈ (finalizedAs cfg h matchId rid p).trace →
      .finalized e ∈ a.trace ∨ e = p.event matchId := by
    intro h matchId rid p said member
    rw [finalized_as_trace] at member
    rcases List.mem_append.mp member with old | new
    · rw [← said]
      exact Or.inl old
    · exact Or.inr (Output.finalized.inj (List.mem_singleton.mp new))
  cases act with
  | quiet heap map said tasks =>
    rw [said] at output
    exact Or.inl output
  | say silent =>
    rcases List.mem_append.mp output with old | new
    · exact Or.inl old
    · exact absurd (List.mem_singleton.mp new).symm (silent_not_finalized silent e)
  | sendCommit held live fresh met =>
    exact Or.inl (by simpa [Hub.sign, Hub.emit, Hub.modify] using output)
  | finalize held live met fits =>
    rcases emitted a rfl output with old | rfl
    · exact Or.inl old
    · exact Or.inr (.votes held live met fits)
  | finalizeSole held live mine fits =>
    rcases emitted a rfl output with old | rfl
    · exact Or.inl old
    · exact Or.inr (.sole fits)
  | catchUp held live sound bound proof synced =>
    rcases emitted (a.modify _ _) rfl output with old | rfl
    · exact Or.inl old
    · exact Or.inr (.synced sound synced)
  | _ => exact Or.inl output

end Events
end XChainHub.CrossChain
