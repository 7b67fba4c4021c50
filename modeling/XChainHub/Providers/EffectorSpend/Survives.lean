import Mathlib
import XChainHub.Library.GuardedRuns
import XChainHub.Providers.EffectorSpend.SpendGuard

/-!
An effector over its restarts. Every token its callers hold is kept beside the guard
with the time and the cost of its reservation, and kept on when the process is gone.
The books, in memory and in the file, cover what was handed out and never released.
-/
namespace XChainHub.EffectorSpend
open RollingWindow GuardedRuns

structure Issue where
  token : Token
  time : Int
  cost : Int
  released : Bool
  deriving DecidableEq

structure Process where
  guard : SpendGuard
  issued : List Issue
  deriving DecidableEq

structure World where
  clock : Int
  disk : Disk
  process : Option Process
  gone : List Issue
  deriving DecidableEq

def World.issues (w : World) : List Issue :=
  w.gone ++ (w.process.map Process.issued).getD []

/- Callers name the tokens they hold by their place among those handed out. -/
inductive Call where
  | reserve (cost : Option Int)
  | commit (k : Nat) (actualCost : Option Int)
  | release (k : Nat)
  | pause (reason : Option String)
  | resume

inductive Event where
  | call (now : Int) (c : Call) (write : Write) (dies : Bool)
  | crash
  | start (now : Int) (held : Option (Option String)) (probe : Probe) (write : Write) (dies : Bool)

section Step
variable (cfg : Config)

def Process.call (p : Process) (disk : Disk) (now : Int) (write : Write) :
    Call → Process × Disk
  | .reserve cost =>
    match reserve cfg now cost write p.guard disk with
    | (none, guard, disk) => (⟨guard, p.issued⟩, disk)
    | (some token, guard, disk) =>
      (⟨guard, p.issued ++ [⟨token, now, computeCost cfg cost, false⟩]⟩, disk)
  | .commit k actualCost =>
    match p.issued[k]? with
    | none => (p, disk)
    | some issue =>
      let (token, guard, disk) := commit actualCost write issue.token p.guard disk
      (⟨guard, p.issued.set k { issue with token := token }⟩, disk)
  | .release k =>
    match p.issued[k]? with
    | none => (p, disk)
    | some issue =>
      let (token, guard, disk) := release cfg write issue.token p.guard disk
      let released := issue.released || !issue.token.settled
      (⟨guard, p.issued.set k { issue with token := token, released := released }⟩, disk)
  | .pause reason =>
    let (_, guard, disk) := pause reason write p.guard disk
    (⟨guard, p.issued⟩, disk)
  | .resume =>
    let (_, guard, disk) := resume write p.guard disk
    (⟨guard, p.issued⟩, disk)

/- A new process; a pause may be raised before the store is armed. -/
def begin (now : Int) (held : Option (Option String)) (probe : Probe) (write : Write)
    (disk : Disk) : SpendGuard × Disk :=
  let new := match held with
    | none => SpendGuard.new
    | some reason => (pause reason write SpendGuard.new disk).2.1
  persistTo cfg now probe write new disk

/- A call that its process dies in has gone as far as its write did. -/
def step (w : World) : Event → World
  | .call now c write dies =>
    match w.process with
    | none => { w with clock := now }
    | some p =>
      let (next, disk) := p.call cfg w.disk now write c
      if dies then ⟨now, disk, none, w.gone ++ next.issued⟩ else ⟨now, disk, some next, w.gone⟩
  | .crash => ⟨w.clock, w.disk, none, w.issues⟩
  | .start now held probe write dies =>
    let (guard, disk) := begin cfg now held probe write w.disk
    ⟨now, disk, if dies then none else some ⟨guard, []⟩, w.issues⟩

end Step

section Books
variable (cfg : Config)

def Issue.owed (i : Issue) : Int := if i.released then 0 else i.cost
def Issue.held (i : Issue) : Int := if i.released then 0 else 1
def paid (e : Spend) : Int := computeCost cfg (some e.cost)
def one {A : Type} (_ : A) : Int := 1

/- An entry that no release takes out and that leaves nothing of the budget. -/
def Filled (cutoff : Int) (book : List Spend) : Prop :=
  ∃ e ∈ book, cutoff < e.t ∧ cfg.maxSpendUsdCents ≤ paid cfg e ∧ e.reservation = none

structure Booked (since : Int) (issues : List Issue) (book : List Spend) : Prop where
  cost : Covers Issue.time Issue.owed Spend.t (paid cfg) since issues book
  count : 0 < cfg.maxPerWindow → ∀ cutoff, since ≤ cutoff → Filled cfg cutoff book ∨
    after Issue.time Issue.held cutoff issues ≤ after Spend.t one cutoff book

def Slotted (since : Int) (issues : List Issue) (book : List Spend) (slots : List Int) : Prop :=
  0 < cfg.maxPerWindow → ∀ cutoff, since ≤ cutoff → Filled cfg cutoff book ∨
    after Issue.time Issue.held cutoff issues ≤ after id one cutoff slots

/- What the file says the window holds, none where it cannot be read. -/
def Disk.book : Disk → Option (List Spend)
  | .absent => some []
  | .torn => none
  | .saved text => some text.spends

def DiskBooked (since : Int) (issues : List Issue) (disk : Disk) : Prop :=
  ∀ book, disk.book = some book → Booked cfg since issues book

/- The tokens of a process and the entries made for them. -/
structure Tied (issued : List Issue) (g : SpendGuard) : Prop where
  armed : g.armed = true
  positive : ∀ e ∈ g.spends, 0 < e.cost
  entries : ∀ e ∈ g.spends, ∀ id, e.reservation = some id → id ≤ g.reserveSeq
  ids : ∀ i ∈ issued, i.token.id ≤ g.reserveSeq
  known : ∀ e ∈ g.spends, ∀ i ∈ issued, e.reservation = some i.token.id →
    e.t = i.time ∧ e.cost = i.cost
  handles : ∀ i ∈ issued, i.token.ceilingHandle = if cfg.disabled then none else some i.time
  settled : ∀ i ∈ issued, i.released = true → i.token.settled = true

structure Sane (clock : Int) (issues : List Issue) : Prop where
  each : ∀ i ∈ issues, 0 < i.cost ∧ i.time ≤ clock
  budget : after Issue.time Issue.owed (clock - cfg.windowMs) issues ≤ cfg.maxSpendUsdCents
  number : 0 < cfg.maxPerWindow →
    after Issue.time Issue.held (clock - cfg.windowMs) issues ≤ cfg.maxPerWindow

structure Live (clock : Int) (gone : List Issue) (p : Process) : Prop where
  tied : Tied cfg p.issued p.guard
  booked : Booked cfg (clock - cfg.windowMs) (gone ++ p.issued) p.guard.spends
  slotted : Slotted cfg (clock - cfg.windowMs) (gone ++ p.issued) p.guard.spends p.guard.ceiling

structure Good (clock : Int) (gone : List Issue) (p : Process) (disk : Disk) : Prop where
  sane : Sane cfg clock (gone ++ p.issued)
  disk : DiskBooked cfg (clock - cfg.windowMs) (gone ++ p.issued) disk
  live : Live cfg clock gone p

structure Sound (w : World) : Prop where
  sane : Sane cfg w.clock w.issues
  disk : DiskBooked cfg (w.clock - cfg.windowMs) w.issues w.disk
  live : ∀ p, w.process = some p → Live cfg w.clock w.gone p

variable {cfg} {since since' clock now : Int} {issues fewer : List Issue} {book : List Spend}
  {slots : List Int}

theorem compute_cost_pos (cost : Option Int) : 0 < computeCost cfg cost := by
  have estimate := cfg.est_pos
  unfold computeCost
  split
  · exact estimate
  · split <;> omega

theorem paid_of_pos {e : Spend} (positive : 0 < e.cost) : paid cfg e = e.cost := by
  simp only [paid, computeCost]
  rw [if_neg (by omega)]

theorem owed_nonneg {i : Issue} (positive : 0 < i.cost) : 0 ≤ i.owed := by
  unfold Issue.owed
  split <;> omega

theorem owed_le {i : Issue} (positive : 0 < i.cost) : i.owed ≤ i.cost := by
  unfold Issue.owed
  split <;> omega

theorem held_le (i : Issue) : i.held ≤ 1 := by
  unfold Issue.held
  split <;> omega

theorem held_nonneg (i : Issue) : 0 ≤ i.held := by
  unfold Issue.held
  split <;> omega

theorem enabled_of_pos (capped : 0 < cfg.maxPerWindow) : cfg.disabled = false := by
  simp only [Config.disabled, decide_eq_false_iff_not]
  omega

theorem Filled.grow {cutoff : Int} {more : List Spend} (filled : Filled cfg cutoff book)
    (grows : ∀ e ∈ book, e.reservation = none → cutoff < e.t → e ∈ more) :
    Filled cfg cutoff more := by
  obtain ⟨e, member, young, full, free⟩ := filled
  exact ⟨e, grows e member free young, young, full, free⟩

theorem Booked.later (booked : Booked cfg since issues book) (order : since ≤ since') :
    Booked cfg since' issues book :=
  ⟨booked.cost.later order, fun capped cutoff bound => booked.count capped cutoff (by omega)⟩

/- Fewer tokens are owed than before. -/
structure Less (fewer issues : List Issue) : Prop where
  owed : ∀ cutoff, after Issue.time Issue.owed cutoff fewer ≤ after Issue.time Issue.owed cutoff issues
  held : ∀ cutoff, after Issue.time Issue.held cutoff fewer ≤ after Issue.time Issue.held cutoff issues

theorem Booked.less (booked : Booked cfg since issues book) (less : Less fewer issues) :
    Booked cfg since fewer book := by
  refine ⟨fun cutoff bound => (less.owed cutoff).trans (booked.cost cutoff bound), ?_⟩
  intro capped cutoff bound
  rcases booked.count capped cutoff bound with filled | counted
  · exact Or.inl filled
  · exact Or.inr ((less.held cutoff).trans counted)

theorem DiskBooked.less {disk : Disk} (booked : DiskBooked cfg since issues disk)
    (less : Less fewer issues) : DiskBooked cfg since fewer disk :=
  fun book here => (booked book here).less less

theorem DiskBooked.later {disk : Disk} (booked : DiskBooked cfg since issues disk)
    (order : since ≤ since') : DiskBooked cfg since' issues disk :=
  fun book here => (booked book here).later order

theorem Slotted.later (slotted : Slotted cfg since issues book slots) (order : since ≤ since') :
    Slotted cfg since' issues book slots :=
  fun capped cutoff bound => slotted capped cutoff (by omega)

theorem Booked.prune (booked : Booked cfg (now - cfg.windowMs) issues book) :
    Booked cfg (now - cfg.windowMs) issues (prune cfg now book) := by
  refine ⟨booked.cost.prune (le_refl _), ?_⟩
  intro capped cutoff bound
  rcases booked.count capped cutoff bound with filled | counted
  · refine Or.inl (filled.grow ?_)
    intro e member _ young
    exact member_prune member (by omega)
  · refine Or.inr ?_
    unfold EffectorSpend.prune
    rw [after_prune bound]
    exact counted

theorem Slotted.prune (slotted : Slotted cfg (now - cfg.windowMs) issues book slots) :
    Slotted cfg (now - cfg.windowMs) issues (prune cfg now book) slots := by
  intro capped cutoff bound
  rcases slotted capped cutoff bound with filled | counted
  · refine Or.inl (filled.grow ?_)
    intro e member _ young
    exact member_prune member (by omega)
  · exact Or.inr counted

theorem Slotted.prune_slots (slotted : Slotted cfg (now - cfg.windowMs) issues book slots) :
    Slotted cfg (now - cfg.windowMs) issues book (SpendCeiling.allow cfg now slots).2 := by
  intro capped cutoff bound
  rcases slotted capped cutoff bound with filled | counted
  · exact Or.inl filled
  · refine Or.inr ?_
    rw [SpendCeiling.allow, enabled_of_pos capped]
    simp only [Bool.false_eq_true, if_false, SpendCeiling.prune]
    rw [after_prune bound]
    exact counted

/- A reservation entered in both windows. -/
theorem Booked.enter {i : Issue} {e : Spend} (booked : Booked cfg since issues book)
    (fresh : i.released = false) (positive : 0 < i.cost) (time : e.t = i.time)
    (cost : e.cost = i.cost) : Booked cfg since (issues ++ [i]) (book ++ [e]) := by
  have priced : paid cfg e = i.cost := by rw [paid_of_pos (by omega), cost]
  refine ⟨booked.cost.enter ?_, ?_⟩
  · intro cutoff
    simp [part, time, priced, Issue.owed, fresh]
  · intro capped cutoff bound
    rcases booked.count capped cutoff bound with filled | counted
    · exact Or.inl (filled.grow fun e member _ _ => by simp [member])
    · refine Or.inr ?_
      simp only [after_append, after_singleton]
      have same : part Issue.time Issue.held cutoff i = part Spend.t one cutoff e := by
        simp [part, time, Issue.held, fresh, one]
      omega

theorem Booked.extra {e : Spend} (booked : Booked cfg since issues book) :
    Booked cfg since issues (book ++ [e]) := by
  refine ⟨booked.cost.extra (le_of_lt (compute_cost_pos _)), ?_⟩
  intro capped cutoff bound
  rcases booked.count capped cutoff bound with filled | counted
  · exact Or.inl (filled.grow fun e member _ _ => by simp [member])
  · refine Or.inr ?_
    have more : 0 ≤ part Spend.t one cutoff e := part_nonneg (by simp [one])
    simp only [after_append, after_singleton]
    omega

theorem Slotted.enter {i : Issue} {e : Spend} (slotted : Slotted cfg since issues book slots)
    (fresh : i.released = false) :
    Slotted cfg since (issues ++ [i]) (book ++ [e]) (slots ++ [i.time]) := by
  intro capped cutoff bound
  rcases slotted capped cutoff bound with filled | counted
  · exact Or.inl (filled.grow fun e member _ _ => by simp [member])
  · refine Or.inr ?_
    simp only [after_append, after_singleton]
    have same : part Issue.time Issue.held cutoff i = part id one cutoff i.time := by
      simp [part, Issue.held, fresh, one]
    omega

/-- Whatever a write leaves holds the window, where the guard and the old file do. -/
theorem DiskBooked.leaves {disk : Disk} {text : Saved} (old : DiskBooked cfg since issues disk)
    (new : Booked cfg since issues text.spends) (write : Write) :
    DiskBooked cfg since issues (write.leaves disk text) := by
  intro book here
  cases write with
  | landed =>
    simp only [Write.leaves, Disk.book, Option.some.injEq] at here
    exact here ▸ new
  | refused left =>
    cases left with
    | kept => exact old book here
    | torn => simp [Write.leaves, Disk.book] at here
    | whole =>
      simp only [Write.leaves, Disk.book, Option.some.injEq] at here
      exact here ▸ new

end Books

section Persist
variable {write : Write} {g : SpendGuard} {disk : Disk}

/-- A write changes nothing of the guard but its mark of a broken store. -/
theorem persist_guard (write : Write) (g : SpendGuard) (disk : Disk) :
    ∃ broken, (persist write g disk).2.1 = { g with persistBroken := broken } := by
  unfold persist
  split
  · exact ⟨g.persistBroken, rfl⟩
  · split
    · exact ⟨false, rfl⟩
    · exact ⟨true, rfl⟩

theorem persist_disk (armed : g.armed = true) :
    (persist write g disk).2.2 = write.leaves disk g.text := by
  simp only [persist, armed, Bool.not_true, Bool.false_eq_true, if_false]
  cases write <;> rfl

theorem persist_landed (armed : g.armed = true) (durable : (persist write g disk).1 = true) :
    write = .landed := by
  simp only [persist, armed, Bool.not_true, Bool.false_eq_true, if_false] at durable
  cases write with
  | landed => rfl
  | refused left => cases durable

end Persist

section Reserve
variable {cfg : Config} {now c : Int} {cost : Option Int} {write : Write} {g : SpendGuard}
  {disk : Disk}

/- Both windows as the gates of a reservation leave them. -/
def SpendGuard.pruned (cfg : Config) (now : Int) (g : SpendGuard) : SpendGuard :=
  { g with ceiling := (SpendCeiling.allow cfg now g.ceiling).2, spends := prune cfg now g.spends }

/- All a reservation can do: nothing but pruning, or the entry and its write. -/
theorem reserve_cases (cfg : Config) (now : Int) (cost : Option Int) (write : Write)
    (g : SpendGuard) (disk : Disk) :
    (∃ spends ceiling blocked,
      (spends = g.spends ∨ spends = prune cfg now g.spends) ∧
      (ceiling = g.ceiling ∨ ceiling = (SpendCeiling.allow cfg now g.ceiling).2) ∧
      reserve cfg now cost write g disk =
        (none, { g with spends := spends, ceiling := ceiling, blocked := blocked }, disk)) ∨
    ((SpendCeiling.allow cfg now g.ceiling).1 = true ∧
      total Spend.cost (prune cfg now g.spends) + computeCost cfg cost ≤ cfg.maxSpendUsdCents ∧
      let entered := enter cfg now (computeCost cfg cost) (g.pruned cfg now)
      let written := persist write entered.2 disk
      (written.1 = true ∧ reserve cfg now cost write g disk =
          (some entered.1, written.2.1, written.2.2)) ∨
        (written.1 = false ∧ reserve cfg now cost write g disk =
          (none, rollback cfg entered.1 written.2.1, written.2.2))) := by
  by_cases paused : g.paused = true
  · refine Or.inl ⟨g.spends, g.ceiling, { g.blocked with pause := g.blocked.pause + 1 },
      Or.inl rfl, Or.inl rfl, ?_⟩
    simp [reserve, paused]
  by_cases allowed : (SpendCeiling.allow cfg now g.ceiling).1 = true
  · by_cases above : total Spend.cost (prune cfg now g.spends) + computeCost cfg cost >
        cfg.maxSpendUsdCents
    · refine Or.inl ⟨prune cfg now g.spends, (SpendCeiling.allow cfg now g.ceiling).2,
        { g.blocked with spend := g.blocked.spend + 1 }, Or.inr rfl, Or.inr rfl, ?_⟩
      simp [reserve, paused, allowed, above, blockSpend]
    · refine Or.inr ⟨allowed, by omega, ?_⟩
      dsimp only
      cases durable : (persist write (enter cfg now (computeCost cfg cost) (g.pruned cfg now)).2
          disk).1 with
      | true =>
        refine Or.inl ⟨rfl, ?_⟩
        simp only [SpendGuard.pruned] at durable ⊢
        rw [reserve, if_neg paused]
        simp only [allowed, above, Bool.not_true, Bool.false_eq_true, if_false]
        split
        · rename_i same
          simp [same]
        · rename_i same
          simp [same] at durable
      | false =>
        refine Or.inr ⟨rfl, ?_⟩
        simp only [SpendGuard.pruned] at durable ⊢
        rw [reserve, if_neg paused]
        simp only [allowed, above, Bool.not_true, Bool.false_eq_true, if_false]
        split
        · rename_i same
          simp [same] at durable
        · rename_i same
          simp [same]
  · refine Or.inl ⟨g.spends, (SpendCeiling.allow cfg now g.ceiling).2,
      { g.blocked with spend := g.blocked.spend + 1 }, Or.inl rfl, Or.inr rfl, ?_⟩
    simp [reserve, paused, allowed, blockSpend]

variable {gone : List Issue} {p : Process}

theorem Tied.trim {issued : List Issue} {spends : List Spend} {ceiling : List Int}
    {blocked : Blocked} {broken : Bool} (tied : Tied cfg issued g)
    (fewer : ∀ e ∈ spends, e ∈ g.spends) :
    Tied cfg issued { g with
      spends := spends
      ceiling := ceiling
      persistBroken := broken
      blocked := blocked } where
  armed := tied.armed
  positive e member := tied.positive e (fewer e member)
  entries e member := tied.entries e (fewer e member)
  ids := tied.ids
  known e member := tied.known e (fewer e member)
  handles := tied.handles
  settled := tied.settled

theorem Live.trim {spends : List Spend} {ceiling : List Int} {blocked : Blocked}
    (live : Live cfg now gone p)
    (book : spends = p.guard.spends ∨ spends = prune cfg now p.guard.spends)
    (slots : ceiling = p.guard.ceiling ∨
      ceiling = (SpendCeiling.allow cfg now p.guard.ceiling).2) :
    Live cfg now gone
      ⟨{ p.guard with spends := spends, ceiling := ceiling, blocked := blocked }, p.issued⟩ := by
  have slotted : Slotted cfg (now - cfg.windowMs) (gone ++ p.issued) p.guard.spends ceiling := by
    rcases slots with rfl | rfl
    · exact live.slotted
    · exact live.slotted.prune_slots
  rcases book with rfl | rfl
  · exact ⟨live.tied.trim fun e member => member, live.booked, slotted⟩
  · exact ⟨live.tied.trim fun e member => prune_subset member, live.booked.prune, slotted.prune⟩

theorem total_paid {spends : List Spend} (positive : ∀ e ∈ spends, 0 < e.cost) :
    total (paid cfg) spends = total Spend.cost spends := by
  induction spends with
  | nil => rfl
  | cons e es ih =>
    simp only [total]
    rw [paid_of_pos (positive e (by simp)), ih fun x member => positive x (by simp [member])]

theorem total_one {A : Type} (xs : List A) : total one xs = xs.length := by
  induction xs with
  | nil => rfl
  | cons x xs ih =>
    simp only [total, one, ih, List.length_cons]
    omega

/-- What the gates let through stays within both caps. -/
theorem Sane.enter {i : Issue} {issues : List Issue} {g : SpendGuard}
    (sane : Sane cfg now issues) (positive : ∀ e ∈ g.spends, 0 < e.cost)
    (booked : Booked cfg (now - cfg.windowMs) issues (prune cfg now g.spends))
    (slotted : Slotted cfg (now - cfg.windowMs) issues (prune cfg now g.spends)
      (SpendCeiling.allow cfg now g.ceiling).2)
    (allowed : (SpendCeiling.allow cfg now g.ceiling).1 = true) (costs : 0 < c)
    (within : total Spend.cost (prune cfg now g.spends) + c ≤ cfg.maxSpendUsdCents)
    (time : i.time = now) (cost : i.cost = c) : Sane cfg now (issues ++ [i]) := by
  have pos : ∀ e ∈ prune cfg now g.spends, 0 < e.cost :=
    fun e member => positive e (prune_subset member)
  have nonneg : ∀ e ∈ prune cfg now g.spends, 0 ≤ paid cfg e :=
    fun e _ => le_of_lt (compute_cost_pos _)
  have young : now - cfg.windowMs < now := by
    have := cfg.window_pos
    omega
  constructor
  case each =>
    intro j member
    rcases List.mem_append.mp member with old | new
    · exact sane.each j old
    · rw [List.mem_singleton.mp new]
      exact ⟨by omega, by omega⟩
  case budget =>
    have covered := booked.cost _ (le_refl _)
    have bound := @after_le_total _ Spend.t _ (now - cfg.windowMs) _ nonneg
    rw [total_paid pos] at bound
    have added : part Issue.time Issue.owed (now - cfg.windowMs) i ≤ c := by
      have owed := owed_le (i := i) (by omega)
      have whole := @part_le_amount _ Issue.time _ (now - cfg.windowMs) _
        (owed_nonneg (i := i) (by omega))
      omega
    simp only [after_append, after_singleton]
    omega
  case number =>
    intro capped
    have live : (SpendCeiling.allow cfg now g.ceiling).2.length < cfg.maxPerWindow := by
      rw [SpendCeiling.allow, enabled_of_pos capped] at allowed ⊢
      simpa using allowed
    have added : part Issue.time Issue.held (now - cfg.windowMs) i ≤ 1 :=
      (part_le_amount (held_nonneg i)).trans (held_le i)
    simp only [after_append, after_singleton]
    rcases slotted capped _ (le_refl _) with filled | counted
    · obtain ⟨e, member, _, full, _⟩ := filled
      have bound := member_le_total nonneg member
      rw [total_paid pos] at bound
      omega
    · have bound := @after_le_total _ id one (now - cfg.windowMs) (SpendCeiling.allow cfg now g.ceiling).2
        (by simp [one])
      rw [total_one] at bound
      omega

theorem Live.enter (issue : Issue) (live : Live cfg now gone p)
    (made : issue = ⟨(enter cfg now c (p.guard.pruned cfg now)).1, now, c, false⟩)
    (costs : 0 < c) :
    Live cfg now gone ⟨(enter cfg now c (p.guard.pruned cfg now)).2, p.issued ++ [issue]⟩ := by
  subst made
  have booked := live.booked.prune
  have slotted := live.slotted.prune_slots.prune
  constructor
  case tied =>
    constructor
    case armed => exact live.tied.armed
    case positive =>
      intro e member
      rcases List.mem_append.mp member with old | new
      · exact live.tied.positive e (prune_subset old)
      · rw [List.mem_singleton.mp new]
        exact costs
    case entries =>
      intro e member id reserved
      rcases List.mem_append.mp member with old | new
      · have bound := live.tied.entries e (prune_subset old) id reserved
        simp only [EffectorSpend.enter, SpendGuard.pruned]
        omega
      · rw [List.mem_singleton.mp new] at reserved
        simp only [Option.some.injEq] at reserved
        exact reserved ▸ le_refl _
    case ids =>
      intro i member
      rcases List.mem_append.mp member with old | new
      · have bound := live.tied.ids i old
        simp only [EffectorSpend.enter, SpendGuard.pruned]
        omega
      · rw [List.mem_singleton.mp new]
        exact le_refl _
    case known =>
      intro e book i member reserved
      rcases List.mem_append.mp book with old | new
      · rcases List.mem_append.mp member with held | fresh
        · exact live.tied.known e (prune_subset old) i held reserved
        · rw [List.mem_singleton.mp fresh] at reserved
          have bound := live.tied.entries e (prune_subset old) _ reserved
          simp only [EffectorSpend.enter, SpendGuard.pruned] at bound
          omega
      · rw [List.mem_singleton.mp new] at reserved ⊢
        rcases List.mem_append.mp member with held | fresh
        · have bound := live.tied.ids i held
          simp only [Option.some.injEq, SpendGuard.pruned] at reserved
          omega
        · rw [List.mem_singleton.mp fresh]
          exact ⟨rfl, rfl⟩
    case handles =>
      intro i member
      rcases List.mem_append.mp member with old | new
      · exact live.tied.handles i old
      · rw [List.mem_singleton.mp new]
        simp only [EffectorSpend.enter, SpendCeiling.reserve]
        split <;> rfl
    case settled =>
      intro i member released
      rcases List.mem_append.mp member with old | new
      · exact live.tied.settled i old released
      · rw [List.mem_singleton.mp new] at released
        cases released
  case booked =>
    rw [← List.append_assoc]
    exact booked.enter rfl costs rfl rfl
  case slotted =>
    rw [← List.append_assoc]
    intro capped cutoff bound
    have entered := slotted.enter (e := ⟨now, c, some (p.guard.reserveSeq + 1)⟩)
      (i := ⟨(EffectorSpend.enter cfg now c (p.guard.pruned cfg now)).1, now, c, false⟩) rfl
    rcases entered capped cutoff bound with filled | counted
    · exact Or.inl filled
    · refine Or.inr (counted.trans (le_of_eq ?_))
      simp only [EffectorSpend.enter, SpendGuard.pruned, SpendCeiling.reserve, enabled_of_pos capped,
        Bool.false_eq_true, if_false, SpendCeiling.prune, after_append]
      rw [after_prune bound]

/-- The splice takes the entry of the refused reservation and no other. -/
theorem drop_entered {spends : List Spend} {e : Spend} {id : Nat}
    (others : ∀ x ∈ spends, x.reservation ≠ some id) (own : e.reservation = some id) :
    dropReservation id (spends ++ [e]) = spends := by
  unfold dropReservation
  rw [List.eraseP_append_right]
  · simp [own]
  · intro x member
    simpa using others x member

theorem Live.rollback {broken : Bool} (live : Live cfg now gone p) :
    let entered := EffectorSpend.enter cfg now c (p.guard.pruned cfg now)
    Live cfg now gone
      ⟨EffectorSpend.rollback cfg entered.1 { entered.2 with persistBroken := broken }, p.issued⟩ := by
  intro entered
  have others : ∀ x ∈ prune cfg now p.guard.spends, x.reservation ≠ some (p.guard.reserveSeq + 1) := by
    intro x member reserved
    have bound := live.tied.entries x (prune_subset member) _ reserved
    omega
  have spends : (EffectorSpend.rollback cfg entered.1 { entered.2 with persistBroken := broken }).spends =
      prune cfg now p.guard.spends := drop_entered others rfl
  constructor
  case tied =>
    constructor
    case armed => exact live.tied.armed
    case positive =>
      intro e member
      rw [spends] at member
      exact live.tied.positive e (prune_subset member)
    case entries =>
      intro e member id reserved
      rw [spends] at member
      have bound := live.tied.entries e (prune_subset member) id reserved
      show id ≤ p.guard.reserveSeq + 1
      omega
    case ids =>
      intro i member
      have bound := live.tied.ids i member
      show i.token.id ≤ p.guard.reserveSeq + 1
      omega
    case known =>
      intro e member
      rw [spends] at member
      exact live.tied.known e (prune_subset member)
    case handles => exact live.tied.handles
    case settled => exact live.tied.settled
  case booked =>
    rw [spends]
    exact live.booked.prune
  case slotted =>
    rw [spends]
    intro capped cutoff bound
    rcases live.slotted.prune_slots.prune capped cutoff bound with filled | counted
    · exact Or.inl filled
    · refine Or.inr ?_
      have enabled := enabled_of_pos capped
      have taken := @after_eraseP _ id one
        (SpendCeiling.prune cfg now (p.guard.pruned cfg now).ceiling ++ [now])
        (fun x => decide (x = now))
        ⟨now, by simp, by simp⟩
      obtain ⟨x, _, same, rest⟩ := taken
      have same : x = now := by simpa using same
      have rest := rest cutoff
      simp only [after_append, after_singleton, same] at rest
      simp only [entered, EffectorSpend.rollback, EffectorSpend.enter, SpendCeiling.reserve,
        SpendCeiling.release, enabled, Bool.false_eq_true, if_false]
      have live : after id one cutoff (SpendCeiling.prune cfg now (p.guard.pruned cfg now).ceiling) =
          after id one cutoff (p.guard.pruned cfg now).ceiling := after_prune bound
      simp only [SpendGuard.pruned] at live rest ⊢
      omega

/-- A guard marked broken or mended is as good as it was. -/
theorem Live.mark {broken : Bool} (live : Live cfg now gone p) :
    Live cfg now gone ⟨{ p.guard with persistBroken := broken }, p.issued⟩ :=
  ⟨live.tied.trim fun _ member => member, live.booked, live.slotted⟩

theorem Good.reserve (good : Good cfg now gone p disk) (cost : Option Int) (write : Write) :
    Good cfg now gone (p.call cfg disk now write (.reserve cost)).1
      (p.call cfg disk now write (.reserve cost)).2 := by
  have live := good.live
  have costs := @compute_cost_pos cfg cost
  rcases reserve_cases cfg now cost write p.guard disk with
    ⟨spends, ceiling, blocked, book, slots, result⟩ | ⟨allowed, within, result⟩
  · simp only [Process.call, result]
    exact ⟨good.sane, good.disk, live.trim book slots⟩
  · let issue : Issue :=
      ⟨(enter cfg now (computeCost cfg cost) (p.guard.pruned cfg now)).1, now, computeCost cfg cost, false⟩
    have entered := live.enter issue rfl costs
    have armed : (enter cfg now (computeCost cfg cost) (p.guard.pruned cfg now)).2.armed = true :=
      live.tied.armed
    obtain ⟨broken, marked⟩ := persist_guard write
      (enter cfg now (computeCost cfg cost) (p.guard.pruned cfg now)).2 disk
    rcases result with ⟨durable, result⟩ | ⟨_, result⟩
    · simp only [Process.call, result]
      have sane := good.sane.enter live.tied.positive live.booked.prune
        live.slotted.prune_slots.prune allowed costs within (i := issue) rfl rfl
      rw [marked, persist_disk armed]
      refine ⟨?_, ?_, entered.mark⟩
      · rw [← List.append_assoc]
        exact sane
      · rw [persist_landed armed durable]
        intro book here
        simp only [Write.leaves, Disk.book, Option.some.injEq] at here
        exact here ▸ entered.booked
    · simp only [Process.call, result]
      rw [marked, persist_disk armed]
      exact ⟨good.sane, good.disk.leaves (live.booked.prune.extra) write, live.rollback⟩

end Reserve

section Settle
variable {cfg : Config} {now : Int} {write : Write} {disk : Disk} {gone : List Issue} {p : Process}
  {issue put : Issue} {k : Nat}

/- A token put back in its place, with its mark and nothing else changed. -/
structure Restamped (issue put : Issue) : Prop where
  id : put.token.id = issue.token.id
  handle : put.token.ceilingHandle = issue.token.ceilingHandle
  time : put.time = issue.time
  cost : put.cost = issue.cost
  settled : put.token.settled = true
  kept : issue.released = true → put.released = true

theorem Restamped.owed (restamped : Restamped issue put) (positive : 0 < issue.cost) :
    put.owed ≤ issue.owed := by
  unfold Issue.owed
  split
  · split <;> omega
  · rename_i outstanding
    rw [if_neg fun released => outstanding (restamped.kept released), restamped.cost]

theorem Restamped.held (restamped : Restamped issue put) : put.held ≤ issue.held := by
  unfold Issue.held
  split
  · split <;> omega
  · rename_i outstanding
    rw [if_neg fun released => outstanding (restamped.kept released)]

theorem member_set {i : Issue} (member : i ∈ p.issued.set k put) : i ∈ p.issued ∨ i = put :=
  (List.mem_or_eq_of_mem_set member)

theorem less_set (found : p.issued[k]? = some issue) (restamped : Restamped issue put)
    (positive : 0 < issue.cost) : Less (gone ++ p.issued.set k put) (gone ++ p.issued) := by
  constructor
  case owed =>
    intro cutoff
    have moved := @after_set _ Issue.time Issue.owed cutoff _ _ _ found put
    have smaller := @part_le_part _ _ _ cutoff _ _ restamped.time (restamped.owed positive)
    simp only [after_append]
    omega
  case held =>
    intro cutoff
    have moved := @after_set _ Issue.time Issue.held cutoff _ _ _ found put
    have smaller := @part_le_part _ _ _ cutoff _ _ restamped.time restamped.held
    simp only [after_append]
    omega

theorem Sane.set (sane : Sane cfg now (gone ++ p.issued)) (found : p.issued[k]? = some issue)
    (restamped : Restamped issue put) : Sane cfg now (gone ++ p.issued.set k put) := by
  have here : issue ∈ gone ++ p.issued := List.mem_append.mpr (Or.inr (List.mem_of_getElem? found))
  have fields := sane.each issue here
  have less := @less_set gone _ _ _ _ found restamped fields.1
  refine ⟨?_, (less.owed _).trans sane.budget, fun capped => (less.held _).trans (sane.number capped)⟩
  intro i member
  rcases List.mem_append.mp member with old | new
  · exact sane.each i (by simp [old])
  · rcases member_set new with kept | rfl
    · exact sane.each i (by simp [kept])
    · rw [restamped.cost, restamped.time]
      exact fields

theorem Tied.set {g : SpendGuard} (tied : Tied cfg p.issued g) (found : p.issued[k]? = some issue)
    (restamped : Restamped issue put) : Tied cfg (p.issued.set k put) g := by
  have here := List.mem_of_getElem? found
  refine ⟨tied.armed, tied.positive, tied.entries, ?_, ?_, ?_, ?_⟩
  · intro i member
    rcases member_set member with kept | rfl
    · exact tied.ids i kept
    · rw [restamped.id]
      exact tied.ids issue here
  · intro e book i member reserved
    rcases member_set member with kept | rfl
    · exact tied.known e book i kept reserved
    · rw [restamped.time, restamped.cost]
      exact tied.known e book issue here (restamped.id ▸ reserved)
  · intro i member
    rcases member_set member with kept | rfl
    · exact tied.handles i kept
    · rw [restamped.handle, restamped.time]
      exact tied.handles issue here
  · intro i member released
    rcases member_set member with kept | rfl
    · exact tied.settled i kept released
    · exact restamped.settled

/-- Settling a token without taking its entry. -/
theorem Good.settle (good : Good cfg now gone p disk) (found : p.issued[k]? = some issue)
    (restamped : Restamped issue put) : Good cfg now gone ⟨p.guard, p.issued.set k put⟩ disk := by
  have here : issue ∈ gone ++ p.issued := List.mem_append.mpr (Or.inr (List.mem_of_getElem? found))
  have less := @less_set gone _ _ _ _ found restamped (good.sane.each issue here).1
  refine ⟨good.sane.set found restamped, good.disk.less less, good.live.tied.set found restamped,
    good.live.booked.less less, ?_⟩
  intro capped cutoff bound
  rcases good.live.slotted capped cutoff bound with filled | counted
  · exact Or.inl filled
  · exact Or.inr ((less.held cutoff).trans counted)

theorem after_released {cutoff : Int} (found : p.issued[k]? = some issue) (amount : Issue → Int)
    (zero : amount put = 0) :
    after Issue.time amount cutoff (gone ++ p.issued.set k put) +
        part Issue.time amount cutoff issue =
      after Issue.time amount cutoff (gone ++ p.issued) := by
  have moved := @after_set _ Issue.time amount cutoff _ _ _ found put
  have none : part Issue.time amount cutoff put = 0 := by simp [part, zero]
  simp only [after_append]
  omega

/-- The entry of a released token leaves the book with no more than the token was owed. -/
theorem Booked.drop (live : Live cfg now gone p) (found : p.issued[k]? = some issue)
    (restamped : Restamped issue put) (positive : 0 < issue.cost)
    (outstanding : issue.released = false) (released : put.released = true) :
    Booked cfg (now - cfg.windowMs) (gone ++ p.issued.set k put)
      (dropReservation issue.token.id p.guard.spends) := by
  have here := List.mem_of_getElem? found
  have kept : ∀ e ∈ p.guard.spends, e.reservation = none →
      e ∈ dropReservation issue.token.id p.guard.spends := by
    intro e member free
    exact (List.mem_eraseP_of_neg (by simp [free])).mpr member
  by_cases listed : ∃ e ∈ p.guard.spends, decide (e.reservation = some issue.token.id) = true
  · constructor
    case cost =>
      obtain ⟨e, member, hit, rest⟩ := @after_eraseP _ Spend.t (paid cfg) _ _ listed
      obtain ⟨when_, much⟩ := live.tied.known e member issue here (by simpa using hit)
      intro cutoff bound
      have covered := live.booked.cost cutoff bound
      have same : part Spend.t (paid cfg) cutoff e = part Issue.time Issue.owed cutoff issue := by
        simp [part, when_, paid_of_pos (live.tied.positive e member), much, Issue.owed, outstanding]
      have out := @after_released gone _ _ _ _ cutoff found Issue.owed
        (show put.owed = 0 by simp [Issue.owed, released])
      have erased := rest cutoff
      unfold dropReservation
      omega
    case count =>
      obtain ⟨e, member, hit, rest⟩ := @after_eraseP _ Spend.t one _ _ listed
      obtain ⟨when_, _⟩ := live.tied.known e member issue here (by simpa using hit)
      intro capped cutoff bound
      rcases live.booked.count capped cutoff bound with filled | counted
      · exact Or.inl (filled.grow fun e member free _ => kept e member free)
      · refine Or.inr ?_
        have same : part Spend.t one cutoff e = part Issue.time Issue.held cutoff issue := by
          simp [part, when_, one, Issue.held, outstanding]
        have out := @after_released gone _ _ _ _ cutoff found Issue.held
          (show put.held = 0 by simp [Issue.held, released])
        have erased := rest cutoff
        unfold dropReservation
        omega
  · have unchanged : dropReservation issue.token.id p.guard.spends = p.guard.spends := by
      refine List.eraseP_of_forall_not ?_
      intro e member hit
      exact listed ⟨e, member, hit⟩
    rw [unchanged]
    exact live.booked.less (less_set found restamped positive)

theorem Slotted.drop (live : Live cfg now gone p) (found : p.issued[k]? = some issue)
    (restamped : Restamped issue put) (positive : 0 < issue.cost)
    (outstanding : issue.released = false) (released : put.released = true) :
    Slotted cfg (now - cfg.windowMs) (gone ++ p.issued.set k put)
      (dropReservation issue.token.id p.guard.spends)
      (SpendCeiling.release cfg issue.token.ceilingHandle p.guard.ceiling) := by
  intro capped cutoff bound
  have enabled := enabled_of_pos capped
  rcases live.slotted capped cutoff bound with filled | counted
  · refine Or.inl (filled.grow ?_)
    intro e member free _
    exact (List.mem_eraseP_of_neg (by simp [free])).mpr member
  · refine Or.inr ?_
    have handle := live.tied.handles issue (List.mem_of_getElem? found)
    simp only [enabled, Bool.false_eq_true, if_false] at handle
    simp only [SpendCeiling.release, handle, enabled, Bool.false_eq_true, if_false]
    by_cases listed : ∃ t ∈ p.guard.ceiling, decide (t = issue.time) = true
    · obtain ⟨t, _, hit, rest⟩ := @after_eraseP _ id one _ _ listed
      have out := @after_released gone _ _ _ _ cutoff found Issue.held
        (show put.held = 0 by simp [Issue.held, released])
      have same : part id one cutoff t = part Issue.time Issue.held cutoff issue := by
        simp [part, of_decide_eq_true hit, one, Issue.held, outstanding]
      have erased := rest cutoff
      omega
    · rw [List.eraseP_of_forall_not fun t member hit => listed ⟨t, member, hit⟩]
      exact ((less_set found restamped positive).held cutoff).trans counted

theorem Good.release (good : Good cfg now gone p disk) (k : Nat) (write : Write) :
    Good cfg now gone (p.call cfg disk now write (.release k)).1
      (p.call cfg disk now write (.release k)).2 := by
  cases found : p.issued[k]? with
  | none =>
    simp only [Process.call, found]
    exact good
  | some issue =>
    simp only [Process.call, found]
    have here := List.mem_of_getElem? found
    have positive := (good.sane.each issue (List.mem_append.mpr (Or.inr here))).1
    have live := good.live
    cases settled : issue.token.settled with
    | true =>
      simp only [EffectorSpend.release, settled, if_true, Bool.not_true, Bool.or_false]
      exact good.settle found ⟨rfl, rfl, rfl, rfl, settled, id⟩
    | false =>
      have outstanding : issue.released = false := by
        cases released : issue.released with
        | false => rfl
        | true => exact absurd (live.tied.settled issue here released) (by simp [settled])
      simp only [EffectorSpend.release, settled, Bool.false_eq_true, if_false, Bool.not_false,
        Bool.or_true]
      let put : Issue :=
        { issue with token := { issue.token with settled := true }, released := true }
      have restamped : Restamped issue put := ⟨rfl, rfl, rfl, rfl, rfl, fun _ => rfl⟩
      have booked := Booked.drop live found restamped positive outstanding rfl
      have slotted := Slotted.drop live found restamped positive outstanding rfl
      let dropped : SpendGuard :=
        { p.guard with
          spends := dropReservation issue.token.id p.guard.spends
          ceiling := SpendCeiling.release cfg issue.token.ceilingHandle p.guard.ceiling }
      have armed : dropped.armed = true := live.tied.armed
      obtain ⟨broken, marked⟩ := persist_guard write dropped disk
      rw [marked, persist_disk armed]
      have tied : Tied cfg (p.issued.set k put) { dropped with persistBroken := broken } :=
        (live.tied.set found restamped).trim fun e member => List.mem_of_mem_eraseP member
      have less := @less_set gone _ _ _ _ found restamped positive
      exact ⟨good.sane.set found restamped, (good.disk.less less).leaves booked write,
        tied, booked, slotted⟩

theorem Good.commit (good : Good cfg now gone p disk) (k : Nat) {actualCost : Option Int}
    (unusable : ∀ c, actualCost = some c → c ≤ 0) (write : Write) :
    Good cfg now gone (p.call cfg disk now write (.commit k actualCost)).1
      (p.call cfg disk now write (.commit k actualCost)).2 := by
  cases found : p.issued[k]? with
  | none =>
    simp only [Process.call, found]
    exact good
  | some issue =>
    have settles : EffectorSpend.commit actualCost write issue.token p.guard disk =
        ({ issue.token with settled := true }, p.guard, disk) := by
      cases actualCost with
      | none => rfl
      | some c => simp [EffectorSpend.commit, unusable c rfl]
    simp only [Process.call, found, settles]
    exact good.settle found ⟨rfl, rfl, rfl, rfl, rfl, id⟩

/-- A change of the pause is written with the window as it stands. -/
theorem Good.repause (good : Good cfg now gone p disk) (paused : Bool) (reason : Option String)
    (write : Write) :
    Good cfg now gone
      ⟨(persist write { p.guard with paused := paused, pauseReason := reason } disk).2.1, p.issued⟩
      (persist write { p.guard with paused := paused, pauseReason := reason } disk).2.2 := by
  have live := good.live
  let held : SpendGuard := { p.guard with paused := paused, pauseReason := reason }
  have armed : held.armed = true := live.tied.armed
  obtain ⟨broken, marked⟩ := persist_guard write held disk
  rw [marked, persist_disk armed]
  refine ⟨good.sane, good.disk.leaves live.booked write, ?_, live.booked, live.slotted⟩
  exact ⟨live.tied.armed, live.tied.positive, live.tied.entries, live.tied.ids, live.tied.known,
    live.tied.handles, live.tied.settled⟩

end Settle

section Start
variable {cfg : Config} {now cutoff : Int} {write : Write} {disk : Disk} {issues : List Issue}
  {g : SpendGuard} {xs : List Spend}

/- A guard whose entries were all read back or assumed, so that no token names one. -/
structure Restored (g : SpendGuard) : Prop where
  armed : g.armed = true
  positive : ∀ e ∈ g.spends, 0 < e.cost
  free : ∀ e ∈ g.spends, e.reservation = none

theorem Restored.tied (restored : Restored g) : Tied cfg [] g := by
  refine ⟨restored.armed, restored.positive, ?_, by simp, by simp, by simp, by simp⟩
  intro e member id reserved
  rw [restored.free e member] at reserved
  cases reserved

theorem record_slot {t : Int} {spends : List Int} (capped : 0 < cfg.maxPerWindow)
    (live : now - cfg.windowMs ≤ cutoff) (order : t ≤ now) :
    after id one cutoff spends + part id one cutoff t ≤
      after id one cutoff (SpendCeiling.record cfg now t spends) := by
  simp only [SpendCeiling.record, enabled_of_pos capped, Bool.false_eq_true, if_false,
    SpendCeiling.prune, after_append, after_singleton]
  by_cases zero : t = 0
  · have limit : part id one cutoff t ≤ part id one cutoff now := by
      simp only [part, id, one]
      split
      · rw [if_pos (by omega)]
      · split <;> omega
    rw [if_pos zero, after_prune live]
    omega
  · rw [if_neg zero, after_prune (by omega)]

/-- What the loop over the saved entries does to the two windows before now. -/
theorem restore_fold (restored : Restored g) (live : now - cfg.windowMs ≤ cutoff)
    (past : cutoff < now) :
    let loaded := xs.foldl (restoreSpend cfg now) g
    Restored loaded ∧
      after Spend.t (paid cfg) cutoff loaded.spends =
        after Spend.t (paid cfg) cutoff g.spends + after Spend.t (paid cfg) cutoff xs ∧
      after Spend.t one cutoff loaded.spends =
        after Spend.t one cutoff g.spends + after Spend.t one cutoff xs ∧
      (0 < cfg.maxPerWindow → after id one cutoff g.ceiling + after Spend.t one cutoff xs ≤
        after id one cutoff loaded.ceiling) ∧
      (Filled cfg cutoff g.spends ∨ Filled cfg cutoff xs → Filled cfg cutoff loaded.spends) := by
  induction xs generalizing g with
  | nil => simp [restored, Filled]
  | cons e es ih =>
    by_cases old : e.t ≤ now - cfg.windowMs
    · have skip : restoreSpend cfg now g e = g := if_pos old
      have none {amount : Spend → Int} : part Spend.t amount cutoff e = 0 := part_old (by omega)
      obtain ⟨kept, cost, count, slots, filled⟩ := ih restored
      simp only [List.foldl_cons, skip, after, none, zero_add]
      refine ⟨kept, cost, count, slots, ?_⟩
      rintro (before | ⟨x, member, young, rest⟩)
      · exact filled (Or.inl before)
      · rcases List.mem_cons.mp member with rfl | later
        · omega
        · exact filled (Or.inr ⟨x, later, young, rest⟩)
    · have entry : restoreSpend cfg now g e =
          { g with
            spends := g.spends ++ [⟨min e.t now, computeCost cfg (some e.cost), none⟩]
            ceiling := SpendCeiling.record cfg now (min e.t now) g.ceiling } := if_neg old
      have costs : 0 < computeCost cfg (some e.cost) := compute_cost_pos _
      have next : Restored (restoreSpend cfg now g e) := by
        rw [entry]
        refine ⟨restored.armed, ?_, ?_⟩
        · intro x member
          rcases List.mem_append.mp member with before | new
          · exact restored.positive x before
          · rw [List.mem_singleton.mp new]
            exact costs
        · intro x member
          rcases List.mem_append.mp member with before | new
          · exact restored.free x before
          · rw [List.mem_singleton.mp new]
      have young : cutoff < min e.t now ↔ cutoff < e.t := by omega
      have price : paid cfg ⟨min e.t now, computeCost cfg (some e.cost), none⟩ = paid cfg e :=
        paid_of_pos costs
      obtain ⟨kept, cost, count, slots, filled⟩ := ih next
      rw [List.foldl_cons]
      refine ⟨kept, ?_, ?_, ?_, ?_⟩
      · rw [cost, entry]
        simp only [after_append, after, part, young, price]
        omega
      · rw [count, entry]
        simp only [after_append, after, part, young, one]
        omega
      · intro capped
        refine le_trans ?_ (slots capped)
        have slot : after id one cutoff g.ceiling + part id one cutoff (min e.t now) ≤ _ :=
          record_slot capped live (min_le_right e.t now)
        have same : part Spend.t one cutoff e = part id one cutoff (min e.t now) := by
          simp only [part, id, young, one]
        rw [entry]
        simp only [after]
        omega
      · rintro (before | ⟨x, member, fresh, full, free⟩)
        · refine filled (Or.inl ?_)
          rw [entry]
          exact before.grow fun x member _ _ => by simp [member]
        · rcases List.mem_cons.mp member with rfl | later
          · refine filled (Or.inl ?_)
            rw [entry]
            exact ⟨_, by simp, young.mpr fresh, price ▸ full, rfl⟩
          · exact filled (Or.inr ⟨x, later, fresh, full, free⟩)

/- The books of a process that has just read them, whatever the file was. -/
structure Opened (cfg : Config) (now : Int) (issues : List Issue) (g : SpendGuard) : Prop where
  restored : Restored g
  booked : Booked cfg (now - cfg.windowMs) issues g.spends
  slotted : Slotted cfg (now - cfg.windowMs) issues g.spends g.ceiling

/- What the callers hold is behind no cutoff from now on. -/
theorem held_past (sane : Sane cfg now issues) (bound : now ≤ cutoff) :
    after Issue.time Issue.owed cutoff issues = 0 ∧ after Issue.time Issue.held cutoff issues = 0 := by
  constructor <;>
  · refine after_old ?_
    intro i member
    have := (sane.each i member).2
    omega

theorem Opened.of_past (sane : Sane cfg now issues) (restored : Restored g)
    (cost : ∀ cutoff, now - cfg.windowMs ≤ cutoff → cutoff < now →
      after Issue.time Issue.owed cutoff issues ≤ after Spend.t (paid cfg) cutoff g.spends)
    (count : 0 < cfg.maxPerWindow → ∀ cutoff, now - cfg.windowMs ≤ cutoff → cutoff < now →
      Filled cfg cutoff g.spends ∨
        after Issue.time Issue.held cutoff issues ≤ after Spend.t one cutoff g.spends ∧
        after Issue.time Issue.held cutoff issues ≤ after id one cutoff g.ceiling) :
    Opened cfg now issues g := by
  have paidNonneg (cutoff : Int) : 0 ≤ after Spend.t (paid cfg) cutoff g.spends :=
    after_nonneg fun e _ => le_of_lt (compute_cost_pos _)
  have countNonneg (cutoff : Int) : 0 ≤ after Spend.t one cutoff g.spends :=
    after_nonneg fun e _ => by simp [one]
  have slotNonneg (cutoff : Int) : 0 ≤ after id one cutoff g.ceiling :=
    after_nonneg fun t _ => by simp [one]
  refine ⟨restored, ⟨?_, ?_⟩, ?_⟩
  · intro cutoff bound
    by_cases past : cutoff < now
    · exact cost cutoff bound past
    · rw [(held_past sane (by omega)).1]
      exact paidNonneg cutoff
  · intro capped cutoff bound
    by_cases past : cutoff < now
    · exact (count capped cutoff bound past).imp id And.left
    · rw [(held_past sane (by omega)).2]
      exact Or.inr (countNonneg cutoff)
  · intro capped cutoff bound
    by_cases past : cutoff < now
    · exact (count capped cutoff bound past).imp id And.right
    · rw [(held_past sane (by omega)).2]
      exact Or.inr (slotNonneg cutoff)

/- A guard fresh from its constructor, armed and perhaps paused. -/
structure Blank (g : SpendGuard) : Prop where
  armed : g.armed = true
  spends : g.spends = []
  ceiling : g.ceiling = []

theorem Blank.restored (blank : Blank g) : Restored g :=
  ⟨blank.armed, by simp [blank.spends], by simp [blank.spends]⟩

theorem opened_seed (blank : Blank g) (sane : Sane cfg now issues) :
    Opened cfg now issues (seedConsumed cfg now g) := by
  have seeded : (seedConsumed cfg now g).spends = [⟨now, cfg.maxSpendUsdCents, none⟩] := by
    simp [seedConsumed, blank.spends]
  have price : paid cfg ⟨now, cfg.maxSpendUsdCents, none⟩ = cfg.maxSpendUsdCents :=
    paid_of_pos cfg.budget_pos
  have positive : ∀ i ∈ issues, 0 ≤ i.owed :=
    fun i member => owed_nonneg (sane.each i member).1
  have number : ∀ i ∈ issues, 0 ≤ i.held := fun i _ => held_nonneg i
  refine Opened.of_past sane ⟨blank.armed, ?_, ?_⟩ ?_ ?_
  · rw [seeded]
    simpa using cfg.budget_pos
  · rw [seeded]
    simp
  · intro cutoff bound past
    have before := @after_antitone _ Issue.time _ _ _ _ positive bound
    have whole : after Spend.t (paid cfg) cutoff (seedConsumed cfg now g).spends =
        cfg.maxSpendUsdCents := by
      simp only [seeded, after_singleton, part, price]
      exact if_pos past
    have := sane.budget
    omega
  · intro capped cutoff bound past
    refine Or.inl ⟨⟨now, cfg.maxSpendUsdCents, none⟩, ?_, past, ?_, rfl⟩
    · simp [seeded]
    · rw [price]

theorem opened_empty (blank : Blank g) (sane : Sane cfg now issues)
    (none : Booked cfg (now - cfg.windowMs) issues []) :
    Opened cfg now issues g := by
  refine Opened.of_past sane blank.restored ?_ ?_
  · intro cutoff bound _
    simpa [blank.spends] using none.cost cutoff bound
  · intro capped cutoff bound _
    rw [blank.spends, blank.ceiling]
    exact (none.count capped cutoff bound).imp id fun counted => ⟨counted, by simpa using counted⟩

theorem filled_perm {ys : List Spend} (same : xs.Perm ys) (filled : Filled cfg cutoff xs) :
    Filled cfg cutoff ys :=
  filled.grow fun _ member _ _ => same.subset member

theorem opened_window (blank : Blank g) (sane : Sane cfg now issues) {saved : Saved}
    (booked : Booked cfg (now - cfg.windowMs) issues saved.spends) :
    Opened cfg now issues (restoreWindow cfg now saved g) := by
  let loaded := saved.spends.foldl (restoreSpend cfg now) g
  have window := cfg.window_pos
  have sorted : (restoreWindow cfg now saved g).spends.Perm loaded.spends :=
    List.mergeSort_perm _ _
  have fold (cutoff : Int) (live : now - cfg.windowMs ≤ cutoff) (past : cutoff < now) :=
    @restore_fold _ _ _ _ saved.spends blank.restored live past
  have restored : Restored loaded := (fold (now - cfg.windowMs) (le_refl _) (by omega)).1
  refine Opened.of_past sane ⟨restored.armed, ?_, ?_⟩ ?_ ?_
  · exact fun e member => restored.positive e (sorted.subset member)
  · exact fun e member => restored.free e (sorted.subset member)
  · intro cutoff bound past
    obtain ⟨_, cost, _⟩ := fold cutoff bound past
    rw [after_perm sorted, cost, blank.spends, after_nil, zero_add]
    exact booked.cost cutoff bound
  · intro capped cutoff bound past
    obtain ⟨_, _, count, slots, filled⟩ := fold cutoff bound past
    rcases booked.count capped cutoff bound with full | counted
    · exact Or.inl (filled_perm sorted.symm (filled (Or.inr full)))
    · refine Or.inr ⟨?_, ?_⟩
      · rw [after_perm sorted, count, blank.spends, after_nil, zero_add]
        exact counted
      · have slot := slots capped
        rw [blank.ceiling, after_nil, zero_add] at slot
        exact counted.trans slot

theorem opened_load (blank : Blank g) (sane : Sane cfg now issues) (probe : Probe)
    (booked : DiskBooked cfg (now - cfg.windowMs) issues disk) :
    Opened cfg now issues (loadState cfg now probe disk g) := by
  unfold loadState
  split
  · exact opened_seed blank sane
  · cases disk with
    | absent =>
      dsimp only
      split
      · exact opened_empty blank sane (booked [] rfl)
      · exact opened_seed blank sane
    | torn => exact opened_seed blank sane
    | saved text =>
      have still : Blank (restorePause text g) := by
        unfold restorePause
        split
        · exact blank
        · exact ⟨blank.armed, blank.spends, blank.ceiling⟩
      exact opened_window still sane (booked text.spends rfl)

theorem Opened.good {gone : List Issue} (opened : Opened cfg now gone g)
    (sane : Sane cfg now gone) (booked : DiskBooked cfg (now - cfg.windowMs) gone disk) :
    Good cfg now gone ⟨g, []⟩ disk := by
  have none : gone ++ [] = gone := List.append_nil gone
  refine ⟨none.symm ▸ sane, none.symm ▸ booked, opened.restored.tied, ?_, ?_⟩
  · exact none.symm ▸ opened.booked
  · exact none.symm ▸ opened.slotted

theorem good_begin (sane : Sane cfg now issues)
    (booked : DiskBooked cfg (now - cfg.windowMs) issues disk)
    (held : Option (Option String)) (probe : Probe) :
    Good cfg now issues ⟨(begin cfg now held probe write disk).1, []⟩
      (begin cfg now held probe write disk).2 := by
  have opens (g : SpendGuard) (spends : g.spends = []) (ceiling : g.ceiling = []) :
      Good cfg now issues ⟨(persistTo cfg now probe write g disk).1, []⟩
        (persistTo cfg now probe write g disk).2 := by
    have blank : Blank { g with armed := true } := ⟨rfl, spends, ceiling⟩
    have good := (opened_load blank sane probe booked).good sane booked
    unfold persistTo
    dsimp only
    split
    · exact good.repause _ _ write
    · exact good
  unfold begin
  cases held with
  | none => exact opens SpendGuard.new rfl rfl
  | some reason => exact opens _ rfl rfl

end Start

section Runs
variable {cfg : Config} {w : World} {e : Event}

def Event.now (w : World) : Event → Int
  | .call now _ _ _ => now
  | .crash => w.clock
  | .start now _ _ _ _ => now

/- A commit that reports no cost of its own. -/
def Call.unpriced : Call → Bool
  | .commit _ actualCost => actualCost.all (· ≤ 0)
  | .reserve _ | .release _ | .pause _ | .resume => true

def Event.unpriced : Event → Bool
  | .call _ c _ _ => c.unpriced
  | .crash | .start _ _ _ _ _ => true

def Ordered (w : World) (e : Event) : Prop := w.clock ≤ e.now w ∧ e.unpriced

instance (w : World) (e : Event) : Decidable (Ordered w e) :=
  inferInstanceAs (Decidable (_ ∧ _))

def World.first (clock : Int) (disk : Disk) : World := ⟨clock, disk, none, []⟩

/- The tokens handed out and never released whose reservation lies in the window. -/
def World.inWindow (cfg : Config) (w : World) (now : Int) : List Issue :=
  w.issues.filter fun i => !i.released && now - cfg.windowMs < i.time

theorem Sane.later {clock now : Int} {issues : List Issue} (sane : Sane cfg clock issues)
    (order : clock ≤ now) : Sane cfg now issues := by
  have positive : ∀ i ∈ issues, 0 ≤ i.owed :=
    fun i member => owed_nonneg (sane.each i member).1
  have number : ∀ i ∈ issues, 0 ≤ i.held := fun i _ => held_nonneg i
  have limit : clock - cfg.windowMs ≤ now - cfg.windowMs := by omega
  refine ⟨?_, ?_, ?_⟩
  · intro i member
    have := sane.each i member
    exact ⟨this.1, by omega⟩
  · exact (after_antitone positive limit).trans sane.budget
  · exact fun capped => (after_antitone number limit).trans (sane.number capped)

theorem Good.later {clock now : Int} {gone : List Issue} {p : Process} {disk : Disk}
    (good : Good cfg clock gone p disk) (order : clock ≤ now) : Good cfg now gone p disk := by
  have limit : clock - cfg.windowMs ≤ now - cfg.windowMs := by omega
  exact ⟨good.sane.later order, good.disk.later limit, good.live.tied,
    good.live.booked.later limit, good.live.slotted.later limit⟩

theorem Good.call {now : Int} {gone : List Issue} {p : Process} {disk : Disk}
    (good : Good cfg now gone p disk) (write : Write) (c : Call) (unpriced : c.unpriced) :
    Good cfg now gone (p.call cfg disk now write c).1 (p.call cfg disk now write c).2 := by
  cases c with
  | reserve cost => exact good.reserve cost write
  | commit k actualCost =>
    refine good.commit k ?_ write
    intro c usable
    simpa [Call.unpriced, usable] using unpriced
  | release k => exact good.release k write
  | pause reason => exact good.repause _ _ write
  | resume => exact good.repause _ _ write

theorem Good.sound {now : Int} {gone : List Issue} {p : Process} {disk : Disk}
    (good : Good cfg now gone p disk) : Sound cfg ⟨now, disk, some p, gone⟩ := by
  refine ⟨good.sane, good.disk, ?_⟩
  rintro q same
  cases same
  exact good.live

theorem sound_dead {now : Int} {disk : Disk} {issues : List Issue} (sane : Sane cfg now issues)
    (booked : DiskBooked cfg (now - cfg.windowMs) issues disk) :
    Sound cfg ⟨now, disk, none, issues⟩ := by
  have all : World.issues ⟨now, disk, none, issues⟩ = issues := List.append_nil issues
  constructor
  case sane =>
    rw [all]
    exact sane
  case disk =>
    rw [all]
    exact booked
  case live =>
    intro p same
    cases same

theorem step_sound (sound : Sound cfg w) (ordered : Ordered w e) : Sound cfg (step cfg w e) := by
  cases e with
  | call now c write dies =>
    obtain ⟨order, unpriced⟩ := ordered
    simp only [Event.now] at order
    cases process : w.process with
    | none =>
      simp only [step, process]
      have issues : w.issues = w.gone := by simp [World.issues, process]
      have limit : w.clock - cfg.windowMs ≤ now - cfg.windowMs := by omega
      exact sound_dead (issues ▸ sound.sane.later order) (issues ▸ sound.disk.later limit)
    | some p =>
      simp only [step, process]
      have issues : w.issues = w.gone ++ p.issued := by simp [World.issues, process]
      have good : Good cfg w.clock w.gone p w.disk :=
        ⟨issues ▸ sound.sane, issues ▸ sound.disk, sound.live p process⟩
      have next := (good.later order).call write c unpriced
      split
      · exact sound_dead next.sane next.disk
      · exact next.sound
  | crash => exact sound_dead sound.sane sound.disk
  | start now held probe write dies =>
    have order : w.clock ≤ now := ordered.1
    have limit : w.clock - cfg.windowMs ≤ now - cfg.windowMs := by omega
    have next := @good_begin _ _ write _ _ (sound.sane.later order) (sound.disk.later limit)
      held probe
    simp only [step]
    split
    · exact sound_dead (by simpa using next.sane) (by simpa using next.disk)
    · exact next.sound

theorem first_sound (clock : Int) (disk : Disk) : Sound cfg (World.first clock disk) := by
  have budget := cfg.budget_pos
  refine ⟨⟨?_, ?_, ?_⟩, ?_, ?_⟩
  · simp [World.first, World.issues]
  · simp only [World.first, World.issues, Option.map_none, Option.getD_none, List.append_nil,
      after_nil]
    omega
  · intro capped
    simp [World.first, World.issues]
  · intro book _
    refine ⟨?_, ?_⟩
    · intro cutoff _
      exact after_nonneg fun e _ => le_of_lt (compute_cost_pos _)
    · intro _ cutoff _
      exact Or.inr (after_nonneg fun e _ => by simp [one])
  · rintro p same
    cases same

theorem run_sound {clock : Int} {disk : Disk} {events : List Event}
    (ordered : Admitted (step cfg) Ordered (World.first clock disk) events) :
    Sound cfg (run (step cfg) (World.first clock disk) events) :=
  run_invariant (Sound cfg) (fun _ _ sound admitted => step_sound sound admitted)
    (first_sound clock disk) ordered

theorem in_window_cost (now : Int) :
    ((w.inWindow cfg now).map Issue.cost).sum =
      after Issue.time Issue.owed (now - cfg.windowMs) w.issues := by
  unfold World.inWindow
  induction w.issues with
  | nil => rfl
  | cons i is ih =>
    rw [List.filter_cons, after, ← ih]
    cases released : i.released with
    | true => simp [part, Issue.owed, released]
    | false =>
      by_cases young : now - cfg.windowMs < i.time <;>
        simp [part, Issue.owed, released, young]

theorem in_window_count (now : Int) :
    ((w.inWindow cfg now).length : Int) =
      after Issue.time Issue.held (now - cfg.windowMs) w.issues := by
  unfold World.inWindow
  induction w.issues with
  | nil => rfl
  | cons i is ih =>
    rw [List.filter_cons, after, ← ih]
    cases released : i.released with
    | true => simp [part, Issue.held, released]
    | false =>
      by_cases young : now - cfg.windowMs < i.time
      · simp only [released, Bool.not_false, young, decide_true, Bool.and_self, if_true,
          List.length_cons, part, Issue.held, Bool.false_eq_true, if_false]
        omega
      · simp [part, young]

/-- Both caps hold at every moment of every run: what callers hold within the window costs no
    more than the budget, and is no more than the number allowed where there is one. -/
theorem spend_cap_survives (cfg : Config) (clock : Int) (disk : Disk) (events : List Event)
    (ordered : Admitted (step cfg) Ordered (World.first clock disk) events) (now : Int)
    (order : (run (step cfg) (World.first clock disk) events).clock ≤ now) :
    (((run (step cfg) (World.first clock disk) events).inWindow cfg now).map Issue.cost).sum ≤
        cfg.maxSpendUsdCents ∧
      (0 < cfg.maxPerWindow →
        ((run (step cfg) (World.first clock disk) events).inWindow cfg now).length ≤
          cfg.maxPerWindow) := by
  have sane := (run_sound ordered).sane.later order
  constructor
  · rw [in_window_cost]
    exact sane.budget
  · intro capped
    have bound := sane.number capped
    rw [← in_window_count] at bound
    exact_mod_cast bound

/- A token, a reservation whose write tears the file, a crash, a restart that takes the
   window for spent, and a token of the next window. -/
def tornRun : List Event :=
  [.start 10 none ⟨true, true⟩ .landed false,
    .call 20 (.reserve none) .landed false,
    .call 30 (.reserve (some 150)) (.refused .torn) false,
    .crash,
    .start 40 (some none) ⟨true, true⟩ (.refused .torn) false,
    .call 45 .resume .landed false,
    .call 50 (.reserve none) .landed false,
    .call 1045 (.reserve (some 120)) .landed false,
    .call 1048 (.commit 0 none) .landed false]

def tornConfig : Config := Config.read (some 2) (some 1000) (some 250) none

theorem torn_run_within_caps :
    let w := run (step tornConfig) (World.first 0 .absent) tornRun
    w.issues.length = 2 ∧ ((w.inWindow tornConfig 1050).map Issue.cost) = [120] ∧
      ((w.inWindow tornConfig 1050).map Issue.cost).sum ≤ tornConfig.maxSpendUsdCents ∧
      (w.inWindow tornConfig 1050).length ≤ tornConfig.maxPerWindow := by
  have ordered : Admitted (step tornConfig) Ordered (World.first 0 .absent) tornRun := by decide
  have caps := spend_cap_survives tornConfig 0 .absent tornRun ordered 1050 (by decide)
  exact ⟨by decide, by decide, caps.1, caps.2 (by decide)⟩

end Runs
end XChainHub.EffectorSpend
