import XChainHub.Anchor.RewardTracker.State
import XChainHub.Library.ScriptValue

/-!
Behind the lock the calls for one anchor take effect one after the other, in the order in
which they came, so its rows are those that the calls leave when made one by one.
-/
namespace XChainHub.Anchor.RewardTracker
open ChainedLock

section Serial

/- What a whole call makes of the rows of its anchor. -/
def record (s : Settings) (rows : List Row) (c : Call) : List Row :=
  if resolveAnchorRewardAmount s c ≤ 0 then rows else afterRead s c rows rows

def doneCalls (a : RewardKey) (tickets : List (Ticket String Job)) : List Call :=
  (tickets.filter fun t => t.load.stage = .done && t.load.call.anchor = a).map fun t => t.load.call

/- How far a call can be in each phase of its request. -/
structure Staged (s : Settings) (t : Ticket String Job) : Prop where
  key : t.key = lockKey t.load.call
  waiting : t.phase = .waiting → t.load.stage = .idle
  settled : t.phase = .settled → t.load.stage = .done ∨ t.load.stage = .threw
  found : ∀ rows, t.load.stage = .found rows → 0 < resolveAnchorRewardAmount s t.load.call

structure Serial (s : Settings) (before : List Row) (st : State) : Prop where
  chained : Chained st.lock
  stages : ∀ t ∈ st.lock.tickets, Staged s t
  current : ∀ t ∈ st.lock.tickets, ∀ rows, t.load.stage = .found rows →
    rows = rowsFor t.load.call.anchor st.table
  folded : ∀ a, rowsFor a st.table =
    (doneCalls a st.lock.tickets).foldl (record s) (rowsFor a before)

variable {s : Settings} {before table : List Row} {st : State} {i : ℕ} {t new : Ticket String Job}
  {a : RewardKey} {c : Call} {tickets : List (Ticket String Job)}

theorem member_put (l : Lock String Job) (i : ℕ) (here : l.tickets[i]? = some t) {u : Ticket String Job}
    (member : u ∈ (put l i new).tickets) :
    u = new ∨ ∃ j, j ≠ i ∧ l.tickets[j]? = some u := by
  obtain ⟨j, found⟩ := List.mem_iff_getElem?.mp member
  rw [get_put l i j new here] at found
  by_cases same : i = j
  · rw [if_pos same, Option.some.injEq] at found
    exact Or.inl found.symm
  · rw [if_neg same] at found
    exact Or.inr ⟨j, fun equal => same equal.symm, found⟩

theorem parts_at (here : tickets[i]? = some t) :
    tickets = tickets.take i ++ t :: tickets.drop (i + 1) ∧
      ∀ new, tickets.set i new = tickets.take i ++ new :: tickets.drop (i + 1) := by
  obtain ⟨inside, value⟩ := List.getElem?_eq_some_iff.mp here
  have shape (new : Ticket String Job) :
      tickets.set i new = tickets.take i ++ new :: tickets.drop (i + 1) := by
    rw [List.set_eq_take_append_cons_drop, if_pos inside]
  refine ⟨?_, shape⟩
  rw [← shape t, ← value, List.set_getElem_self]

theorem done_quiet (here : tickets[i]? = some t) (call : new.load.call = t.load.call)
    (same : new.load.stage = .done ↔ t.load.stage = .done) :
    doneCalls a (tickets.set i new) = doneCalls a tickets := by
  obtain ⟨split, moved⟩ := parts_at here
  rw [moved new]
  conv_rhs => rw [split]
  simp only [doneCalls, List.filter_append, List.filter_cons, call, same]
  by_cases counts : (decide (t.load.stage = .done) && decide (t.load.call.anchor = a)) = true
  · simp only [counts, if_true, List.map_append, List.map_cons, call]
  · simp only [counts, Bool.false_eq_true, if_false]

theorem done_elsewhere (here : tickets[i]? = some t) (call : new.load.call = t.load.call)
    (other : t.load.call.anchor ≠ a) : doneCalls a (tickets.set i new) = doneCalls a tickets := by
  obtain ⟨split, moved⟩ := parts_at here
  rw [moved new]
  conv_rhs => rw [split]
  simp [doneCalls, call, other]

theorem done_last (here : tickets[i]? = some t) (call : new.load.call = t.load.call)
    (after : new.load.stage = .done) (undone : t.load.stage ≠ .done)
    (later : ∀ (j : ℕ) (u : Ticket String Job), i < j → tickets[j]? = some u →
      u.load.call.anchor = t.load.call.anchor → u.load.stage ≠ .done) :
    doneCalls t.load.call.anchor (tickets.set i new) =
      doneCalls t.load.call.anchor tickets ++ [t.load.call] := by
  obtain ⟨split, moved⟩ := parts_at here
  have none : (tickets.drop (i + 1)).filter (fun u =>
      u.load.stage = .done && u.load.call.anchor = t.load.call.anchor) = [] := by
    rw [List.filter_eq_nil_iff]
    intro u member
    obtain ⟨j, found⟩ := List.mem_iff_getElem?.mp member
    rw [List.getElem?_drop] at found
    rw [Bool.and_eq_true, decide_eq_true_eq, decide_eq_true_eq]
    rintro ⟨done, same⟩
    exact later (i + 1 + j) u (by omega) found same done
  rw [moved new]
  conv_rhs => rw [split]
  simp [doneCalls, call, after, undone, none]

/-- A call that moves on without being done leaves the fold where it was. -/
theorem serial_quiet (serial : Serial s before st) (here : st.lock.tickets[i]? = some t)
    (chained : Chained (put st.lock i new)) (call : new.load.call = t.load.call)
    (same : new.load.stage = .done ↔ t.load.stage = .done) (stage : Staged s new)
    (current : ∀ rows, new.load.stage = .found rows →
      rows = rowsFor new.load.call.anchor st.table) :
    Serial s before { st with lock := put st.lock i new } := by
  refine ⟨chained, ?_, ?_, ?_⟩
  · intro u member
    rcases member_put st.lock i here member with rfl | ⟨j, _, found⟩
    · exact stage
    · exact serial.stages u (List.mem_of_getElem? found)
  · intro u member
    rcases member_put st.lock i here member with rfl | ⟨j, _, found⟩
    · exact current
    · exact serial.current u (List.mem_of_getElem? found)
  · intro a
    rw [serial.folded a]
    exact congrArg (List.foldl (record s) (rowsFor a before)) (done_quiet here call same).symm

/-- The one call inside that gets done adds its effect at the end. -/
theorem serial_done (serial : Serial s before st) (here : st.lock.tickets[i]? = some t)
    (inside : t.phase = .inside) (undone : t.load.stage ≠ .done)
    (own : rowsFor t.load.call.anchor table =
      record s (rowsFor t.load.call.anchor st.table) t.load.call)
    (others : ∀ b, t.load.call.anchor ≠ b → rowsFor b table = rowsFor b st.table) :
    Serial s before { lock := put st.lock i (staged t .done), table } := by
  have key_of {u v : Ticket String Job} (u_staged : Staged s u) (v_staged : Staged s v)
      (same : u.load.call.anchor = v.load.call.anchor) : u.key = v.key := by
    have parts := RewardKey.mk.inj same
    rw [u_staged.key, v_staged.key, lockKey, lockKey, parts.1, parts.2.1]
  have t_staged := serial.stages t (List.mem_of_getElem? here)
  have chained : Chained (put st.lock i (staged t .done)) := by
    refine put_chained serial.chained here ?_ ?_ ?_ ?_
    · rfl
    · rfl
    · exact fun settled => settled
    · intro _ waiting
      rw [inside] at waiting
      cases waiting
  refine ⟨chained, ?_, ?_, ?_⟩
  · intro u member
    rcases member_put st.lock i here member with rfl | ⟨j, _, found⟩
    · refine ⟨t_staged.key, ?_, fun _ => Or.inl rfl, ?_⟩
      · intro waiting
        rw [staged, inside] at waiting
        cases waiting
      · intro rows found
        cases found
    · exact serial.stages u (List.mem_of_getElem? found)
  · intro u member rows found
    rcases member_put st.lock i here member with rfl | ⟨j, apart, at_j⟩
    · cases found
    · have u_in := List.mem_of_getElem? at_j
      have u_staged := serial.stages u u_in
      have u_inside : u.phase = .inside := by
        cases phase : u.phase with
        | inside => rfl
        | waiting =>
          have idle := u_staged.waiting phase
          rw [found] at idle
          cases idle
        | settled =>
          rcases u_staged.settled phase with done | threw
          · rw [found] at done
            cases done
          · rw [found] at threw
            cases threw
      have elsewhere : t.load.call.anchor ≠ u.load.call.anchor := by
        intro same
        exact apart (inside_unique serial.chained here at_j (key_of t_staged u_staged same) inside
          u_inside).symm
      rw [others _ elsewhere]
      exact serial.current u u_in rows found
  · intro a
    by_cases same : t.load.call.anchor = a
    · subst same
      have later : ∀ (j : ℕ) (u : Ticket String Job), i < j → st.lock.tickets[j]? = some u →
          u.load.call.anchor = t.load.call.anchor → u.load.stage ≠ .done := by
        intro j u more found anchor done
        have u_staged := serial.stages u (List.mem_of_getElem? found)
        have idle := u_staged.waiting ((inside_between serial.chained here inside found
          (key_of u_staged t_staged anchor)).2 more)
        rw [done] at idle
        cases idle
      have last := @done_last _ _ (staged t .done) _ here rfl rfl undone later
      rw [own, serial.folded, put]
      dsimp only
      rw [last, List.foldl_append]
      rfl
    · rw [others a same, serial.folded a]
      exact congrArg (List.foldl (record s) (rowsFor a before))
        (@done_elsewhere _ _ (staged t .done) _ _ here rfl same).symm

theorem opened_serial (s : Settings) (before : List Row) : Serial s before (opened before) := by
  refine ⟨empty_chained, ?_, ?_, fun a => rfl⟩
  · intro t member
    cases member
  · intro t member
    cases member

theorem call_serial (serial : Serial s before st) (c : Call) :
    Serial s before (recordAnchorReward st c) := by
  unfold recordAnchorReward
  split
  · have idle : ∀ a, doneCalls a (enter st.lock (lockKey c) ⟨c, .idle⟩).tickets =
        doneCalls a st.lock.tickets := by
      intro a
      simp [enter, doneCalls]
    refine ⟨enter_chained serial.chained, ?_, ?_, ?_⟩
    · intro t member
      rcases List.mem_append.mp member with old | new
      · exact serial.stages t old
      · rw [List.mem_singleton.mp new]
        refine ⟨rfl, fun _ => rfl, ?_, ?_⟩
        · intro settled
          cases settled
        · intro rows found
          cases found
    · intro t member
      rcases List.mem_append.mp member with old | new
      · exact serial.current t old
      · rw [List.mem_singleton.mp new]
        intro rows found
        cases found
    · intro a
      rw [idle a]
      exact serial.folded a
  · exact serial

theorem start_serial (serial : Serial s before st) (i : ℕ) :
    Serial s before { st with lock := ChainedLock.start st.lock i } := by
  have chained := start_chained (i := i) serial.chained
  unfold ChainedLock.start at chained ⊢
  split
  · exact serial
  · rename_i t here
    rw [here] at chained
    dsimp only at chained
    split
    · rename_i ready
      rw [if_pos ready] at chained
      have t_staged := serial.stages t (List.mem_of_getElem? here)
      refine serial_quiet serial here chained ?_ ?_ ?_ ?_
      · rfl
      · exact Iff.rfl
      · refine ⟨t_staged.key, ?_, ?_, t_staged.found⟩
        · intro waiting
          cases waiting
        · intro settled
          cases settled
      · exact serial.current t (List.mem_of_getElem? here)
    · exact serial

/-- A request that keeps its place inside keeps the chain. -/
theorem inside_chained (serial : Serial s before st) (here : st.lock.tickets[i]? = some t)
    (inside : t.phase = .inside) (key : new.key = t.key) (link : new.link = t.link) :
    Chained (put st.lock i new) := by
  refine put_chained serial.chained here key link ?_ ?_
  · intro settled
    rw [inside] at settled
    cases settled
  · intro _ waiting
    rw [inside] at waiting
    cases waiting

theorem inside_staged {stage : Stage} (old : Staged s t) (inside : t.phase = .inside)
    (worth : ∀ rows, stage = .found rows → 0 < resolveAnchorRewardAmount s t.load.call) :
    Staged s (staged t stage) := by
  refine ⟨old.key, ?_, ?_, worth⟩
  · intro waiting
    rw [staged, inside] at waiting
    cases waiting
  · intro settled
    rw [staged, inside] at settled
    cases settled

theorem read_serial (serial : Serial s before st) (i : ℕ) (answered : Bool) :
    Serial s before (readRows s st i answered) := by
  unfold readRows
  split
  · exact serial
  · rename_i t here
    split
    · rename_i ready
      obtain ⟨inside, idle⟩ := ready
      have t_staged := serial.stages t (List.mem_of_getElem? here)
      have undone : t.load.stage ≠ .done := by
        rw [idle]
        decide
      dsimp only
      by_cases worth : resolveAnchorRewardAmount s t.load.call ≤ 0
      · rw [if_pos worth]
        apply serial_done serial here inside undone
        · rw [record, if_pos worth]
        · exact fun _ _ => rfl
      · rw [if_neg worth]
        cases answered with
        | true =>
          rw [if_pos rfl]
          refine serial_quiet serial here (inside_chained serial here inside rfl rfl) rfl ?_
            (inside_staged t_staged inside fun _ _ => not_le.mp worth) ?_
          · simp [staged, undone]
          · intro rows found
            cases found
            rfl
        | false =>
          rw [if_neg Bool.false_ne_true]
          refine serial_quiet serial here (inside_chained serial here inside rfl rfl) rfl ?_
            (inside_staged t_staged inside ?_) ?_
          · simp [staged, undone]
          · intro rows found
            cases found
          · intro rows found
            cases found
    · exact serial

theorem write_serial (serial : Serial s before st) (i : ℕ) (answered : Bool) :
    Serial s before (writeRows s st i answered) := by
  unfold writeRows
  split
  · exact serial
  · rename_i t here
    have member := List.mem_of_getElem? here
    split
    · rename_i existing inside found
      have t_staged := serial.stages t member
      have undone : t.load.stage ≠ .done := by
        rw [found]
        intro same
        cases same
      have read := serial.current t member existing found
      cases answered with
      | true =>
        rw [if_pos rfl]
        apply serial_done serial here inside undone
        · rw [record, if_neg (not_le.mpr (t_staged.found existing found)), rows_for_after_read, ← read]
        · exact fun b other => rows_for_after_read_other other
      | false =>
        rw [if_neg Bool.false_ne_true]
        refine serial_quiet serial here (inside_chained serial here inside rfl rfl) rfl ?_
          (inside_staged t_staged inside ?_) ?_
        · simp [staged, undone]
        · intro rows threw
          cases threw
        · intro rows threw
          cases threw
    · exact serial

theorem settle_serial (serial : Serial s before st) (i : ℕ) :
    Serial s before (settleCall st i) := by
  unfold settleCall
  split
  · exact serial
  · rename_i t here
    split
    · rename_i ready
      obtain ⟨inside, ended⟩ := ready
      have t_staged := serial.stages t (List.mem_of_getElem? here)
      refine serial_quiet serial here (inside_chained serial here inside rfl rfl) rfl Iff.rfl ?_
        (serial.current t (List.mem_of_getElem? here))
      refine ⟨t_staged.key, ?_, fun _ => ended, t_staged.found⟩
      intro waiting
      cases waiting
    · exact serial

theorem release_tickets (l : Lock String Job) (i : ℕ) : (release l i).tickets = l.tickets := by
  unfold release
  split
  · rfl
  · split <;> rfl

theorem release_serial (serial : Serial s before st) (i : ℕ) :
    Serial s before { st with lock := release st.lock i } := by
  have tickets := release_tickets st.lock i
  refine ⟨release_chained serial.chained, ?_, ?_, ?_⟩
  · dsimp only
    rw [tickets]
    exact serial.stages
  · dsimp only
    rw [tickets]
    exact serial.current
  · dsimp only
    rw [tickets]
    exact serial.folded

theorem step_serial (serial : Serial s before st) (e : Event) : Serial s before (step s st e) := by
  cases e with
  | call c => exact call_serial serial c
  | start i => exact start_serial serial i
  | read i answered => exact read_serial serial i answered
  | write i answered => exact write_serial serial i answered
  | settle i => exact settle_serial serial i
  | release i => exact release_serial serial i

theorem run_serial (es : List Event) (serial : Serial s before st) :
    Serial s before (run s st es) := by
  induction es generalizing st with
  | nil => exact serial
  | cons e es ih => exact ih (step_serial serial e)

end Serial

section Calls
variable {s : Settings} {before : List Row} {st : State} {es : List Event} {a : RewardKey}

/- The calls that get past the key check, in the order in which they came. -/
def made (es : List Event) : List Call :=
  es.filterMap fun e => match e with
    | .call c => if validKey c.pubkey then some c else none
    | _ => none

def Answered : Event → Bool
  | .read _ answered => answered
  | .write _ answered => answered
  | _ => true

def callsOf (st : State) : List Call := st.lock.tickets.map fun t => t.load.call

theorem put_calls {i : ℕ} {t : Ticket String Job} (new : Ticket String Job)
    (here : st.lock.tickets[i]? = some t) (call : new.load.call = t.load.call) (table : List Row) :
    callsOf { lock := put st.lock i new, table } = callsOf st := by
  obtain ⟨split, moved⟩ := parts_at here
  rw [callsOf, callsOf, put]
  dsimp only
  rw [moved new]
  conv_rhs => rw [split]
  simp only [List.map_append, List.map_cons, call]

theorem step_calls (s : Settings) (st : State) (e : Event) :
    callsOf (step s st e) = callsOf st ++ made [e] := by
  have quiet {st' : State} (same : callsOf st' = callsOf st) : callsOf st' = callsOf st ++ [] := by
    rw [same, List.append_nil]
  cases e with
  | call c =>
    simp only [step, recordAnchorReward, made, List.filterMap_cons, List.filterMap_nil]
    split
    · simp [callsOf, enter]
    · simp
  | start i =>
    apply quiet
    simp only [step, ChainedLock.start]
    split
    · rfl
    · rename_i t here
      split
      · refine put_calls _ here ?_ st.table
        rfl
      · rfl
  | read i answered =>
    apply quiet
    simp only [step, readRows]
    split
    · rfl
    · rename_i t here
      split
      · refine put_calls _ here ?_ st.table
        rfl
      · rfl
  | write i answered =>
    apply quiet
    simp only [step, writeRows]
    split
    · rfl
    · rename_i t here
      split
      · split
        · refine put_calls _ here ?_ _
          rfl
        · refine put_calls _ here ?_ st.table
          rfl
      · rfl
  | settle i =>
    apply quiet
    simp only [step, settleCall]
    split
    · rfl
    · rename_i t here
      split
      · refine put_calls _ here ?_ st.table
        rfl
      · rfl
  | release i =>
    apply quiet
    rw [step, callsOf, callsOf, release_tickets]

theorem run_calls (s : Settings) (es : List Event) : ∀ st, callsOf (run s st es) = callsOf st ++ made es := by
  induction es with
  | nil =>
    intro st
    simp [run, made]
  | cons e es ih =>
    intro st
    have parts : made (e :: es) = made [e] ++ made es := by
      rw [made, made, made, ← List.filterMap_append]
      rfl
    rw [parts, ← List.append_assoc, ← step_calls s st e]
    exact ih (step s st e)

def NoneThrew (st : State) : Prop := ∀ t ∈ st.lock.tickets, t.load.stage ≠ .threw

theorem put_threw {i : ℕ} {t new : Ticket String Job} (none : NoneThrew st)
    (here : st.lock.tickets[i]? = some t) (stage : new.load.stage ≠ .threw) (table : List Row) :
    NoneThrew { lock := put st.lock i new, table } := by
  intro u member
  rcases member_put st.lock i here member with rfl | ⟨j, _, found⟩
  · exact stage
  · exact none u (List.mem_of_getElem? found)

theorem step_threw (none : NoneThrew st) {e : Event} (answered : Answered e = true) :
    NoneThrew (step s st e) := by
  cases e with
  | call c =>
    simp only [step, recordAnchorReward]
    split
    · intro t member
      rcases List.mem_append.mp member with old | new
      · exact none t old
      · rw [List.mem_singleton.mp new]
        intro threw
        cases threw
    · exact none
  | start i =>
    simp only [step, ChainedLock.start]
    split
    · exact none
    · rename_i t here
      split
      · refine put_threw none here ?_ st.table
        exact none t (List.mem_of_getElem? here)
      · exact none
  | read i ok =>
    simp only [Answered] at answered
    subst answered
    simp only [step, readRows]
    split
    · exact none
    · rename_i t here
      split
      · apply put_threw none here
        simp only [staged, if_true]
        split
        · decide
        · intro threw
          cases threw
      · exact none
  | write i ok =>
    simp only [Answered] at answered
    subst answered
    simp only [step, writeRows]
    split
    · exact none
    · rename_i t here
      split
      · exact put_threw none here (by simp [staged]) _
      · exact none
  | settle i =>
    simp only [step, settleCall]
    split
    · exact none
    · rename_i t here
      split
      · refine put_threw none here ?_ st.table
        exact none t (List.mem_of_getElem? here)
      · exact none
  | release i =>
    rw [step, NoneThrew, release_tickets]
    exact none

theorem run_threw (es : List Event) (answered : ∀ e ∈ es, Answered e = true) (none : NoneThrew st) :
    NoneThrew (run s st es) := by
  induction es generalizing st with
  | nil => exact none
  | cons e es ih =>
    exact ih (fun e member => answered e (List.mem_cons_of_mem _ member))
      (step_threw none (answered e List.mem_cons_self))

/- Every call has returned, and the database answered all that was asked of it. -/
structure Completed (s : Settings) (before : List Row) (es : List Event) : Prop where
  answered : ∀ e ∈ es, Answered e = true
  ended : ∀ t ∈ (run s (opened before) es).lock.tickets, t.phase = .settled

/-- Once all have returned, the rows of an anchor are its calls' doing, one by one. -/
theorem completed_rows (completed : Completed s before es) (a : RewardKey) :
    rowsFor a (run s (opened before) es).table =
      ((made es).filter fun c => c.anchor = a).foldl (record s) (rowsFor a before) := by
  have serial := run_serial es (opened_serial s before)
  have none : NoneThrew (run s (opened before) es) := by
    apply run_threw es completed.answered
    intro t member
    cases member
  have calls := run_calls s es (opened before)
  have all : doneCalls a (run s (opened before) es).lock.tickets =
      (made es).filter fun c => c.anchor = a := by
    have start : made es = callsOf (run s (opened before) es) := calls.symm
    rw [start, callsOf, doneCalls, List.filter_map]
    congr 1
    apply List.filter_congr
    intro t member
    rcases (serial.stages t member).settled (completed.ended t member) with done | threw
    · simp [done]
    · exact absurd threw (none t member)
  rw [serial.folded a, all]

end Calls

section Least
variable {s : Settings} {before : List Row} {es : List Event} {a : RewardKey} {c : Call}
  {rows : List Row}

theorem lower_lower (text : String) : lower (lower text) = lower text := by
  rw [lower, lower, String.toList_ofList, List.map_map]
  congr 1
  apply List.map_congr_left
  intro c _
  exact ScriptValue.lower_of_not_upper (ScriptValue.to_lower_not_upper c)

/- A row that this method wrote and no archive took yet. -/
structure Standing (a : RewardKey) (r : Row) : Prop where
  anchor : r.anchor = a
  key : lower r.pubkey = r.pubkey
  unarchived : r.batchSeq = none

theorem new_row_standing (own : c.anchor = a) : Standing a (newRow s c) :=
  ⟨own, lower_lower c.pubkey, rfl⟩

/-- On at most one standing row a call keeps the lesser key, and the row there on a tie. -/
theorem record_least {o : Option Row} (standing : ∀ r ∈ o, Standing c.anchor r)
    (worth : 0 < resolveAnchorRewardAmount s c) :
    record s o.toList c =
      (match o with
        | none => some (newRow s c)
        | some r => if (newRow s c).pubkey < r.pubkey then some (newRow s c) else some r).toList := by
  rw [record, if_neg (not_le.mpr worth)]
  cases o with
  | none => simp [afterRead, insertIgnore]
  | some r =>
    obtain ⟨anchor, key, unarchived⟩ := standing r rfl
    have new_key : (newRow s c).pubkey = lower c.pubkey := rfl
    have least : minIncumbent [r] = r.pubkey := by simp [minIncumbent, key]
    simp only [Option.toList_some, afterRead, List.any_cons, List.any_nil, Bool.or_false,
      decide_eq_true_eq, key, new_key, unarchived, least]
    by_cases same : r.pubkey = lower c.pubkey
    · rw [if_pos same, if_neg (by rw [same]; exact lt_irrefl _)]
      rfl
    · rw [if_neg same, if_neg (by simp), if_neg (by simp)]
      by_cases le : r.pubkey ≤ lower c.pubkey
      · rw [if_pos le, if_neg (not_lt.mpr le)]
        rfl
      · rw [if_neg le, if_pos (not_le.mp le)]
        simp [deleteUnarchived, insertIgnore, anchor, unarchived]

def recordedRows (s : Settings) (a : RewardKey) (es : List Event) : List Row :=
  (((made es).filter fun c => c.anchor = a).filter fun c =>
    0 < resolveAnchorRewardAmount s c).map (newRow s)

/-- Calls made one by one leave the first of the least keys. -/
theorem records_least (before : Option Row) (standing : ∀ r ∈ before, Standing a r)
    (calls : List Call) (own : ∀ c ∈ calls, c.anchor = a) :
    calls.foldl (record s) before.toList =
      (List.argmin Row.pubkey (before.toList ++
        (calls.filter fun c => 0 < resolveAnchorRewardAmount s c).map (newRow s))).toList := by
  induction calls using List.reverseRecOn with
  | nil => cases before <;> simp
  | append_singleton calls c ih =>
    have ih := ih fun c member => own c (List.mem_append_left _ member)
    have c_own : c.anchor = a := own c (by simp)
    rw [List.foldl_append, List.foldl_cons, List.foldl_nil, ih, List.filter_append]
    by_cases worth : 0 < resolveAnchorRewardAmount s c
    · have kept : ∀ r ∈ List.argmin Row.pubkey (before.toList ++
          (calls.filter fun c => 0 < resolveAnchorRewardAmount s c).map (newRow s)),
          Standing c.anchor r := by
        intro r least
        rw [c_own]
        rcases List.mem_append.mp (List.argmin_mem least) with old | new
        · exact standing r (Option.mem_toList.mp old)
        · obtain ⟨d, member, rfl⟩ := List.mem_map.mp new
          exact new_row_standing (own d (List.mem_append_left _ (List.mem_of_mem_filter member)))
      rw [record_least kept worth]
      have last : [c].filter (fun c => 0 < resolveAnchorRewardAmount s c) = [c] := by simp [worth]
      rw [last, List.map_append, ← List.append_assoc, List.map_singleton, List.argmin_concat]
      cases List.argmin Row.pubkey (before.toList ++
        (calls.filter fun c => 0 < resolveAnchorRewardAmount s c).map (newRow s)) <;> rfl
    · have last : [c].filter (fun c => 0 < resolveAnchorRewardAmount s c) = [] := by simp [worth]
      rw [last, List.append_nil, record, if_pos (not_lt.mp worth)]

/-- An archived row is never displaced and nothing joins it. -/
theorem records_archived (archived : ∃ r ∈ rows, r.batchSeq.isSome = true) (calls : List Call) :
    calls.foldl (record s) rows = rows := by
  obtain ⟨r, member, stamped⟩ := archived
  have filled : rows ≠ [] := List.ne_nil_of_mem member
  have stamp : rows.any (fun r => r.batchSeq.isSome) = true :=
    List.any_eq_true.mpr ⟨r, member, stamped⟩
  have still (c : Call) : record s rows c = rows := by
    rw [record, afterRead, if_neg filled, if_pos stamp]
    split
    · rfl
    · split <;> rfl
  induction calls with
  | nil => rfl
  | cons c calls ih => rw [List.foldl_cons, still c, ih]

end Least

section OneRow
variable {s : Settings} {before : List Row} {es es' : List Event} {a : RewardKey}

def rowsAfter (s : Settings) (before : List Row) (es : List Event) (a : RewardKey) : List Row :=
  rowsFor a (run s (opened before) es).table

/- What is there before or gets recorded, in that order. -/
def candidates (s : Settings) (before : List Row) (es : List Event) (a : RewardKey) : List Row :=
  rowsFor a before ++ recordedRows s a es

/- One row remains, of the least key recorded, whatever the order of the calls. -/
structure OneRow (s : Settings) (before : List Row) (es : List Event) (a : RewardKey) : Prop where
  empty : candidates s before es a = [] → rowsAfter s before es a = []
  least : candidates s before es a ≠ [] → ∃ row, rowsAfter s before es a = [row] ∧
    row ∈ candidates s before es a ∧ ∀ r ∈ candidates s before es a, row.pubkey ≤ r.pubkey
  commutes : ∀ es', Completed s before es' → (recordedRows s a es').Perm (recordedRows s a es) →
    (rowsAfter s before es' a).map Row.pubkey = (rowsAfter s before es a).map Row.pubkey ∧
    ((∀ r ∈ recordedRows s a es, ∀ r' ∈ recordedRows s a es, r.pubkey = r'.pubkey → r = r') →
      rowsAfter s before es' a = rowsAfter s before es a)

theorem rows_after_least (standing : ∃ o : Option Row, rowsFor a before = o.toList ∧
    ∀ r ∈ o, Standing a r) (completed : Completed s before es) :
    rowsAfter s before es a = (List.argmin Row.pubkey (candidates s before es a)).toList := by
  obtain ⟨o, start, standing⟩ := standing
  rw [rowsAfter, completed_rows completed, candidates, start]
  apply records_least o standing
  intro c member
  exact of_decide_eq_true (List.mem_filter.mp member).2

/-- The first row there, if its key is least, is the one kept. -/
theorem argmin_head {r m : Row} {rest : List Row} (least : m ∈ List.argmin Row.pubkey (r :: rest))
    (same : m.pubkey = r.pubkey) : m = r := by
  rw [List.argmin_cons] at least
  cases shape : List.argmin Row.pubkey rest with
  | none =>
    rw [shape] at least
    exact (Option.mem_some_iff.mp least).symm
  | some c =>
    rw [shape] at least
    dsimp only at least
    split at least
    · rename_i less
      rw [← Option.mem_some_iff.mp least] at same
      exact absurd same (ne_of_lt less)
    · exact (Option.mem_some_iff.mp least).symm

theorem commuting_rows {o : Option Row} {rs rs' : List Row} {m m' : Row} (same : rs'.Perm rs)
    (least : m ∈ List.argmin Row.pubkey (o.toList ++ rs))
    (least' : m' ∈ List.argmin Row.pubkey (o.toList ++ rs')) :
    m'.pubkey = m.pubkey ∧
      ((∀ r ∈ rs, ∀ r' ∈ rs, r.pubkey = r'.pubkey → r = r') → m' = m) := by
  have both : (o.toList ++ rs').Perm (o.toList ++ rs) := same.append_left _
  have keys : m'.pubkey = m.pubkey := le_antisymm
    (List.le_of_mem_argmin (both.mem_iff.mpr (List.argmin_mem least)) least')
    (List.le_of_mem_argmin (both.mem_iff.mp (List.argmin_mem least')) least)
  refine ⟨keys, ?_⟩
  intro agree
  cases o with
  | none =>
    exact agree m' (same.mem_iff.mp (List.argmin_mem least')) m (List.argmin_mem least) keys
  | some r =>
    by_cases first : m.pubkey = r.pubkey
    · rw [argmin_head least first, argmin_head least' (keys.trans first)]
    · have member : m ∈ rs := by
        rcases List.mem_cons.mp (List.argmin_mem least) with rfl | member
        · exact absurd rfl first
        · exact member
      have member' : m' ∈ rs := by
        rcases List.mem_cons.mp (List.argmin_mem least') with rfl | member
        · exact absurd keys.symm first
        · exact same.mem_iff.mp member
      exact agree m' member' m member keys

/-- One row an anchor, whoever asks first; and none displaced that was archived. -/
theorem one_row_per_anchor (s : Settings) (before : List Row) (es : List Event) (a : RewardKey) :
    ((∃ o : Option Row, rowsFor a before = o.toList ∧ ∀ r ∈ o, Standing a r) →
      Completed s before es → OneRow s before es a) ∧
    ((∃ r ∈ rowsFor a before, r.batchSeq.isSome = true) → (∀ c ∈ made es, c.anchor = a) →
      ∀ b, rowsAfter s before es b = rowsFor b before) := by
  constructor
  · intro standing completed
    have after := rows_after_least standing completed
    refine ⟨?_, ?_, ?_⟩
    · intro none
      rw [after, none]
      rfl
    · intro filled
      cases least : List.argmin Row.pubkey (candidates s before es a) with
      | none => exact absurd (List.argmin_eq_none.mp least) filled
      | some row =>
        exact ⟨row, by rw [after, least]; rfl, List.argmin_mem least,
          fun r member => List.le_of_mem_argmin member least⟩
    · intro es' completed' same
      have after' := rows_after_least standing completed'
      obtain ⟨o, start, _⟩ := standing
      rw [after, after', candidates, candidates, start]
      cases least : List.argmin Row.pubkey (o.toList ++ recordedRows s a es) with
      | none =>
        have empty := List.argmin_eq_none.mp least
        rw [List.append_eq_nil_iff] at empty
        rw [empty.2] at same
        rw [empty.1, same.eq_nil]
        simp
      | some m =>
        cases least' : List.argmin Row.pubkey (o.toList ++ recordedRows s a es') with
        | none =>
          have empty := List.argmin_eq_none.mp least'
          rw [List.append_eq_nil_iff] at empty
          rw [empty.2] at same
          rw [empty.1, same.symm.eq_nil] at least
          cases least
        | some m' =>
          obtain ⟨keys, rows⟩ := commuting_rows same least least'
          refine ⟨?_, ?_⟩
          · simp [keys]
          · intro agree
            rw [rows agree]
  · intro archived own b
    have serial := run_serial es (opened_serial s before)
    rw [rowsAfter, serial.folded b]
    by_cases same : b = a
    · rw [same]
      exact records_archived archived _
    · have none : doneCalls b (run s (opened before) es).lock.tickets = [] := by
        have calls := run_calls s es (opened before)
        rw [doneCalls, List.map_eq_nil_iff, List.filter_eq_nil_iff]
        intro t member
        have here : t.load.call ∈ callsOf (run s (opened before) es) := List.mem_map_of_mem member
        rw [calls] at here
        have anchor := own t.load.call (by simpa [callsOf, opened, ChainedLock.empty] using here)
        simp only [Bool.and_eq_true, decide_eq_true_eq, not_and]
        intro _ other
        exact same (other.symm.trans anchor)
      rw [none]
      rfl

end OneRow

section Samples

def keyOf (c : Char) : String := String.ofList (List.replicate 64 c)

def bundleCall (key : String) (blockIndex : ℤ) : Call :=
  ⟨"anchor_bundle", 850000, key, blockIndex, some "mainnet"⟩

def bundleKey : RewardKey := ⟨850000, "anchor_bundle", 0⟩

/- Two calls that overlap: the second waits for the first. -/
def overlapping (c d : Call) : List Event :=
  [.call c, .call d, .start 0, .start 1, .read 0 true, .write 0 true, .settle 0, .start 1,
    .read 1 true, .release 0, .write 1 true, .settle 1, .release 1]

def alone (c : Call) : List Event :=
  [.call c, .start 0, .read 0 true, .write 0 true, .settle 0, .release 0]

def tenPerAnchor : Settings := ⟨"10.00000000", "mainnet"⟩

def archivedRow : Row := ⟨bundleKey, keyOf 'f', 10, 850000, some 3⟩

theorem overlapping_one_row :
    OneRow tenPerAnchor [] (overlapping (bundleCall (keyOf 'b') 850000)
      (bundleCall (keyOf 'A') 850000)) bundleKey ∧
    ∀ b, rowsAfter tenPerAnchor [archivedRow] (overlapping (bundleCall (keyOf 'b') 850000)
      (bundleCall (keyOf 'A') 850000)) b = rowsFor b [archivedRow] := by
  constructor
  · refine (one_row_per_anchor tenPerAnchor [] _ bundleKey).1 ⟨none, rfl, ?_⟩ ⟨?_, ?_⟩
    · intro r none
      cases none
    · decide
    · decide +kernel
  · exact (one_row_per_anchor tenPerAnchor [archivedRow] _ bundleKey).2 (by decide)
      (by decide)

def worthlessCall : { events : List Event //
    Completed ⟨"0", "mainnet"⟩ [] events ∧ made events ≠ [] ∧
      rowsAfter ⟨"0", "mainnet"⟩ [] events bundleKey = [] } :=
  ⟨alone (bundleCall (keyOf 'b') 850000), ⟨by decide +kernel, by decide +kernel⟩,
    by decide +kernel, by decide +kernel⟩

/- One key at two heights in both orders. -/
def twoHeights : { runs : List Event × List Event //
    Completed tenPerAnchor [] runs.1 ∧ Completed tenPerAnchor [] runs.2 ∧
      rowsAfter tenPerAnchor [] runs.1 bundleKey ≠ rowsAfter tenPerAnchor [] runs.2 bundleKey } :=
  ⟨(overlapping (bundleCall (keyOf 'b') 1) (bundleCall (keyOf 'b') 2),
    overlapping (bundleCall (keyOf 'b') 2) (bundleCall (keyOf 'b') 1)),
    ⟨by decide +kernel, by decide +kernel⟩, ⟨by decide +kernel, by decide +kernel⟩,
    by decide +kernel⟩

/- A knob of zero leaves no row at all, and one key at two heights leaves the first height. -/
theorem worthless_call_unrecorded :
    (Completed ⟨"0", "mainnet"⟩ [] (alone (bundleCall (keyOf 'b') 850000)) ∧
      made (alone (bundleCall (keyOf 'b') 850000)) ≠ [] ∧
      rowsAfter ⟨"0", "mainnet"⟩ [] (alone (bundleCall (keyOf 'b') 850000)) bundleKey = []) ∧
    Completed tenPerAnchor [] (overlapping (bundleCall (keyOf 'b') 1) (bundleCall (keyOf 'b') 2)) ∧
    Completed tenPerAnchor [] (overlapping (bundleCall (keyOf 'b') 2) (bundleCall (keyOf 'b') 1)) ∧
    rowsAfter tenPerAnchor [] (overlapping (bundleCall (keyOf 'b') 1) (bundleCall (keyOf 'b') 2))
        bundleKey ≠
      rowsAfter tenPerAnchor [] (overlapping (bundleCall (keyOf 'b') 2) (bundleCall (keyOf 'b') 1))
        bundleKey :=
  ⟨worthlessCall.property, twoHeights.property⟩

end Samples
end XChainHub.Anchor.RewardTracker
