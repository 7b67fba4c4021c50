import XChainHub.Peers.HubDb.Broadcaster

/-!
What ties a broadcaster's observations, floors and frames together, and what follows for the
heights it would publish now.
-/
namespace XChainHub.HubDb
open HighWater MirrorAdmissionGate

section Tables
variable {table : String} {spec : TableSpec} {c : String}

theorem listed_spec {t : String × TableSpec} (listed : t ∈ admissionWatermarkTables) :
    tableSpec t.1 = some t.2 := by
  revert t
  decide

theorem spec_listed (found : tableSpec table = some spec) : (table, spec) ∈ admissionWatermarkTables := by
  obtain ⟨t, hit, rfl⟩ := Option.map_eq_some_iff.mp found
  have name : t.1 = table := by simpa using List.find?_some hit
  rw [← name]
  exact List.mem_of_find?_eq_some hit

theorem listed_chain {t : String × TableSpec} (listed : t ∈ admissionWatermarkTables)
    (inside : c ∈ t.2.chains) : normalizeChain c = some c := by
  have all : ∀ t ∈ admissionWatermarkTables, ∀ c ∈ t.2.chains, normalizeChain c = some c := by
    decide
  exact all t listed c inside

theorem usable_iff {h : ℤ} : usable h = true ↔ 0 ≤ h ∧ h ≤ maxSafeInteger := by
  simp [usable]

end Tables

section Invariant
variable (cfg : Config)

/- A tip above the height was observed a whole window ago. -/
def Justified (history : List (String × Observation)) (now : ℤ) (k : Claim) : Prop :=
  ∃ spec, tableSpec k.table = some spec ∧ k.chain ∈ spec.chains ∧
    ∃ o, (k.chain, o) ∈ history ∧ k.height < o.height ∧ o.time + cfg.roundWindows spec.round ≤ now

/- The observations of one chain that were kept, against all of this process. -/
structure Kept (now : ℤ) (history : List (String × Observation)) (c : String)
    (marks seen : List Observation) : Prop where
  suffix : marks <:+ seen
  rising : Rising seen
  nonempty : marks = [] → seen = []
  recorded : ∀ m ∈ seen, (c, m) ∈ history
  answers : ∀ cutoff, now - cfg.longest ≤ cutoff → newest marks cutoff = newest seen cutoff

def Broadcaster.seenOn (b : Broadcaster) (c : String) : List Observation := (b.seen.get c).getD []

/- What the hub would publish now is at least the claim, before the cap. -/
def Stands (b : Broadcaster) (k : Claim) : Prop :=
  ∃ spec, tableSpec k.table = some spec ∧ k.chain ∈ spec.chains ∧
    ∃ v, level cfg b.watermark k.table spec.round k.chain b.clock = some v ∧ k.height ≤ v

/- A round behind the row opened at a tip that the claim covers. -/
def contradicts (table : String) (row : Row) (k : Claim) : Bool :=
  k.table = table &&
    match rowHeights table row with
    | some (some map) => map.any (fun e => e.1 = k.chain && (openingTip cfg table e).any (· ≤ k.height))
    | _ => false

def Claim.under (k : Claim) (caps : OrderedMap (String × String) ℤ) : Claim :=
  { k with height := capped caps k.table k.chain k.height }

/- Of a claim only what the cap in force reaches, and nothing under a negative cap. -/
def StaysAbove (s : Sent) (k : Claim) : Prop :=
  usable (k.under s.caps).height = true → contradicts cfg s.table s.row (k.under s.caps) = false

def isOver (r : Opened) (time : ℤ) : Bool :=
  (roundTerminalMs cfg r.table).any (fun (ms : ℕ) => r.time + ms ≤ time)

structure Sound (b : Broadcaster) : Prop where
  kept : ∀ c, Kept cfg b.clock b.history c (b.watermark.marks c) (b.seenOn c)
  past : ∀ e ∈ b.history, e.2.time ≤ b.clock ∧ e.2.height ≤ maxSafeInteger
  unloaded : b.floorLoaded = false → b.watermark.floor = OrderedMap.empty
  floor : ∀ k ∈ claimsOf b.watermark.floor, Justified cfg b.history b.clock k
  stored : ∀ k ∈ claimsOf b.stored, Justified cfg b.history b.clock k
  saving : ∀ s ∈ b.saving, ∀ k ∈ s.published, Justified cfg b.history b.clock k
  frames : ∀ f ∈ b.frames, Justified cfg b.history f.time f.claim
  standing : ∀ k ∈ b.standing, Stands cfg b k
  rounds : ∀ r ∈ b.rounds, r.time ≤ b.clock ∧ ∀ e ∈ b.history, e ∈ r.observed ∨ r.time ≤ e.2.time
  sent : ∀ s ∈ b.sent, withdrawsPriceRound s.table s.row = false →
    ∀ k ∈ s.standing, StaysAbove cfg s k

end Invariant

section Justification
variable {cfg : Config} {history more : List (String × Observation)} {now later : ℤ} {k : Claim}

theorem Justified.mono (before : Justified cfg history now k) (grown : history ⊆ more)
    (passes : now ≤ later) : Justified cfg more later k := by
  obtain ⟨spec, found, inside, o, seen, above, old⟩ := before
  exact ⟨spec, found, inside, o, grown seen, above, by omega⟩

theorem Justified.lower {h : ℤ} (before : Justified cfg history now k) (below : h ≤ k.height) :
    Justified cfg history now { k with height := h } := by
  obtain ⟨spec, found, inside, o, seen, above, old⟩ := before
  exact ⟨spec, found, inside, o, seen, lt_of_le_of_lt below above, old⟩

theorem held_at_cases {floor : OrderedMap (String × String) ℤ} {k' : Claim}
    (held : heldAt floor k = some k') : k'.table = k.table ∧ k'.chain = k.chain ∧ k'.height ≤ k.height := by
  unfold heldAt at held
  split at held
  · cases held
  · split at held
    · cases held
      exact ⟨rfl, rfl, min_le_left _ _⟩
    · cases held

theorem mem_claims_of {floor : OrderedMap (String × String) ℤ} :
    k ∈ claimsOf floor ↔ floor.get (k.table, k.chain) = some k.height := by
  rw [OrderedMap.get_eq_some_iff]
  constructor
  · intro member
    obtain ⟨e, inside, rfl⟩ := List.mem_map.mp member
    exact inside
  · intro inside
    exact List.mem_map.mpr ⟨_, inside, rfl⟩

theorem mem_set_all {m : OrderedMap (String × String) ℤ} {claims : List Claim}
    (member : k ∈ claimsOf (setAll m claims)) : k ∈ claimsOf m ∨ k ∈ claims := by
  induction claims generalizing m with
  | nil => exact Or.inl member
  | cons a rest ih =>
    rcases ih member with early | late
    · rw [mem_claims_of, OrderedMap.get_eq_some_iff] at early
      rcases OrderedMap.mem_set early with ⟨place, height⟩ | ⟨-, old⟩
      · have same : k = a := by
          cases k
          cases a
          cases place
          cases height
          rfl
        exact Or.inr (same ▸ List.mem_cons_self)
      · exact Or.inl (mem_claims_of.mpr (OrderedMap.get_eq_some_iff.mpr old))
    · exact Or.inr (List.mem_cons_of_mem a late)

theorem mem_install {stored : List ((String × String) × ℤ)} {floor : OrderedMap (String × String) ℤ}
    {e : (String × String) × ℤ} (member : e ∈ (stored.foldl installFloor floor).entries) :
    e ∈ floor.entries ∨
      ∃ s ∈ stored, s.1.1 = e.1.1 ∧ normalizeChain s.1.2 = some e.1.2 ∧ s.2 = e.2 := by
  induction stored generalizing floor with
  | nil => exact Or.inl member
  | cons s rest ih =>
    rcases ih member with early | ⟨s', inside, same⟩
    · unfold installFloor at early
      split at early
      · rename_i known spelled
        split at early
        · rcases OrderedMap.mem_set early with ⟨place, height⟩ | ⟨-, old⟩
          · exact Or.inr ⟨s, List.mem_cons_self, by rw [place], by rw [place]; exact spelled, height.symm⟩
          · exact Or.inl old
        · exact Or.inl early
      · exact Or.inl early
    · exact Or.inr ⟨s', List.mem_cons_of_mem s inside, same⟩

theorem set_floor_justified {w : Watermark} {stored : OrderedMap (String × String) ℤ}
    (sound : ∀ k ∈ claimsOf stored, Justified cfg history now k) :
    ∀ k ∈ claimsOf (setFloor w stored.entries).floor, Justified cfg history now k := by
  intro k member
  rw [mem_claims_of, OrderedMap.get_eq_some_iff] at member
  rcases mem_install member with none | ⟨s, inside, table, spelled, height⟩
  · exact absurd none List.not_mem_nil
  · have raw := sound ⟨s.1.1, s.1.2, s.2⟩ (List.mem_map.mpr ⟨s, inside, rfl⟩)
    obtain ⟨spec, found, chain, rest⟩ := raw
    have code : s.1.2 = k.chain := by
      rw [listed_chain (spec_listed found) chain] at spelled
      exact Option.some.inj spelled
    have same : (⟨s.1.1, s.1.2, s.2⟩ : Claim) = k := by
      cases k
      simp only at table code height
      rw [table, code, height]
    rw [← same]
    exact ⟨spec, found, chain, rest⟩

end Justification

section Observations
variable {cfg : Config} {history more : List (String × Observation)} {now later : ℤ} {c : String}
  {marks seen : List Observation}

theorem Kept.start : Kept cfg now history c [] [] := by
  refine ⟨List.suffix_refl _, List.Pairwise.nil, fun _ => rfl, ?_, fun _ _ => rfl⟩
  intro m member
  exact absurd member List.not_mem_nil

theorem Kept.mono (before : Kept cfg now history c marks seen) (grown : history ⊆ more)
    (passes : now ≤ later) : Kept cfg later more c marks seen := by
  refine ⟨before.suffix, before.rising, before.nonempty, fun m member => grown (before.recorded m member), ?_⟩
  intro cutoff asked
  exact before.answers cutoff (by omega)

theorem Kept.last (before : Kept cfg now history c marks seen) : marks.getLast? = seen.getLast? := by
  cases marks with
  | nil => rw [before.nonempty rfl]
  | cons a rest =>
    obtain ⟨front, rfl⟩ := before.suffix
    rw [List.getLast?_append_of_ne_nil _ (List.cons_ne_nil a rest)]

theorem Kept.raised {m : Observation} (before : Kept cfg now history c marks seen)
    (past : ∀ e ∈ history, e.2.time ≤ now) (current : m.time = now)
    (above : ∀ top ∈ marks.getLast?, top.height < m.height) :
    Kept cfg now ((c, m) :: history) c (dropSettled (now - cfg.longest) (marks ++ [m])) (seen ++ [m]) := by
  constructor
  case suffix =>
    obtain ⟨front, same⟩ := before.suffix
    refine (drop_settled_suffix _ _).trans ⟨front, ?_⟩
    rw [← same, List.append_assoc]
  case rising =>
    rw [before.last] at above
    refine rising_concat before.rising ?_ above
    intro a member
    rw [current]
    exact past _ (before.recorded a member)
  case nonempty =>
    intro empty
    exact absurd empty (drop_settled_nonempty (by simp))
  case recorded =>
    intro a member
    rcases List.mem_append.mp member with early | last
    · exact List.mem_cons_of_mem _ (before.recorded a early)
    · rw [List.mem_singleton.mp last]
      exact List.mem_cons_self
  case answers =>
    intro cutoff asked
    rw [newest_drop _ asked, newest_concat, newest_concat, before.answers cutoff asked]

variable {marks' seen' : List Observation}

/-- What is old enough stays old enough, and nothing pruned is missed. -/
theorem settled_mono (before : Kept cfg now history c marks seen)
    (after : Kept cfg later more c marks' seen') (grown : seen ⊆ seen') (passes : now ≤ later)
    (round : Rail) {h : ℤ} (found : newest marks (now - cfg.roundWindows round) = some h) :
    ∃ h', newest marks' (later - cfg.roundWindows round) = some h' ∧ h ≤ h' := by
  have window := window_le_longest cfg round
  rw [before.answers _ (by omega)] at found
  rw [after.answers _ (by omega)]
  exact newest_mono after.rising (fun m member => grown member) (by omega) found

end Observations

section Levels
variable {cfg : Config} {w w' : Watermark} {table : String} {round : Rail} {c : String} {now later v : ℤ}

theorem level_cases (found : level cfg w table round c now = some v) :
    (∃ h, settledHeight w c (now - cfg.roundWindows round) = some h ∧ v = h - 1) ∨
      w.floor.get (table, c) = some v := by
  unfold level at found
  cases settled : settledHeight w c (now - cfg.roundWindows round) with
  | none =>
    rw [settled] at found
    exact Or.inr found
  | some h =>
    rw [settled] at found
    cases floor : w.floor.get (table, c) with
    | none =>
      rw [floor] at found
      exact Or.inl ⟨h, rfl, (Option.some.inj found).symm⟩
    | some f =>
      rw [floor] at found
      have greater : max (h - 1) f = v := Option.some.inj found
      rcases max_choice (h - 1) f with base | floor'
      · exact Or.inl ⟨h, rfl, by rw [← greater, base]⟩
      · exact Or.inr (by rw [← greater, floor'])

theorem settled_le_level {h : ℤ} (settled : settledHeight w c (now - cfg.roundWindows round) = some h) :
    ∃ v, level cfg w table round c now = some v ∧ h - 1 ≤ v := by
  unfold level
  rw [settled]
  cases w.floor.get (table, c) with
  | none => exact ⟨h - 1, rfl, le_refl _⟩
  | some f => exact ⟨max (h - 1) f, rfl, le_max_left _ _⟩

theorem floor_le_level {f : ℤ} (floor : w.floor.get (table, c) = some f) :
    ∃ v, level cfg w table round c now = some v ∧ f ≤ v := by
  unfold level
  rw [floor]
  cases settledHeight w c (now - cfg.roundWindows round) with
  | none => exact ⟨f, rfl, le_refl _⟩
  | some h => exact ⟨max (h - 1) f, rfl, le_max_right _ _⟩

theorem level_mono
    (settles : ∀ h, settledHeight w c (now - cfg.roundWindows round) = some h →
      ∃ h', settledHeight w' c (later - cfg.roundWindows round) = some h' ∧ h ≤ h')
    (floored : ∀ f, w.floor.get (table, c) = some f → w'.floor.get (table, c) = some f)
    (found : level cfg w table round c now = some v) :
    ∃ v', level cfg w' table round c later = some v' ∧ v ≤ v' := by
  rcases level_cases found with ⟨h, settled, rfl⟩ | floor
  · obtain ⟨h', settled', above⟩ := settles h settled
    obtain ⟨v', found', base⟩ := @settled_le_level cfg w' table round c later h' settled'
    exact ⟨v', found', by omega⟩
  · exact floor_le_level (floored v floor)

end Levels

section Publication
variable {cfg : Config} {b b' : Broadcaster} {k : Claim}

theorem Stands.lower {h : ℤ} (before : Stands cfg b k) (below : h ≤ k.height) :
    Stands cfg b { k with height := h } := by
  obtain ⟨spec, found, inside, v, current, above⟩ := before
  exact ⟨spec, found, inside, v, current, le_trans below above⟩

theorem heights_stand (member : k ∈ heights cfg b.watermark b.clock) : Stands cfg b k := by
  obtain ⟨t, listed, name, inside, entry⟩ := mem_heights.mp member
  obtain ⟨v, current, ceiling, -⟩ := entry_at_iff.mp entry
  refine ⟨t.2, name ▸ listed_spec listed, inside, v, current, ?_⟩
  rw [← ceiling]
  exact capped_le _ _ _ _

theorem admission_heights_stand {caughtUp : Bool} (member : k ∈ admissionHeights cfg b caughtUp) :
    Stands cfg b k := by
  unfold admissionHeights at member
  cases caughtUp with
  | true => exact heights_stand member
  | false =>
    obtain ⟨current, listed, held⟩ := List.mem_filterMap.mp member
    obtain ⟨table, chain, below⟩ := held_at_cases held
    have stands := (heights_stand listed).lower below
    rw [← table, ← chain] at stands
    exact stands

theorem level_justified (sound : Sound cfg b) {spec : TableSpec} {v : ℤ}
    (found : tableSpec k.table = some spec) (inside : k.chain ∈ spec.chains)
    (current : level cfg b.watermark k.table spec.round k.chain b.clock = some v) :
    Justified cfg b.history b.clock { k with height := v } := by
  rcases level_cases current with ⟨h, settled, rfl⟩ | floor
  · obtain ⟨m, member, rfl, old⟩ := newest_mem settled
    have kept := sound.kept k.chain
    exact ⟨spec, found, inside, m, kept.recorded m (kept.suffix.subset member), by simp, by omega⟩
  · exact sound.floor _ (mem_claims_of.mpr floor)

theorem Stands.justified (sound : Sound cfg b) (stands : Stands cfg b k) :
    Justified cfg b.history b.clock k := by
  obtain ⟨spec, found, inside, v, current, above⟩ := stands
  exact (level_justified sound found inside current).lower above

/-- What stood is no more than what the hub would publish now, under any cap in force. -/
theorem Stands.published (sound : Sound cfg b) (stands : Stands cfg b k)
    (ok : usable (k.under b.watermark.caps).height = true) :
    ∃ h, (k.under b.watermark.caps).height ≤ h ∧
      (⟨k.table, k.chain, h⟩ : Claim) ∈ heights cfg b.watermark b.clock := by
  obtain ⟨spec, found, inside, v, current, above⟩ := stands
  obtain ⟨spec', found', -, o, seen, below, -⟩ := level_justified sound found inside current
  have higher := capped_mono b.watermark.caps k.table k.chain above
  have ceiling := capped_le b.watermark.caps k.table k.chain v
  refine ⟨_, higher, mem_heights.mpr ⟨(k.table, spec), spec_listed found, rfl, inside, ?_⟩⟩
  refine entry_at_iff.mpr ⟨v, current, rfl, usable_iff.mpr ⟨?_, ?_⟩⟩
  · exact le_trans (usable_iff.mp ok).1 higher
  · exact le_trans ceiling (le_trans (le_of_lt below) (sound.past _ seen).2)

theorem late_of_contradicts {w : Watermark} {table : String} {row : Row} {now h : ℤ}
    (listed : (⟨k.table, k.chain, h⟩ : Claim) ∈ heights cfg w now) (below : k.height ≤ h)
    (against : contradicts cfg table row k = true) : isLateFinalization cfg w table row now = true := by
  obtain ⟨t, known, name, -⟩ := mem_heights.mp listed
  have mirrored : tableSpec k.table = some t.2 := name ▸ listed_spec known
  unfold contradicts at against
  rw [Bool.and_eq_true, decide_eq_true_eq] at against
  obtain ⟨same, against⟩ := against
  unfold isLateFinalization
  rw [← same, mirrored, Option.isNone_some, same]
  simp only [Bool.false_eq_true, if_false]
  split at against
  · rename_i map read
    rw [read]
    obtain ⟨e, member, covered⟩ := List.any_eq_true.mp against
    rw [Bool.and_eq_true, decide_eq_true_eq] at covered
    obtain ⟨tip, opened, low⟩ := (Option.any_eq_true _ _).mp covered.2
    refine List.any_eq_true.mpr ⟨e, member, List.any_eq_true.mpr ⟨_, listed, ?_⟩⟩
    have reached : tip ≤ h := le_trans (of_decide_eq_true low) below
    simp [same, covered.1, opened, reached]
  · cases against

theorem stands_mono (stands : Stands cfg b k) (passes : b.clock ≤ b'.clock)
    (before : ∀ c, Kept cfg b.clock b.history c (b.watermark.marks c) (b.seenOn c))
    (after : ∀ c, Kept cfg b'.clock b'.history c (b'.watermark.marks c) (b'.seenOn c))
    (grown : ∀ c, b.seenOn c ⊆ b'.seenOn c)
    (floored : ∀ t f, b.watermark.floor.get t = some f → b'.watermark.floor.get t = some f) :
    Stands cfg b' k := by
  obtain ⟨spec, found, inside, v, current, above⟩ := stands
  have later := @level_mono cfg b.watermark b'.watermark k.table spec.round k.chain b.clock b'.clock v
    (fun h => settled_mono (before k.chain) (after k.chain) (grown k.chain) passes spec.round)
    (floored (k.table, k.chain)) current
  obtain ⟨v', current', further⟩ := later
  exact ⟨spec, found, inside, v', current', le_trans above further⟩

end Publication

end XChainHub.HubDb
