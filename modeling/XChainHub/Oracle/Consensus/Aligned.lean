import XChainHub.Oracle.Consensus.ClampReference

/-!
When the clamp reference is a function of the round: what a refresh that returns has left
in the cache, over runs that note stored rows and lose none they hold.
-/
namespace XChainHub.Oracle.ClampReference
open GuardedRuns

section Notes
variable {clock : Option ℤ} {c : Cache} {rows : Rows} {pair : String} {r : ℤ} {ref : Reference}

def Recorded (rows : Rows) (ref : Reference) : Prop :=
  rows.get (ref.round, ref.pair) = some ⟨.finalized, some ref.price⟩

instance (rows : Rows) (ref : Reference) : Decidable (Recorded rows ref) :=
  inferInstanceAs (Decidable (_ = _))

/- Both maps hold the same pairs, and each pair's price and round are a row's. -/
structure Grounded (rows : Rows) (c : Cache) : Prop where
  stamped : ∀ {pair price}, c.prices.get pair = some price →
    ∃ r, c.rounds.get pair = some r ∧ Recorded rows ⟨pair, r, price⟩
  priced : ∀ {pair r}, c.rounds.get pair = some r → ∃ price, c.prices.get pair = some price

/- The cached round of a pair has come as far as r. -/
def Reaches (c : Cache) (pair : String) (r : ℤ) : Prop := (c.rounds.get pair).any (r ≤ ·) = true

instance (c : Cache) (pair : String) (r : ℤ) : Decidable (Reaches c pair r) :=
  inferInstanceAs (Decidable (_ = _))

theorem reaches_iff : Reaches c pair r ↔ ∃ held, c.rounds.get pair = some held ∧ r ≤ held := by
  simp [Reaches, Option.any_eq_true]

theorem grounded_empty : Grounded rows .empty := ⟨nofun, nofun⟩

def Taken (clock : Option ℤ) (ref : Reference) : Prop :=
  ref.pair ≠ "" ∧ ref.price ≠ "" ∧ beyond clock ref.round = false

instance (clock : Option ℤ) (ref : Reference) : Decidable (Taken clock ref) :=
  inferInstanceAs (Decidable (_ ∧ _))

/-- A stamped note leaves the cache, or sets the round and the price of its pair. -/
theorem note_cases (clock : Option ℤ) (c : Cache) (ref : Reference) :
    (noteSeeded clock c ref = c ∧ (Taken clock ref → ∃ held, c.rounds.get ref.pair = some held ∧ ref.round < held)) ∨
      (noteSeeded clock c ref = ⟨c.prices.set ref.pair ref.price, c.rounds.set ref.pair ref.round⟩ ∧
        ∀ held, c.rounds.get ref.pair = some held → held ≤ ref.round) := by
  simp only [noteSeeded, noteFinalizedPrice]
  by_cases blank : ref.pair = "" ∨ ref.price = ""
  · rw [if_pos blank]
    refine Or.inl ⟨rfl, ?_⟩
    intro taken
    rcases blank with pair | price
    · exact absurd pair taken.1
    · exact absurd price taken.2.1
  · rw [if_neg blank]
    by_cases refused : beyond clock ref.round = true ∨ (c.rounds.get ref.pair).any (ref.round < ·) = true
    · rw [if_pos refused]
      refine Or.inl ⟨rfl, ?_⟩
      intro taken
      rcases refused with far | old
      · rw [taken.2.2] at far
        exact absurd far (by simp)
      · simpa [Option.any_eq_true] using old
    · rw [if_neg refused]
      refine Or.inr ⟨rfl, ?_⟩
      intro held known
      rw [not_or, known] at refused
      simpa using refused.2

theorem grounded_note (grounded : Grounded rows c) (recorded : Recorded rows ref) :
    Grounded rows (noteSeeded clock c ref) := by
  rcases note_cases clock c ref with ⟨same, -⟩ | ⟨set, -⟩
  · rw [same]
    exact grounded
  · rw [set]
    constructor
    · intro pair price held
      by_cases own : pair = ref.pair
      · rw [own, OrderedMap.get_set_same, Option.some.injEq] at held
        rw [own, ← held]
        exact ⟨ref.round, OrderedMap.get_set_same _ _ _, recorded⟩
      · rw [OrderedMap.get_set_other own] at held
        rw [OrderedMap.get_set_other own]
        exact grounded.stamped held
    · intro pair r held
      by_cases own : pair = ref.pair
      · rw [own]
        exact ⟨ref.price, OrderedMap.get_set_same _ _ _⟩
      · rw [OrderedMap.get_set_other own] at held
        rw [OrderedMap.get_set_other own]
        exact grounded.priced held

/-- A note never takes a pair back. -/
theorem reaches_note (reaches : Reaches c pair r) : Reaches (noteSeeded clock c ref) pair r := by
  obtain ⟨held, known, far⟩ := reaches_iff.mp reaches
  rcases note_cases clock c ref with ⟨same, -⟩ | ⟨set, newer⟩
  · rw [same]
    exact reaches
  · rw [set, reaches_iff]
    by_cases own : pair = ref.pair
    · rw [own] at known ⊢
      exact ⟨ref.round, OrderedMap.get_set_same _ _ _, far.trans (newer held known)⟩
    · exact ⟨held, (OrderedMap.get_set_other own).trans known, far⟩

theorem reaches_noted (taken : Taken clock ref) :
    Reaches (noteSeeded clock c ref) ref.pair ref.round := by
  rw [reaches_iff]
  rcases note_cases clock c ref with ⟨same, known⟩ | ⟨set, -⟩
  · obtain ⟨held, known, newer⟩ := known taken
    rw [same]
    exact ⟨held, known, le_of_lt newer⟩
  · rw [set]
    exact ⟨ref.round, OrderedMap.get_set_same _ _ _, le_refl _⟩

theorem rounds_note {held : ℤ} (now : (noteSeeded clock c ref).rounds.get pair = some held) :
    c.rounds.get pair = some held ∨ held = ref.round := by
  rcases note_cases clock c ref with ⟨same, -⟩ | ⟨set, -⟩
  · rw [same] at now
    exact Or.inl now
  · rw [set] at now
    by_cases own : pair = ref.pair
    · rw [own, OrderedMap.get_set_same, Option.some.injEq] at now
      exact Or.inr now.symm
    · rw [OrderedMap.get_set_other own] at now
      exact Or.inl now

end Notes

section Folds
variable {clock : Option ℤ} {c : Cache} {rows : Rows} {pair : String} {r : ℤ} {found : List Reference}

theorem grounded_fold (grounded : Grounded rows c) (recorded : ∀ ref ∈ found, Recorded rows ref) :
    Grounded rows (found.foldl (noteSeeded clock) c) := by
  induction found generalizing c with
  | nil => exact grounded
  | cons ref rest ih =>
    rw [List.forall_mem_cons] at recorded
    exact ih (grounded_note grounded recorded.1) recorded.2

theorem reaches_fold (reaches : Reaches c pair r) :
    Reaches (found.foldl (noteSeeded clock) c) pair r := by
  induction found generalizing c with
  | nil => exact reaches
  | cons ref rest ih => exact ih (reaches_note reaches)

theorem reaches_folded {ref : Reference} (member : ref ∈ found) (taken : Taken clock ref) :
    Reaches (found.foldl (noteSeeded clock) c) ref.pair ref.round := by
  induction found generalizing c with
  | nil => exact absurd member List.not_mem_nil
  | cons first rest ih =>
    rcases List.mem_cons.mp member with same | later
    · rw [List.foldl_cons, ← same]
      exact reaches_fold (reaches_noted taken)
    · exact ih later

theorem rounds_fold {held : ℤ} (now : (found.foldl (noteSeeded clock) c).rounds.get pair = some held) :
    c.rounds.get pair = some held ∨ ∃ ref ∈ found, held = ref.round := by
  induction found generalizing c with
  | nil => exact Or.inl now
  | cons ref rest ih =>
    rcases ih now with before | ⟨other, member, same⟩
    · rcases rounds_note before with old | new
      · exact Or.inl old
      · exact Or.inr ⟨ref, List.mem_cons_self, new⟩
    · exact Or.inr ⟨other, List.mem_cons_of_mem _ member, same⟩

end Folds

section Discards
variable {c : Cache} {rows : Rows} {round : ℤ}

theorem get_filter_key {β : Type} {m : OrderedMap String β} (keep : String → Bool) {a : String}
    {b : β} :
    (m.filter fun e => keep e.1).get a = some b ↔ m.get a = some b ∧ keep a = true := by
  rw [OrderedMap.get_eq_some_iff, OrderedMap.get_eq_some_iff, OrderedMap.mem_filter]

theorem grounded_discard (grounded : Grounded rows c) : Grounded rows (discardFrom round c) := by
  constructor
  · intro pair price held
    obtain ⟨held, keep⟩ := (get_filter_key (fun pair => !late round c pair)).mp held
    obtain ⟨r, known, recorded⟩ := grounded.stamped held
    exact ⟨r, (get_filter_key (fun pair => !late round c pair)).mpr ⟨known, keep⟩, recorded⟩
  · intro pair r held
    obtain ⟨held, keep⟩ := (get_filter_key (fun pair => !late round c pair)).mp held
    obtain ⟨price, priced⟩ := grounded.priced held
    exact ⟨price, (get_filter_key (fun pair => !late round c pair)).mpr ⟨priced, keep⟩⟩

theorem dropped_iff :
    dropped round c = false ↔ ∀ pair held, c.rounds.get pair = some held → held < round := by
  simp [dropped, OrderedMap.get_eq_some_iff]

end Discards
section Aligned
variable {canonicalPairs : List String} {rows : Rows} {c : Cache} {pair : String} {N : ℤ}

def FinalizedBelow (pair : String) (N : ℤ) (e : (ℤ × String) × PriceRow) : Prop :=
  e.2.status = .finalized ∧ e.1.2 = pair ∧ e.1.1 < N

instance (pair : String) (N : ℤ) (e : (ℤ × String) × PriceRow) : Decidable (FinalizedBelow pair N e) :=
  inferInstanceAs (Decidable (_ ∧ _))

/- The highest finalized row of a pair below a round. -/
def highestBelow (rows : Rows) (pair : String) (N : ℤ) : Option ((ℤ × String) × PriceRow) :=
  @List.argmax _ ℤ Int.instLinearOrder.toPreorder Int.decLt (fun e => e.1.1)
    (rows.entries.filter fun e => FinalizedBelow pair N e)

/-- Every cached reference carries a round below N, and every seeded pair has the price of its
    highest finalized row below N. -/
structure Aligned (canonicalPairs : List String) (N : ℤ) (rows : Rows) (c : Cache) : Prop where
  below : ∀ pair price, c.prices.get pair = some price → ∃ r, c.rounds.get pair = some r ∧ r < N
  highest : ∀ pair ∈ lastFinalizedSeedPairs canonicalPairs,
    c.prices.get pair = (highestBelow rows pair N).bind fun e => e.2.price

theorem highest_none_iff : highestBelow rows pair N = none ↔ ∀ e ∈ rows.entries, ¬ FinalizedBelow pair N e := by
  simp [highestBelow, List.filter_eq_nil_iff]

theorem highest_some {e : (ℤ × String) × PriceRow} (highest : highestBelow rows pair N = some e) :
    e ∈ rows.entries ∧ FinalizedBelow pair N e ∧
      ∀ other ∈ rows.entries, FinalizedBelow pair N other → other.1.1 ≤ e.1.1 := by
  have member := List.mem_filter.mp (List.argmax_mem (Option.mem_def.mpr highest))
  refine ⟨member.1, of_decide_eq_true member.2, ?_⟩
  intro other inside finalized
  exact List.le_of_mem_argmax (f := fun e : (ℤ × String) × PriceRow => e.1.1)
    (List.mem_filter.mpr ⟨inside, decide_eq_true finalized⟩) (Option.mem_def.mpr highest)

/-- A cache of stored rows below N that has come as far as each row below N is aligned. -/
theorem aligned_of (grounded : Grounded rows c)
    (early : ∀ pair held, c.rounds.get pair = some held → held < N)
    (caught : ∀ pair ∈ lastFinalizedSeedPairs canonicalPairs, ∀ e ∈ rows.entries,
      FinalizedBelow pair N e → Reaches c pair e.1.1) : Aligned canonicalPairs N rows c := by
  have cached {pair price} (held : c.prices.get pair = some price) :
      ∃ r, c.rounds.get pair = some r ∧ r < N ∧ Recorded rows ⟨pair, r, price⟩ := by
    obtain ⟨r, known, recorded⟩ := grounded.stamped held
    exact ⟨r, known, early pair r known, recorded⟩
  constructor
  · intro pair price held
    obtain ⟨r, known, below, -⟩ := cached held
    exact ⟨r, known, below⟩
  · intro pair seeded
    cases top : highestBelow rows pair N with
    | none =>
      rw [Option.bind_none, Option.eq_none_iff_forall_ne_some]
      intro price held
      obtain ⟨r, -, below, recorded⟩ := cached held
      exact highest_none_iff.mp top _ (OrderedMap.mem_of_get recorded) ⟨rfl, rfl, below⟩
    | some e =>
      obtain ⟨member, finalized, most⟩ := highest_some top
      obtain ⟨r, known, far⟩ := reaches_iff.mp (caught pair seeded e member finalized)
      obtain ⟨price, held⟩ := grounded.priced known
      obtain ⟨r', known', below, recorded⟩ := cached held
      rw [known, Option.some.injEq] at known'
      rw [← known'] at below recorded
      have same : r = e.1.1 :=
        le_antisymm (most _ (OrderedMap.mem_of_get recorded) ⟨rfl, rfl, below⟩) far
      have row := OrderedMap.get_of_mem member
      rw [show e.1 = (r, pair) from Prod.ext same.symm finalized.2.1, recorded, Option.some.injEq] at row
      rw [held, Option.bind_some, ← row]

end Aligned

section Reads
variable {canonicalPairs : List String} {s : Engine} {rows : Rows} {N : ℤ}

/- What a read gives is a row of its pair, below its bound. -/
theorem seed_row_mem {belowRound : Option ℤ} {pair : String} {ref : Reference}
    (found : seedRow rows belowRound pair = some ref) :
    Recorded rows ref ∧ ∀ N, belowRound = some N → ref.round < N := by
  obtain ⟨e, member, usable⟩ :=
    List.mem_filterMap.mp (List.argmax_mem (Option.mem_def.mpr found))
  simp only [ClampReference.usable] at usable
  split at usable
  · rename_i fits
    obtain ⟨price, priced, rfl⟩ := Option.map_eq_some_iff.mp usable
    obtain ⟨finalized, own, below⟩ := fits
    constructor
    · apply OrderedMap.get_of_mem
      rw [show ((e.1.1, pair), PriceRow.mk .finalized (some price)) = e from
        Prod.ext (Prod.ext rfl own.symm) (by cases h : e.2; simp_all)]
      exact member
    · rintro N rfl
      simpa using below
  · exact absurd usable (by simp)

/- A row some answer brings. -/
def answers (s : Engine) : List Reference := s.reads.flatMap fun r => r.answer.getD []

/-- References are stored rows, and so are the answers of reads, each below its read's bound. -/
structure Sound (s : Engine) : Prop where
  cached : Grounded s.rows s.cache
  answered : ∀ read ∈ s.reads, ∀ found, read.answer = some found → ∀ ref ∈ found,
    Recorded s.rows ref ∧ ∀ N, read.belowRound = some N → ref.round < N
  bounded : ∀ read ∈ s.reads, ∀ N, read.reader = .refresh N → read.belowRound = some N

def references (c : Cache) : List Reference :=
  c.prices.entries.filterMap fun e => (c.rounds.get e.1).map fun r => ⟨e.1, r, e.2⟩

theorem references_mem {c : Cache} {pair price : String} {r : ℤ} (held : c.prices.get pair = some price)
    (known : c.rounds.get pair = some r) : ⟨pair, r, price⟩ ∈ references c := by
  refine List.mem_filterMap.mpr ⟨(pair, price), OrderedMap.mem_of_get held, ?_⟩
  rw [known]
  rfl

/- Nothing cached is late for N, and no seeded pair has a finalized row below N that is newer
   than its reference and than what the read brings for it. -/
def CaughtUp (canonicalPairs : List String) (N : ℤ) (s : Engine) (found : List Reference) : Prop :=
  dropped N s.cache = false ∧
    ∀ pair ∈ lastFinalizedSeedPairs canonicalPairs, ∀ e ∈ s.rows.entries, FinalizedBelow pair N e →
      Reaches s.cache pair e.1.1 ∨
        ∃ ref ∈ found, Taken s.clock ref ∧ ref.pair = pair ∧ e.1.1 ≤ ref.round

instance (canonicalPairs : List String) (N : ℤ) (s : Engine) (found : List Reference) :
    Decidable (CaughtUp canonicalPairs N s found) := inferInstanceAs (Decidable (_ ∧ _))

/-- The condition on the state before each step. -/
def Admits (canonicalPairs : List String) (s : Engine) : Event → Prop
  | .database rows => ∀ ref ∈ references s.cache ++ answers s, Recorded rows ref
  | .ingested pair round row =>
    row.status = .finalized → ∀ price ∈ row.price, ∃ r ∈ round, Recorded s.rows ⟨pair, r, price⟩
  | .stored prices round => ∀ p ∈ prices, ∃ r ∈ round, Recorded s.rows ⟨p.1, r, p.2⟩
  | .refresh N => returns s (.refresh N) = some N → CaughtUp canonicalPairs N s []
  | .resume i => ∀ back ∈ refreshing s i, CaughtUp canonicalPairs back.1 s back.2
  | _ => True

instance (canonicalPairs : List String) (s : Engine) (e : Event) : Decidable (Admits canonicalPairs s e) := by
  cases e <;> unfold Admits <;> infer_instance

end Reads

section Steps
variable {canonicalPairs : List String} {s : Engine} {N : ℤ} {i : ℕ}

theorem grounded_noted {clock : Option ℤ} {rows : Rows} {c : Cache} {pair : String} {price : Option String}
    {round : Option ℤ} (grounded : Grounded rows c)
    (recorded : ∀ text ∈ price, ∃ r ∈ round, Recorded rows ⟨pair, r, text⟩) :
    Grounded rows (noteFinalizedPrice clock c pair price round) := by
  cases price with
  | none => exact grounded
  | some text =>
    obtain ⟨r, stamped, stored⟩ := recorded text rfl
    rw [Option.mem_def.mp stamped]
    exact grounded_note grounded stored

theorem sound_database {rows : Rows} (sound : Sound s)
    (keeps : ∀ ref ∈ references s.cache ++ answers s, Recorded rows ref) :
    Sound { s with rows := rows } where
  cached :=
    { stamped := by
        intro pair price held
        obtain ⟨r, known, -⟩ := sound.cached.stamped held
        exact ⟨r, known, keeps _ (List.mem_append_left _ (references_mem held known))⟩
      priced := sound.cached.priced }
  answered := by
    intro read member found given ref brought
    have answer : ref ∈ answers s :=
      List.mem_flatMap.mpr ⟨read, member, by rw [given]; exact brought⟩
    exact ⟨keeps ref (List.mem_append_right _ answer), (sound.answered read member found given ref brought).2⟩
  bounded := sound.bounded

theorem sound_cache {c : Cache} (sound : Sound s) (grounded : Grounded s.rows c) :
    Sound { s with cache := c } := ⟨grounded, sound.answered, sound.bounded⟩

theorem sound_stored {prices : List (String × String)} {round : Option ℤ} (sound : Sound s)
    (recorded : ∀ p ∈ prices, ∃ r ∈ round, Recorded s.rows ⟨p.1, r, p.2⟩) :
    Grounded s.rows (updateLastFinalizedPrices s.clock s.cache prices round) := by
  have folded (c : Cache) (grounded : Grounded s.rows c) :
      Grounded s.rows (updateLastFinalizedPrices s.clock c prices round) := by
    induction prices generalizing c with
    | nil => exact grounded
    | cons p rest ih =>
      rw [List.forall_mem_cons] at recorded
      refine ih recorded.2 _ (grounded_noted grounded ?_)
      intro text same
      rw [← Option.some.inj (Option.mem_def.mp same)]
      exact recorded.1
  exact folded s.cache sound.cached

theorem sound_seed {reader : Reader} {belowRound : Option ℤ} (sound : Sound s)
    (bound : ∀ N, reader = .refresh N → belowRound = some N) : Sound (seed reader belowRound s) where
  cached := sound.cached
  answered := by
    intro read member found given
    rcases List.mem_append.mp member with old | new
    · exact sound.answered read old found given
    · rw [List.mem_singleton.mp new] at given
      exact absurd given (by simp)
  bounded := by
    intro read member
    rcases List.mem_append.mp member with old | new
    · exact sound.bounded read old
    · rw [List.mem_singleton.mp new]
      exact bound

theorem sound_refresh (sound : Sound s) : Sound (refreshLastFinalizedForRound N s) := by
  have kept : Sound { s with refreshRound := some N, cache := discardFrom N s.cache } :=
    ⟨grounded_discard sound.cached, sound.answered, sound.bounded⟩
  unfold refreshLastFinalizedForRound
  split
  · exact sound
  · dsimp only
    split
    · exact kept
    · refine sound_seed kept ?_
      rintro M same
      rw [Reader.refresh.inj same]

theorem sound_answer {given : Read → List Reference} (sound : Sound s)
    (stored : ∀ read, ∀ ref ∈ given read,
      Recorded s.rows ref ∧ ∀ N, read.belowRound = some N → ref.round < N) :
    Sound (answerRead given i s) := by
  unfold answerRead
  split
  · rename_i r here
    split
    · constructor
      · exact sound.cached
      · intro read member found answer
        rcases List.mem_or_eq_of_mem_set member with old | new
        · exact sound.answered read old found answer
        · rw [new] at answer ⊢
          rw [← Option.some.inj answer]
          exact stored r
      · intro read member
        rcases List.mem_or_eq_of_mem_set member with old | new
        · exact sound.bounded read old
        · rw [new]
          exact sound.bounded r (List.mem_of_getElem? here)
    · exact sound
  · exact sound

/- What a resumed read leaves beside its counters. -/
theorem resume_found {reader : Reader} {belowRound : Option ℤ} {found : List Reference}
    (here : s.reads[i]? = some ⟨reader, belowRound, some found⟩) :
    (resumeRead i s).rows = s.rows ∧ (resumeRead i s).reads = s.reads.eraseIdx i ∧
      (resumeRead i s).cache = found.foldl (noteSeeded s.clock) s.cache := by
  simp only [resumeRead, here]
  cases reader with
  | start => exact ⟨rfl, rfl, rfl⟩
  | timer => exact ⟨rfl, rfl, rfl⟩
  | refresh round =>
    dsimp only
    split <;> exact ⟨rfl, rfl, rfl⟩

theorem resume_cases (i : ℕ) (s : Engine) :
    resumeRead i s = s ∨ ∃ reader belowRound found, s.reads[i]? = some ⟨reader, belowRound, some found⟩ := by
  unfold resumeRead
  split
  · rename_i reader belowRound found here
    exact Or.inr ⟨reader, belowRound, found, here⟩
  · exact Or.inl rfl

theorem sound_resume (sound : Sound s) : Sound (resumeRead i s) := by
  rcases resume_cases i s with same | ⟨reader, belowRound, found, here⟩
  · rw [same]
    exact sound
  · have member := List.mem_of_getElem? here
    obtain ⟨rows, reads, cache⟩ := resume_found here
    constructor
    · rw [rows, cache]
      exact grounded_fold sound.cached fun ref brought => (sound.answered _ member found rfl ref brought).1
    · rw [rows, reads]
      exact fun other inside => sound.answered other (List.mem_of_mem_eraseIdx inside)
    · rw [reads]
      exact fun other inside => sound.bounded other (List.mem_of_mem_eraseIdx inside)

theorem seed_stored (read : Read) : ∀ ref ∈
    lastFinalizedSeed s.rows (lastFinalizedSeedPairs canonicalPairs) read.belowRound,
      Recorded s.rows ref ∧ ∀ N, read.belowRound = some N → ref.round < N := by
  intro ref member
  obtain ⟨pair, -, found⟩ := List.mem_filterMap.mp member
  exact seed_row_mem found

theorem sound_step (s : Engine) (e : Event) (sound : Sound s) (admits : Admits canonicalPairs s e) :
    Sound (step canonicalPairs s e) := by
  cases e with
  | database rows => exact sound_database sound admits
  | clock current => exact ⟨sound.cached, sound.answered, sound.bounded⟩
  | ingested pair round row =>
    refine sound_cache sound ?_
    unfold noteIngestedPriceRow
    split
    · rename_i finalized
      exact grounded_noted sound.cached (admits finalized)
    · exact sound.cached
  | stored prices round => exact sound_cache sound (sound_stored sound admits)
  | start => exact sound_seed sound (by simp)
  | reseed =>
    simp only [step]
    split
    · exact sound
    · exact sound_seed ⟨sound.cached, sound.answered, sound.bounded⟩ (by simp)
  | refresh round => exact sound_refresh sound
  | answer i => exact sound_answer sound seed_stored
  | fail i => exact sound_answer sound (by simp)
  | resume i => exact sound_resume sound

theorem sound_booted (rows : Rows) (clock : Option ℤ) : Sound (booted rows clock) :=
  ⟨grounded_empty, nofun, nofun⟩

/-- A refresh that returns where the state is caught up leaves the cache aligned. -/
theorem aligned_caught {found : List Reference} (sound : Sound s) (caught : CaughtUp canonicalPairs N s found)
    (stored : ∀ ref ∈ found, Recorded s.rows ref ∧ ref.round < N) :
    Aligned canonicalPairs N s.rows (found.foldl (noteSeeded s.clock) s.cache) := by
  refine aligned_of (grounded_fold sound.cached fun ref member => (stored ref member).1) ?_ ?_
  · intro pair held known
    rcases rounds_fold known with before | ⟨ref, member, same⟩
    · exact dropped_iff.mp caught.1 pair held before
    · rw [same]
      exact (stored ref member).2
  · intro pair seeded e member finalized
    rcases caught.2 pair seeded e member finalized with before | ⟨ref, brought, taken, own, far⟩
    · exact reaches_fold before
    · obtain ⟨held, known, newer⟩ := reaches_iff.mp (reaches_folded brought taken)
      rw [own] at known
      exact reaches_iff.mpr ⟨held, known, far.trans newer⟩

theorem discard_nothing {c : Cache} (none : dropped N c = false) : discardFrom N c = c := by
  have early (pair : String) : late N c pair = false := by
    unfold late
    cases known : c.rounds.get pair with
    | none => rfl
    | some held => simpa using dropped_iff.mp none pair held known
  simp [discardFrom, OrderedMap.filter, early]

theorem aligned_step {e : Event} (sound : Sound s) (admits : Admits canonicalPairs s e)
    (returned : returns s e = some N) :
    Aligned canonicalPairs N (step canonicalPairs s e).rows (step canonicalPairs s e).cache := by
  cases e with
  | refresh round =>
    simp only [returns] at returned
    split at returned
    · rename_i early
      have caught := admits (by rw [returns, if_pos early])
      rw [Option.some.inj returned] at early caught
      have aligned := aligned_caught sound caught (by simp)
      rw [Option.some.inj returned]
      simp only [step, refreshLastFinalizedForRound]
      split
      · exact aligned
      · rename_i fresh
        rw [if_pos (early.resolve_left fresh)]
        dsimp only
        rw [discard_nothing caught.1]
        exact aligned
    · exact absurd returned (by simp)
  | resume i =>
    obtain ⟨⟨round, found⟩, back, same⟩ := Option.map_eq_some_iff.mp returned
    have caught := admits _ back
    unfold refreshing at back
    split at back
    · rename_i round' belowRound found' here
      rw [Option.some.injEq, Prod.mk.injEq] at back
      rw [back.1, back.2] at here
      have member := List.mem_of_getElem? here
      have aligned := aligned_caught sound caught (fun ref brought => by
        obtain ⟨stored, below⟩ := sound.answered _ member found rfl ref brought
        exact ⟨stored, below round (sound.bounded _ member round rfl)⟩)
      obtain ⟨rows, -, cache⟩ := resume_found here
      simp only [step]
      rw [← same, rows, cache]
      exact aligned
    · exact absurd back (by simp)
  | _ => exact absurd returned (by simp [returns])

end Steps

section Runs
variable {canonicalPairs : List String} {rows : Rows} {clock : Option ℤ} {es : List Event} {e : Event} {N : ℤ}

theorem sound_run (admitted : Admitted (step canonicalPairs) (Admits canonicalPairs) (booted rows clock) es) :
    Sound (run canonicalPairs (booted rows clock) es) :=
  run_invariant Sound sound_step (sound_booted rows clock) admitted

def pricedRows (prices : List (ℤ × String)) : Rows :=
  prices.foldl (fun rows p => rows.set (p.1, "BTC/USD") ⟨.finalized, some p.2⟩) .empty

end Runs
end XChainHub.Oracle.ClampReference
