import XChainHub.Library.ScriptValue

/-!
The batch sequence that an archive round draws: noteConsumedBatchSeq of archive/build.js
and getNextBatchSeq of archive/rows.js. What the federation spent is learned as one
running maximum, and whether it is plausible is judged at the draw.
-/
namespace XChainHub.Anchor.Publisher.ArchiveSeq
open ScriptValue NumberText

section Draw

/- resolveArchiveNextSeqOverride: refused is the error thrown off regtest or over a bad value. -/
inductive Override where
  | unset
  | pinned (seq : ℕ)
  | refused
  deriving DecidableEq

structure Settings where
  js : Builtins
  override : Override
  archiveSeqFloorMaxJump : ℕ

/- nextSeq is getNextAnchorBatchSeq over the hub's own rows. -/
structure Hub where
  observedConsumedBatchSeq : ℤ
  nextSeq : ℕ
  deriving DecidableEq

/- A whole number of zero or more; a field that was not set is no sequence. -/
def consumedSeq (js : Builtins) (seq : Value) : Option ℕ :=
  if seq.isNullish || seq.textOf = some "" then none else (Value.number (seq.asNumber js)).safeNatural

variable (cfg : Settings)

def noteConsumedBatchSeq (h : Hub) (seq : Value) : Hub :=
  match consumedSeq cfg.js seq with
  | none => h
  | some s => if s ≤ h.observedConsumedBatchSeq then h else { h with observedConsumedBatchSeq := s }

/- Where the draw starts: the hub's own rows, raised to the floor of its own address. -/
def localSeq (h : Hub) (leaderMin : Value) : ℤ :=
  match leaderMin.safeNatural with
  | some m => if h.nextSeq < m then m else h.nextSeq
  | none => h.nextSeq

def getNextBatchSeq (h : Hub) (leaderMin : Value) : Option ℤ :=
  match cfg.override with
  | .refused => none
  | .pinned seq => some seq
  | .unset =>
    let start := localSeq h leaderMin
    let floor := h.observedConsumedBatchSeq + 1
    if floor ≤ start then some start
    else if cfg.archiveSeqFloorMaxJump < floor - start then some start
    else some floor

end Draw

section Runs

/- Evidence of a spent sequence arrives, or the own rows take later sequences. -/
inductive Event where
  | note (seq : Value)
  | stamp (more : ℕ)

variable (cfg : Settings)

def step (h : Hub) : Event → Hub
  | .note seq => noteConsumedBatchSeq cfg h seq
  | .stamp more => { h with nextSeq := h.nextSeq + more }

def run (h : Hub) : List Event → Hub
  | [] => h
  | e :: es => run (step cfg h e) es

def booted (nextSeq : ℕ) : Hub := ⟨-1, nextSeq⟩

def Event.seq (js : Builtins) : Event → Option ℕ
  | .note seq => consumedSeq js seq
  | .stamp _ => none

/- The sequences that the evidence so far names. -/
def noted (js : Builtins) (es : List Event) : List ℕ := es.filterMap (Event.seq js)

/- A sequence that evidence may still raise the draw above: at most L + maxJump - 1. -/
def Plausible (h : Hub) (s : ℕ) : Prop := s < h.nextSeq + cfg.archiveSeqFloorMaxJump

/- A pin stands above the plausible evidence. Without one, either nothing was noted past
   the reach of the draw, or all that is plausible lies below where the draw starts. -/
def Unmasked (h : Hub) (leaderMin : Value) (seqs : List ℕ) : Prop :=
  match cfg.override with
  | .refused => True
  | .pinned seq => ∀ s ∈ seqs, Plausible cfg h s → s < seq
  | .unset =>
    (∀ s ∈ seqs, (s : ℤ) < localSeq h leaderMin + cfg.archiveSeqFloorMaxJump) ∨
      ∀ s ∈ seqs, Plausible cfg h s → (s : ℤ) < localSeq h leaderMin

variable {cfg}

theorem note_below_iff (h : Hub) (seq : Value) (bound : ℤ) :
    (noteConsumedBatchSeq cfg h seq).observedConsumedBatchSeq < bound ↔
      h.observedConsumedBatchSeq < bound ∧ ∀ s ∈ consumedSeq cfg.js seq, (s : ℤ) < bound := by
  rw [noteConsumedBatchSeq]
  cases consumedSeq cfg.js seq with
  | none => simp
  | some s =>
    dsimp only
    split
    · rename_i known
      constructor
      · exact fun below => ⟨below, by rintro _ ⟨⟩; omega⟩
      · exact And.left
    · rename_i higher
      constructor
      · intro below
        dsimp only at below
        exact ⟨by omega, by rintro _ ⟨⟩; exact below⟩
      · exact fun both => both.2 s rfl

/- The running maximum of a history, by the bounds it stays below. -/
theorem run_below_iff (h : Hub) (es : List Event) (bound : ℤ) :
    (run cfg h es).observedConsumedBatchSeq < bound ↔
      h.observedConsumedBatchSeq < bound ∧ ∀ s ∈ noted cfg.js es, (s : ℤ) < bound := by
  induction es generalizing h with
  | nil => simp [run, noted]
  | cons e es ih =>
    rw [run, ih]
    cases e with
    | note seq =>
      have split : noted cfg.js (.note seq :: es) = (consumedSeq cfg.js seq).toList ++ noted cfg.js es := by
        cases found : consumedSeq cfg.js seq <;> simp [noted, Event.seq, found]
      rw [step, note_below_iff, and_assoc, split]
      simp [or_imp, forall_and]
    | stamp more => simp [step, noted, Event.seq]

theorem booted_below_iff (nextSeq : ℕ) (es : List Event) {bound : ℤ} (nonneg : 0 ≤ bound) :
    (run cfg (booted nextSeq) es).observedConsumedBatchSeq < bound ↔
      ∀ s ∈ noted cfg.js es, (s : ℤ) < bound := by
  have start : (booted nextSeq).observedConsumedBatchSeq < bound := by
    change (-1 : ℤ) < bound
    omega
  rw [run_below_iff, and_iff_right start]

theorem nextSeq_le_localSeq (h : Hub) (leaderMin : Value) : (h.nextSeq : ℤ) ≤ localSeq h leaderMin := by
  rw [localSeq]
  split
  · split <;> omega
  · exact le_rfl

/-- A draw passes every plausible sequence that the hub was told of exactly where no noted
    sequence out of the draw's reach hides one that the own rows have not passed. -/
theorem drawn_above_noted_iff (cfg : Settings) (nextSeq : ℕ) (es : List Event) (leaderMin : Value) :
    (∀ drawn, getNextBatchSeq cfg (run cfg (booted nextSeq) es) leaderMin = some drawn →
      ∀ s ∈ noted cfg.js es, Plausible cfg (run cfg (booted nextSeq) es) s → (s : ℤ) < drawn) ↔
    Unmasked cfg (run cfg (booted nextSeq) es) leaderMin (noted cfg.js es) := by
  have below (bound : ℤ) (nonneg : 0 ≤ bound) :
      (run cfg (booted nextSeq) es).observedConsumedBatchSeq < bound ↔
        ∀ s ∈ noted cfg.js es, (s : ℤ) < bound := booted_below_iff nextSeq es nonneg
  generalize run cfg (booted nextSeq) es = h at below ⊢
  have rows := nextSeq_le_localSeq h leaderMin
  cases mode : cfg.override with
  | refused => simp [getNextBatchSeq, Unmasked, mode]
  | pinned seq => simp [getNextBatchSeq, Unmasked, mode]
  | unset =>
    simp only [getNextBatchSeq, Unmasked, mode]
    by_cases passed : h.observedConsumedBatchSeq + 1 ≤ localSeq h leaderMin
    · have under := (below (localSeq h leaderMin) (by omega)).mp (by omega)
      rw [if_pos passed]
      refine iff_of_true ?_ (Or.inr fun s member _ => under s member)
      rintro drawn ⟨⟩ s member -
      exact under s member
    rw [if_neg passed]
    by_cases far : cfg.archiveSeqFloorMaxJump < h.observedConsumedBatchSeq + 1 - localSeq h leaderMin
    · have beyond : ¬ ∀ s ∈ noted cfg.js es, (s : ℤ) < localSeq h leaderMin + cfg.archiveSeqFloorMaxJump := by
        rw [← below _ (by omega)]
        omega
      rw [if_pos far, or_iff_right beyond]
      constructor
      · exact fun all => all _ rfl
      · rintro all drawn ⟨⟩
        exact all
    · have under := (below (h.observedConsumedBatchSeq + 1) (by omega)).mp (by omega)
      rw [if_neg far]
      refine iff_of_true ?_ (Or.inl fun s member => ?_)
      · rintro drawn ⟨⟩ s member -
        exact under s member
      · have near := under s member
        omega

section Fixtures

def hub : Settings := ⟨decimalBuiltins, .unset, 1024⟩

/- One implausible announcement, then a genuine one. -/
def announced : List Event := [.note (.number (.ofNat 999999)), .note (.number (.ofNat 5))]

/-- The genuine sequence is drawn again. -/
theorem masked_sequence_reused : ¬ ∀ (cfg : Settings) (nextSeq : ℕ) (es : List Event) (leaderMin : Value)
    (drawn : ℤ), getNextBatchSeq cfg (run cfg (booted nextSeq) es) leaderMin = some drawn →
      ∀ s ∈ noted cfg.js es, Plausible cfg (run cfg (booted nextSeq) es) s → (s : ℤ) < drawn := by
  intro always
  exact absurd (always hub 5 announced .undefined 5 (by decide +kernel) 5 (by decide +kernel)
    (by unfold Plausible; decide +kernel)) (by decide)

end Fixtures
end Runs
end XChainHub.Anchor.Publisher.ArchiveSeq
