import XChainHub.Library.DelimitedText
import XChainHub.Library.GuardedRuns
import XChainHub.Anchor.ReorgHandler.Consensus

/-!
A rollback rests on independent observations. Every record a hub opens was probed
on its own indexer, every counted vote is a broadcast of its member, and a digest
names the observation; so behind a commit quorum stands an honest hub that saw a
PREPARE quorum, and behind every honest PREPARE of it a confirmed probe.
-/
namespace XChainHub.Anchor.ReorgHandler
open ScriptValue ChainSignerAdmission JsonText GuardedRuns BftQuorum

section Digests
variable {cfg : Params}

structure PlainFields (f : Fields) : Prop where
  chain : Plain f.chain
  reorgHeight : Plain f.reorgHeight
  timestamp : Plain f.timestamp

theorem number_of_nat_finite (n : ℕ) : Finite (NumberText.Number.ofNat n) = true := by
  have digits : (Nat.toDigits 10 n).all Char.isDigit = true :=
    List.all_eq_true.mpr (NumberText.to_digits_plain n)
  unfold NumberText.Number.ofNat NumberText.normalized
  rw [dif_pos digits]
  split <;> rfl

theorem payload_plain {f : Fields} (plain : PlainFields f) (height : Option ℕ) :
    Plain (digestPayload cfg f height) := by
  obtain ⟨chain, reorgHeight, timestamp⟩ := plain
  have legacy : Enumerated ["reorgId", "chain", "reorgHeight", "timestamp", "oldHash", "newHash"] :=
    by decide
  have second : Enumerated ["reorgId", "chain", "reorgHeight", "timestamp", "newHash",
      "btcBlockHeight"] := by decide
  have first : Enumerated ["reorgId", "chain", "reorgHeight", "timestamp", "oldHash", "newHash",
      "btcBlockHeight"] := by decide
  unfold digestPayload
  split
  · exact ⟨legacy, trivial, chain, reorgHeight, timestamp, trivial, trivial, trivial⟩
  · rename_i height
    split
    · exact ⟨second, trivial, chain, reorgHeight, timestamp, trivial, number_of_nat_finite height,
        trivial⟩
    · exact ⟨first, trivial, chain, reorgHeight, timestamp, trivial, trivial,
        number_of_nat_finite height, trivial⟩

/- What a digest says about the observation it was taken of. -/
structure SameObservation (f g : Fields) : Prop where
  chain : f.chain = g.chain
  reorgHeight : f.reorgHeight = g.reorgHeight
  newHash : f.newHash = g.newHash

theorem payload_observation {other : Params} {f g : Fields} {height stamp : Option ℕ}
    (same : digestPayload cfg f height = digestPayload other g stamp) :
    SameObservation f g ∧ height = stamp := by
  unfold digestPayload at same
  split at same
  · split at same
    · simp only [Value.object.injEq, List.cons.injEq, Prod.mk.injEq, Value.text.injEq, true_and,
        and_true] at same
      obtain ⟨-, chain, reorgHeight, -, -, newHash⟩ := same
      exact ⟨⟨chain, reorgHeight, newHash⟩, rfl⟩
    · split at same <;> simp at same
  · split at same
    · split at same
      · simp at same
      · split at same
        · simp only [Value.object.injEq, List.cons.injEq, Prod.mk.injEq, Value.text.injEq,
            Value.number.injEq, true_and, and_true] at same
          obtain ⟨-, chain, reorgHeight, -, newHash, stamped⟩ := same
          exact ⟨⟨chain, reorgHeight, newHash⟩, by rw [NumberText.of_nat_inj stamped]⟩
        · simp at same
    · split at same
      · simp at same
      · split at same
        · simp at same
        · simp only [Value.object.injEq, List.cons.injEq, Prod.mk.injEq, Value.text.injEq,
            Value.number.injEq, true_and, and_true] at same
          obtain ⟨-, chain, reorgHeight, -, -, newHash, stamped⟩ := same
          exact ⟨⟨chain, reorgHeight, newHash⟩, by rw [NumberText.of_nat_inj stamped]⟩

/-- Where the hash has no collisions, two hubs agree on a digest only over one observation
    and one stamped height. -/
theorem digest_observation {other : Params} {f g : Fields} {height stamp : Option ℕ}
    (plain : PlainFields f) (more : PlainFields g) (hash : cfg.sha256 = other.sha256)
    (collisionFree : Function.Injective cfg.sha256)
    (same : reorgRoundDigest cfg f height = reorgRoundDigest other g stamp) :
    SameObservation f g ∧ height = stamp := by
  unfold reorgRoundDigest at same
  rw [← hash] at same
  exact payload_observation
    (stringify_inj (payload_plain plain height) (payload_plain more stamp) (collisionFree same))

end Digests

section ProbeKeys

theorem to_digits_head (n : ℕ) : ∃ c rest, Nat.toDigits 10 n = c :: rest ∧ c.isDigit = true := by
  cases shape : Nat.toDigits 10 n with
  | nil => exact absurd shape Nat.toDigits_ne_nil
  | cons c rest =>
    exact ⟨c, rest, rfl, NumberText.to_digits_plain n c (by rw [shape]; exact List.mem_cons_self)⟩

theorem height_chars_plain (height : Option ℤ) : ':' ∉ heightChars height := by
  cases height with
  | none => decide
  | some n =>
    unfold heightChars NumberText.signText
    rw [List.mem_append, not_or]
    constructor
    · split <;> simp
    · exact NumberText.digit_free rfl (NumberText.to_digits_plain n.natAbs)

/- The height that a text was written for. -/
def readHeightChars : List Char → Option ℤ
  | '-' :: cs => some (-(DecimalText.digitsValue cs : ℤ))
  | 'N' :: _ => none
  | cs => some (DecimalText.digitsValue cs : ℤ)

theorem read_height_chars (height : Option ℤ) : readHeightChars (heightChars height) = height := by
  cases height with
  | none => rfl
  | some n =>
    have value := DecimalText.digits_value_to_digits n.natAbs
    unfold heightChars NumberText.signText
    by_cases below : n < 0
    · simp only [below, decide_true, if_true, List.singleton_append, readHeightChars, value]
      congr 1
      omega
    · simp only [below, decide_false, Bool.false_eq_true, if_false, List.nil_append]
      obtain ⟨c, rest, shape, digit⟩ := to_digits_head n.natAbs
      rw [shape] at value ⊢
      unfold readHeightChars
      split
      · rename_i heads
        rw [(List.cons.inj heads).1] at digit
        exact absurd digit (by decide)
      · rename_i heads
        rw [(List.cons.inj heads).1] at digit
        exact absurd digit (by decide)
      · rw [value]
        congr 1
        omega

theorem hex64_length {s : String} (hex : isHex64 s = true) : s.toList.length = 64 := by
  rw [isHex64, Bool.and_eq_true, decide_eq_true_iff] at hex
  exact hex.1

/-- Probes that are shared are probes of one observation. -/
theorem probe_key_inj {chain other : String} {height stamp : Option ℤ}
    {oldHash newHash before after : String} (old : isHex64 oldHash = true)
    (new : isHex64 newHash = true) (older : isHex64 before = true) (newer : isHex64 after = true)
    (same : probeKey chain height oldHash newHash = probeKey other stamp before after) :
    chain = other ∧ height = stamp ∧ oldHash = before ∧ newHash = after := by
  have lists := congrArg String.toList same
  simp only [probeKey, String.toList_append, String.toList_ofList] at lists
  obtain ⟨front, last⟩ := List.append_inj' lists (by rw [hex64_length new, hex64_length newer])
  obtain ⟨front, -⟩ := List.append_inj' front rfl
  obtain ⟨front, first⟩ := List.append_inj' front (by rw [hex64_length old, hex64_length older])
  obtain ⟨front, -⟩ := List.append_inj' front rfl
  have backwards := congrArg List.reverse front
  simp only [List.reverse_append, List.append_assoc] at backwards
  have mark : ":".toList.reverse = [':'] := rfl
  rw [mark, List.singleton_append, List.singleton_append] at backwards
  obtain ⟨heights, chains⟩ := DelimitedText.plain_field_inj
    (by rw [List.mem_reverse]; exact height_chars_plain height)
    (by rw [List.mem_reverse]; exact height_chars_plain stamp) backwards
  refine ⟨String.toList_inj.mp (List.reverse_inj.mp chains), ?_, String.toList_inj.mp first,
    String.toList_inj.mp last⟩
  rw [← read_height_chars height, List.reverse_inj.mp heights, read_height_chars]

end ProbeKeys

section Soundness

def broadcasts (h : Hub) : List Message :=
  h.trace.filterMap (fun o => match o with
    | .broadcast m => some m
    | _ => none)

/- The hubs that keep the protocol, their keys, the snapshot of each stamped height and
   the hash they share. -/
structure Federation (ι : Type) where
  cfg : ι → Params
  key : ι → String
  members : ℕ → OrderedSet String
  hash : String → String

structure Federation.Honest {ι : Type} (f : Federation ι) : Prop where
  identity : ∀ i, readPubkey (f.cfg i) (f.cfg i).identityPubkey = some (f.key i)
  distinct : Function.Injective f.key
  hashed : ∀ i, (f.cfg i).sha256 = f.hash
  collisionFree : Function.Injective f.hash

abbrev World (ι : Type) := ι → Hub

variable {ι : Type} (f : Federation ι) (w : World ι) (i : ι) (base : List Output)

def Says (h : Hub) (kind : Kind) (digest : String) : Prop :=
  ∃ m ∈ broadcasts h, m.kind = kind ∧ m.digest = .text digest

/- The key's vote is a broadcast of the hub that holds it, or nobody's here. -/
def Federation.Vouched (h : Hub) (kind : Kind) (k digest : String) : Prop :=
  (∀ j, f.key j = k → Says (w j) kind digest) ∨ (k = f.key i ∧ Says h kind digest)

def Federation.EnvelopeSound (e : Envelope) : Prop :=
  ∀ pk, provenPubkey (f.cfg i).js.toLowerCase e.sigPubkey = some pk →
    isHex64 pk = true ∧ ∀ j, f.key j = pk → e.data ∈ broadcasts (w j)

/- A counted envelope carries a proven key. -/
def Federation.KnownSound (e : Envelope) (known : Known) : Prop :=
  known.pubkeyKnown = true → ∃ pk, provenPubkey (f.cfg i).js.toLowerCase e.sigPubkey = some pk

def Observed (h : Hub) (g : Fields) : Prop :=
  .probed g.chain.asText (parseInt g.reorgHeight.asText) g.oldHash g.newHash ∈ h.trace

def ProbeFor (h : Hub) (pid : ℕ) (g : Fields) : Prop :=
  ∃ p, h.probes[pid]? = some p ∧ p.chain = g.chain.asText ∧
    p.height = parseInt g.reorgHeight.asText ∧ p.oldHash = g.oldHash ∧ p.newHash = g.newHash

/- Fields as the handlers keep them past their checks. -/
structure Checked (g : Fields) : Prop where
  plain : PlainFields g
  oldHash : isHex64 g.oldHash = true
  newHash : isHex64 g.newHash = true

def Federation.ContextSound (context : Context) : Prop :=
  ∀ height members quorum self, context = .active height members quorum self →
    members = f.members height ∧ quorum = bftQuorumOrSingle (f.members height).size 0 ∧
      self ∈ members ∧ self = f.key i

structure Federation.VoteTask (e : Envelope) (known : Known) : Prop where
  sound : f.EnvelopeSound w i e
  known : f.KnownSound i e known
  kind : e.data.kind = .prepare

def Federation.TaskSound (h : Hub) : Task → Prop
  | .alertProbe _ g _ pid => Checked g ∧ ProbeFor h pid g
  | .alertLock _ g _ _ => Checked g ∧ Observed h g
  | .prepareLock e g known => f.VoteTask w i e known ∧ Checked g
  | .prepareProbe e g known context pid =>
    f.VoteTask w i e known ∧ Checked g ∧ ProbeFor h pid g ∧ f.ContextSound i context
  | .prepareTally e _ known => f.VoteTask w i e known
  | .reportProbe g _ pid => Checked g ∧ ProbeFor h pid g
  | .reportLock g _ _ => Checked g ∧ Observed h g
  | .rollbackWrites _ _ => True
  | .disputedRows _ _ => True

def Round.fields (p : Round) : Fields :=
  ⟨p.reorgId, p.chain, p.reorgHeight, p.timestamp, p.oldHash, p.newHash⟩

structure Federation.RoundSound (h : Hub) (p : Round) : Prop where
  plain : PlainFields p.fields
  digest : p.digest = reorgRoundDigest (f.cfg i) p.fields p.btcBlockHeight
  observed : Observed h p.fields
  legacy : p.snapshotActive = false → p.btcBlockHeight = none
  stamped : p.snapshotActive = true → ∃ height, p.btcBlockHeight = some height ∧
    p.memberPubkeys = f.members height ∧ p.quorum = bftQuorumOrSingle (f.members height).size 0
  prepares : ∀ k ∈ p.preparePubkeys,
    k ∈ p.memberPubkeys ∧ f.Vouched w i h .prepare k p.digest
  commits : ∀ k ∈ p.commitPubkeys, k ∈ p.memberPubkeys ∧ f.Vouched w i h .commit k p.digest

/- An honest PREPARE names an observation that was probed before it went out. -/
def PrepareBacked (cfg : Params) (trace : List Output) : Prop :=
  ∀ front m back, trace = front ++ .broadcast m :: back → m.kind = .prepare →
    ∃ g height, PlainFields g ∧ m.digest = .text (reorgRoundDigest cfg g height) ∧
      .probed g.chain.asText (parseInt g.reorgHeight.asText) g.oldHash g.newHash ∈ front

/- A record that has met its PREPARE quorum. -/
def Prepared (h : Hub) (m : Message) : Prop :=
  ∃ p ∈ h.rounds, m.digest = .text p.digest ∧
    (p.snapshotActive = true → p.quorum ≤ p.preparePubkeys.size)

/- What one hub maintains, relative to the broadcasts of the world; base is the trace
   that a step started from. -/
structure Federation.Sound (h : Hub) : Prop where
  grown : base <+: h.trace
  probes : ∀ p ∈ h.probes, isHex64 p.oldHash = true ∧ isHex64 p.newHash = true ∧
    ∀ t, p.stage = .settled (.confirmed t) →
      .probed p.chain p.height p.oldHash p.newHash ∈ h.trace
  verifying : ∀ key pid, h.verifying.get key = some pid →
    ∃ p, h.probes[pid]? = some p ∧ p.key = key
  tasks : ∀ t, some t ∈ h.tasks → f.TaskSound w i h t
  rounds : ∀ p ∈ h.rounds, f.RoundSound w i h p
  prepared : PrepareBacked (f.cfg i) h.trace
  committed : ∀ m ∈ broadcasts h, m.kind = .commit → Prepared h m
  executed : ∀ p x, .consensusRollback p x ∈ h.trace →
    f.RoundSound w i h p ∧ (p.snapshotActive = true → p.quorum ≤ p.commitPubkeys.size)

variable {f w i base}

section Growth

/- Probes of one observation. -/
def SameProbe (p q : Probe) : Prop :=
  q.chain = p.chain ∧ q.height = p.height ∧ q.oldHash = p.oldHash ∧ q.newHash = p.newHash

/- What a later state keeps of an earlier one. -/
structure Grows (h after : Hub) : Prop where
  trace : h.trace <+: after.trace
  probes : ∀ (pid : ℕ) (p : Probe), h.probes[pid]? = some p →
    ∃ q, after.probes[pid]? = some q ∧ SameProbe p q

theorem broadcasts_mono {h after : Hub} (grown : h.trace <+: after.trace) :
    broadcasts h ⊆ broadcasts after := by
  intro m member
  obtain ⟨o, said, message⟩ := List.mem_filterMap.mp member
  exact List.mem_filterMap.mpr ⟨o, grown.subset said, message⟩

theorem mem_broadcasts {h : Hub} {m : Message} : m ∈ broadcasts h ↔ .broadcast m ∈ h.trace := by
  unfold broadcasts
  rw [List.mem_filterMap]
  constructor
  · rintro ⟨o, member, message⟩
    cases o with
    | broadcast n =>
      rw [Option.some.injEq] at message
      rw [← message]
      exact member
    | _ => exact absurd message (by simp)
  · intro member
    exact ⟨_, member, rfl⟩

theorem says_mono {h after : Hub} (grown : h.trace <+: after.trace) {kind : Kind}
    {digest : String} (said : Says h kind digest) : Says after kind digest := by
  obtain ⟨m, member, same⟩ := said
  exact ⟨m, broadcasts_mono grown member, same⟩

theorem vouched_mono {h after : Hub} (grown : h.trace <+: after.trace) {kind : Kind}
    {k digest : String} (vouched : f.Vouched w i h kind k digest) :
    f.Vouched w i after kind k digest := by
  rcases vouched with theirs | ⟨own, said⟩
  · exact Or.inl theirs
  · exact Or.inr ⟨own, says_mono grown said⟩

theorem observed_mono {h after : Hub} (grown : h.trace <+: after.trace) {g : Fields}
    (observed : Observed h g) : Observed after g := grown.subset observed

theorem probe_for_mono {h after : Hub} (grows : Grows h after) {pid : ℕ} {g : Fields}
    (probing : ProbeFor h pid g) : ProbeFor after pid g := by
  obtain ⟨p, found, chain, height, old, new⟩ := probing
  obtain ⟨q, later, chain', height', old', new'⟩ := grows.probes pid p found
  exact ⟨q, later, chain'.trans chain, height'.trans height, old'.trans old, new'.trans new⟩

theorem task_mono {h after : Hub} (grows : Grows h after) {t : Task}
    (sound : f.TaskSound w i h t) : f.TaskSound w i after t := by
  cases t with
  | alertProbe e g known pid => exact ⟨sound.1, probe_for_mono grows sound.2⟩
  | alertLock e g known t => exact ⟨sound.1, observed_mono grows.trace sound.2⟩
  | prepareLock e g known => exact sound
  | prepareProbe e g known context pid =>
    exact ⟨sound.1, sound.2.1, probe_for_mono grows sound.2.2.1, sound.2.2.2⟩
  | prepareTally e g known => exact sound
  | reportProbe g now pid => exact ⟨sound.1, probe_for_mono grows sound.2⟩
  | reportLock g now t => exact ⟨sound.1, observed_mono grows.trace sound.2⟩
  | rollbackWrites reorgId consensus => trivial
  | disputedRows reorgId consensus => trivial

theorem round_mono {h after : Hub} (grown : h.trace <+: after.trace) {p : Round}
    (sound : f.RoundSound w i h p) : f.RoundSound w i after p :=
  ⟨sound.plain, sound.digest, observed_mono grown sound.observed, sound.legacy, sound.stamped,
    fun k member => ⟨(sound.prepares k member).1, vouched_mono grown (sound.prepares k member).2⟩,
    fun k member => ⟨(sound.commits k member).1, vouched_mono grown (sound.commits k member).2⟩⟩

theorem grows_same {h after : Hub} (trace : after.trace = h.trace)
    (probes : after.probes = h.probes) : Grows h after :=
  ⟨by rw [trace], fun pid p found => ⟨p, by rw [probes]; exact found, rfl, rfl, rfl, rfl⟩⟩

end Growth

section Updates

theorem executed_mono {h after : Hub} (same : after.trace = h.trace)
    (executed : ∀ p x, .consensusRollback p x ∈ h.trace →
      f.RoundSound w i h p ∧ (p.snapshotActive = true → p.quorum ≤ p.commitPubkeys.size)) :
    ∀ p x, .consensusRollback p x ∈ after.trace →
      f.RoundSound w i after p ∧ (p.snapshotActive = true → p.quorum ≤ p.commitPubkeys.size) := by
  intro p x member
  rw [same] at member
  exact ⟨round_mono (by rw [same]) (executed p x member).1, (executed p x member).2⟩

/-- A change of the maps, the clearing of tasks and the addition of sound ones. -/
theorem Federation.Sound.rest {h after : Hub} (sound : f.Sound w i base h)
    (trace : after.trace = h.trace) (probes : after.probes = h.probes)
    (rounds : after.rounds = h.rounds)
    (verifying : ∀ key pid, after.verifying.get key = some pid → h.verifying.get key = some pid)
    (tasks : ∀ t, some t ∈ after.tasks → some t ∈ h.tasks ∨ f.TaskSound w i h t) :
    f.Sound w i base after := by
  have grows := grows_same trace probes
  refine ⟨by rw [trace]; exact sound.grown, by rw [probes, trace]; exact sound.probes, ?_, ?_, ?_,
    by rw [trace]; exact sound.prepared, ?_, executed_mono trace sound.executed⟩
  · intro key pid found
    rw [probes]
    exact sound.verifying key pid (verifying key pid found)
  · intro t member
    rcases tasks t member with old | new
    · exact task_mono grows (sound.tasks t old)
    · exact task_mono grows new
  · intro p member
    rw [rounds] at member
    exact round_mono grows.trace (sound.rounds p member)
  · intro m member kind
    rw [mem_broadcasts, trace, ← mem_broadcasts] at member
    rw [Prepared, rounds]
    exact sound.committed m member kind

theorem Federation.Sound.park {h : Hub} (sound : f.Sound w i base h) {t : Task}
    (task : f.TaskSound w i h t) : f.Sound w i base (h.park t) := by
  refine sound.rest rfl rfl rfl (fun _ _ found => found) ?_
  intro other member
  rw [Hub.park, List.mem_append, List.mem_singleton, Option.some.injEq] at member
  rcases member with old | rfl
  · exact Or.inl old
  · exact Or.inr task

theorem Federation.Sound.take {h : Hub} (sound : f.Sound w i base h) (tid : ℕ) :
    f.Sound w i base (h.takeTask tid) := by
  refine sound.rest rfl rfl rfl (fun _ _ found => found) ?_
  intro t member
  rcases List.mem_or_eq_of_mem_set member with old | new
  · exact Or.inl old
  · exact absurd new (by simp)

theorem Federation.Sound.forget {h : Hub} (sound : f.Sound w i base h) (reorgId : String) :
    f.Sound w i base (h.forget reorgId) :=
  sound.rest rfl rfl rfl (fun _ _ found => found) (fun _ member => Or.inl member)

/-- A record may change as long as it stays sound and keeps its PREPARE votes. -/
theorem Federation.Sound.modify {h : Hub} (sound : f.Sound w i base h) {rid : ℕ} {r : Round}
    (held : h.rounds[rid]? = some r) {g : Round → Round} (kept : f.RoundSound w i h (g r))
    (same : ∀ p, (g p).digest = p.digest ∧ (g p).snapshotActive = p.snapshotActive ∧
      (g p).quorum = p.quorum ∧ p.preparePubkeys.size ≤ (g p).preparePubkeys.size) :
    f.Sound w i base (h.modify rid g) := by
  have grows : Grows h (h.modify rid g) := grows_same rfl rfl
  have moved : ∀ p ∈ h.rounds, p ∈ (h.modify rid g).rounds ∨ g p ∈ (h.modify rid g).rounds := by
    intro p member
    obtain ⟨n, found⟩ := List.mem_iff_getElem?.mp member
    have later : (h.modify rid g).rounds[n]? = some (if rid = n then g p else p) := by
      rw [Hub.modify, List.getElem?_modify, found]
      rfl
    split at later
    · exact Or.inr (List.mem_of_getElem? later)
    · exact Or.inl (List.mem_of_getElem? later)
  refine ⟨sound.grown, sound.probes, sound.verifying,
    fun t member => task_mono grows (sound.tasks t member), ?_, sound.prepared, ?_,
    executed_mono (h := h) rfl sound.executed⟩
  · intro p member
    obtain ⟨n, found⟩ := List.mem_iff_getElem?.mp member
    rw [Hub.modify, List.getElem?_modify] at found
    obtain ⟨q, stored, rfl⟩ := Option.map_eq_some_iff.mp found
    refine round_mono grows.trace ?_
    split
    · rename_i at_rid
      rw [← at_rid, held, Option.some.injEq] at stored
      rw [← stored]
      exact kept
    · exact sound.rounds q (List.mem_of_getElem? stored)
  · intro m member kind
    obtain ⟨p, stored, digest, met⟩ := sound.committed m member kind
    obtain ⟨sameDigest, active, quorum, votes⟩ := same p
    rcases moved p stored with still | changed
    · exact ⟨p, still, digest, met⟩
    · refine ⟨g p, changed, by rw [sameDigest]; exact digest, ?_⟩
      rw [active, quorum]
      intro on
      exact Nat.le_trans (met on) votes

theorem Federation.Sound.openRound {h : Hub} (sound : f.Sound w i base h) {p : Round}
    (opened : f.RoundSound w i h p) : f.Sound w i base (h.openRound p) := by
  have grows : Grows h (h.openRound p) := grows_same rfl rfl
  refine ⟨sound.grown, sound.probes, sound.verifying,
    fun t member => task_mono grows (sound.tasks t member), ?_, sound.prepared, ?_,
    executed_mono (h := h) rfl sound.executed⟩
  · intro q member
    rw [Hub.openRound, List.mem_append, List.mem_singleton] at member
    rcases member with old | rfl
    · exact round_mono grows.trace (sound.rounds q old)
    · exact round_mono grows.trace opened
  · intro m member kind
    obtain ⟨q, stored, digest, met⟩ := sound.committed m member kind
    exact ⟨q, List.mem_append_left _ stored, digest, met⟩

theorem split_last {trace front back : List Output} {o x : Output}
    (split : trace ++ [o] = front ++ x :: back) :
    (∃ rest, trace = front ++ x :: rest) ∨ (trace = front ∧ o = x) := by
  rcases List.eq_nil_or_concat back with rfl | ⟨rest, last, rfl⟩
  · obtain ⟨same, ends⟩ := List.append_inj' split rfl
    exact Or.inr ⟨same, by simpa using ends⟩
  · have regrouped : trace ++ [o] = (front ++ x :: rest) ++ [last] := by
      rw [split]
      simp
    obtain ⟨same, -⟩ := List.append_inj' regrouped rfl
    exact Or.inl ⟨rest, same⟩

/-- An output is added with what the invariant asks of its kind. -/
theorem Federation.Sound.emit {h : Hub} (sound : f.Sound w i base h) {o : Output}
    (prepare : ∀ m, o = .broadcast m → m.kind = .prepare →
      ∃ g height, PlainFields g ∧ m.digest = .text (reorgRoundDigest (f.cfg i) g height) ∧
        Observed h g)
    (commit : ∀ m, o = .broadcast m → m.kind = .commit → Prepared h m)
    (rollback : ∀ p x, o = .consensusRollback p x → f.RoundSound w i h p ∧
      (p.snapshotActive = true → p.quorum ≤ p.commitPubkeys.size)) :
    f.Sound w i base (h.emit o) := by
  have longer : h.trace <+: (h.emit o).trace := List.prefix_append _ _
  have grows : Grows h (h.emit o) :=
    ⟨longer, fun pid p found => ⟨p, found, rfl, rfl, rfl, rfl⟩⟩
  refine ⟨sound.grown.trans longer, ?_, sound.verifying,
    fun t member => task_mono grows (sound.tasks t member),
    fun p member => round_mono longer (sound.rounds p member), ?_, ?_, ?_⟩
  · intro p member
    obtain ⟨old, new, confirmed⟩ := sound.probes p member
    exact ⟨old, new, fun t stage => longer.subset (confirmed t stage)⟩
  · intro front m back split kind
    rcases split_last split with ⟨rest, old⟩ | ⟨same, last⟩
    · exact sound.prepared front m rest old kind
    · obtain ⟨g, height, plain, digest, observed⟩ := prepare m last kind
      exact ⟨g, height, plain, digest, same ▸ observed⟩
  · intro m member kind
    rw [mem_broadcasts, Hub.emit, List.mem_append, List.mem_singleton] at member
    rcases member with old | new
    · exact sound.committed m (mem_broadcasts.mpr old) kind
    · exact commit m new.symm kind
  · intro p x member
    rw [Hub.emit, List.mem_append, List.mem_singleton] at member
    rcases member with old | new
    · exact ⟨round_mono longer (sound.executed p x old).1, (sound.executed p x old).2⟩
    · obtain ⟨round, met⟩ := rollback p x new.symm
      exact ⟨round_mono longer round, met⟩

theorem Federation.Sound.quiet {h : Hub} (sound : f.Sound w i base h) {o : Output}
    (silent : ∀ m, o = .broadcast m → m.kind = .alert)
    (local_only : ∀ p x, o ≠ .consensusRollback p x) : f.Sound w i base (h.emit o) := by
  refine sound.emit ?_ ?_ (fun p x same => absurd same (local_only p x))
  · intro m same kind
    rw [silent m same] at kind
    exact Kind.noConfusion kind
  · intro m same kind
    rw [silent m same] at kind
    exact Kind.noConfusion kind

end Updates

section Probing

theorem confirmed_probe_observed {h : Hub} (sound : f.Sound w i base h) {pid : ℕ} {g : Fields}
    (probing : ProbeFor h pid g) {t : Option ℚ} (confirmed : h.confirmedProbe pid = some t) :
    Observed h g := by
  obtain ⟨p, found, chain, height, old, new⟩ := probing
  unfold Hub.confirmedProbe at confirmed
  rw [found, Option.bind_some] at confirmed
  split at confirmed
  · rename_i time verdict
    unfold Probe.verdict at verdict
    split at verdict
    · rename_i settled stage
      rw [Option.some.injEq] at verdict
      rw [verdict] at stage
      have said := (sound.probes p (List.mem_of_getElem? found)).2.2 time stage
      rw [chain, height, old, new] at said
      exact said
    · exact absurd verdict (by simp)
  · exact absurd confirmed (by simp)

/-- Starting or joining a probe leaves the handler waiting for one of its observation. -/
theorem Federation.Sound.verify {h : Hub} (sound : f.Sound w i base h) {g : Fields}
    (checked : Checked g) :
    f.Sound w i base (verifyReorgAgainstOwnNode (f.cfg i) h g).1 ∧
      ProbeFor (verifyReorgAgainstOwnNode (f.cfg i) h g).1
        (verifyReorgAgainstOwnNode (f.cfg i) h g).2 g ∧
      Grows h (verifyReorgAgainstOwnNode (f.cfg i) h g).1 := by
  simp only [verifyReorgAgainstOwnNode]
  cases shared : h.verifying.get (probeKey g.chain.asText (parseInt g.reorgHeight.asText)
      g.oldHash g.newHash) with
  | some pid =>
    obtain ⟨p, found, key⟩ := sound.verifying _ pid shared
    obtain ⟨old, new, -⟩ := sound.probes p (List.mem_of_getElem? found)
    obtain ⟨chain, height, before, after⟩ :=
      probe_key_inj old new checked.oldHash checked.newHash key
    exact ⟨sound, ⟨p, found, chain, height, before, after⟩, grows_same rfl rfl⟩
  | none =>
    simp only
    generalize started : Probe.mk g.chain.asText (parseInt g.reorgHeight.asText) g.oldHash
      g.newHash (if hasIndexer (f.cfg i) g.chain.asText = true then ProbeStage.tip
        else ProbeStage.settled Verdict.refused) = q
    have fresh : ∀ t, q.stage ≠ .settled (.confirmed t) := by
      intro t
      rw [← started]
      simp only
      split <;> simp
    have grows : Grows h { h with
        probes := h.probes ++ [q]
        verifying := h.verifying.set (probeKey g.chain.asText (parseInt g.reorgHeight.asText)
          g.oldHash g.newHash) h.probes.length } := by
      refine ⟨List.prefix_rfl, fun pid p found => ⟨p, ?_, rfl, rfl, rfl, rfl⟩⟩
      rw [List.getElem?_append_left (List.getElem?_eq_some_iff.mp found).1]
      exact found
    refine ⟨⟨sound.grown, ?_, ?_, fun t member => task_mono grows (sound.tasks t member),
      fun p member => round_mono grows.trace (sound.rounds p member), sound.prepared,
      sound.committed, executed_mono (h := h) rfl sound.executed⟩, ?_, grows⟩
    · intro p member
      rw [List.mem_append, List.mem_singleton] at member
      rcases member with old | rfl
      · exact sound.probes p old
      · rw [← started]
        exact ⟨checked.oldHash, checked.newHash,
          fun t stage => absurd (started ▸ stage) (fresh t)⟩
    · intro key pid found
      by_cases same : key = probeKey g.chain.asText (parseInt g.reorgHeight.asText) g.oldHash
          g.newHash
      · rw [same, OrderedMap.get_set_same, Option.some.injEq] at found
        refine ⟨q, ?_, ?_⟩
        · rw [← found, List.getElem?_append_right (Nat.le_refl _), Nat.sub_self]
          rfl
        · rw [same, ← started]
          rfl
      · rw [OrderedMap.get_set_other same] at found
        obtain ⟨p, stored, keyed⟩ := sound.verifying key pid found
        refine ⟨p, ?_, keyed⟩
        rw [List.getElem?_append_left (List.getElem?_eq_some_iff.mp stored).1]
        exact stored
    · refine ⟨q, ?_, ?_⟩
      · rw [List.getElem?_append_right (Nat.le_refl _), Nat.sub_self]
        rfl
      · rw [← started]
        exact ⟨rfl, rfl, rfl, rfl⟩

theorem Federation.Sound.advance {h : Hub} (sound : f.Sound w i base h) {pid : ℕ} {p : Probe}
    (found : h.probes[pid]? = some p) (stage : ProbeStage) :
    f.Sound w i base (h.advance pid p stage) := by
  have inside := (List.getElem?_eq_some_iff.mp found).1
  have updated : ∀ n, (h.probes.set pid { p with stage })[n]? =
      if pid = n then some { p with stage } else h.probes[n]? := by
    intro n
    rw [List.getElem?_set]
    split <;> rfl
  have kept : ∀ (n : ℕ) (q : Probe), h.probes[n]? = some q →
      ∃ r, (h.probes.set pid { p with stage })[n]? = some r ∧ SameProbe q r := by
    intro n q stored
    rw [updated]
    split
    · rename_i same
      rw [← same, found, Option.some.injEq] at stored
      rw [← stored]
      exact ⟨_, rfl, rfl, rfl, rfl, rfl⟩
    · exact ⟨q, stored, rfl, rfl, rfl, rfl⟩
  have rest : ∀ trace, h.trace <+: trace →
      (∀ t, stage = .settled (.confirmed t) →
        .probed p.chain p.height p.oldHash p.newHash ∈ trace) →
      f.Sound w i base { h with trace } →
      f.Sound w i base { h with probes := h.probes.set pid { p with stage }, trace } := by
    intro trace longer confirmed before
    have grows : Grows { h with trace }
        { h with probes := h.probes.set pid { p with stage }, trace } := ⟨List.prefix_rfl, kept⟩
    refine ⟨before.grown, ?_, ?_, fun t member => task_mono grows (before.tasks t member),
      fun q member => round_mono grows.trace (before.rounds q member), before.prepared,
      before.committed, executed_mono (h := { h with trace }) rfl before.executed⟩
    · intro q member
      rcases List.mem_or_eq_of_mem_set member with old | rfl
      · exact before.probes q old
      · obtain ⟨old, new, -⟩ := sound.probes p (List.mem_of_getElem? found)
        exact ⟨old, new, confirmed⟩
    · intro key n stored
      obtain ⟨q, later, keyed⟩ := sound.verifying key n stored
      obtain ⟨r, there, chain, height, old, new⟩ := kept n q later
      refine ⟨r, there, ?_⟩
      rw [Probe.key, chain, height, old, new]
      exact keyed
  unfold Hub.advance
  split
  · rename_i t
    exact rest _ (List.prefix_append _ _)
      (fun _ _ => List.mem_append_right _ (List.mem_singleton.mpr rfl))
      (sound.quiet (o := .probed p.chain p.height p.oldHash p.newHash) (by simp) (by simp))
  · rename_i other
    exact rest h.trace List.prefix_rfl (fun t same => absurd same (other t)) sound

end Probing

section Voting
variable (env : Env)

theorem pending_stored {h : Hub} {reorgId : String} {rid : ℕ} {p : Round}
    (held : h.pending reorgId = some (rid, p)) : h.rounds[rid]? = some p := by
  obtain ⟨n, -, found⟩ := Option.bind_eq_some_iff.mp held
  obtain ⟨q, stored, same⟩ := Option.map_eq_some_iff.mp found
  rw [Prod.mk.injEq] at same
  rw [← same.1, ← same.2]
  exact stored

theorem vote_count_active {p : Round} (active : p.snapshotActive = true) :
    reorgVoteCount p true = p.commitPubkeys.size ∧
      reorgVoteCount p false = p.preparePubkeys.size := by
  simp [reorgVoteCount, active]

theorem size_add_ge (s : OrderedSet String) (k : String) : s.size ≤ (s.add k).size := by
  simp only [OrderedSet.size, OrderedSet.add]
  split
  · exact Nat.le_refl _
  · simp

theorem Federation.Sound.commitQuorum {h : Hub} (sound : f.Sound w i base h) (reorgId : String) :
    f.Sound w i base (checkCommitQuorum (f.cfg i) env h reorgId) := by
  unfold checkCommitQuorum
  split
  · exact sound
  · rename_i rid p held
    split
    · exact sound
    · split
      · rename_i met
        have stored := pending_stored held
        have round := sound.rounds p (List.mem_of_getElem? stored)
        have closed : f.RoundSound w i h p.finalize :=
          ⟨round.plain, round.digest, round.observed, round.legacy, round.stamped, round.prepares,
            round.commits⟩
        have finalized : f.Sound w i base (h.modify rid Round.finalize) :=
          sound.modify stored closed (fun _ => ⟨rfl, rfl, rfl, Nat.le_refl _⟩)
        have still : Grows h (h.modify rid Round.finalize) := grows_same rfl rfl
        refine (finalized.emit (by simp) (by simp) ?_).park trivial
        intro q x same
        rw [Output.consensusRollback.injEq] at same
        rw [← same.1]
        refine ⟨round_mono still.trace closed, fun active => ?_⟩
        rw [(vote_count_active (p := p) active).1] at met
        exact met
      · exact sound

/-- The hub's own COMMIT goes out before its key is counted. -/
theorem Federation.Sound.prepareQuorum (honest : f.Honest) {h : Hub} (sound : f.Sound w i base h)
    (reorgId : String) : f.Sound w i base (checkPrepareQuorum (f.cfg i) env h reorgId) := by
  unfold checkPrepareQuorum
  split
  · exact sound
  · rename_i rid p held
    have stored := pending_stored held
    have member := List.mem_of_getElem? stored
    have round := sound.rounds p member
    split
    · exact sound
    · split
      · rename_i met
        rw [Bool.and_eq_true, decide_eq_true_iff] at met
        have sent : f.Sound w i base (h.emit (.broadcast (commitMessage p))) := by
          refine sound.emit ?_ ?_ (by simp)
          · intro m same kind
            rw [Output.broadcast.injEq] at same
            rw [← same] at kind
            exact Kind.noConfusion kind
          · intro m same _
            rw [Output.broadcast.injEq] at same
            rw [← same]
            refine ⟨p, member, rfl, fun active => ?_⟩
            rw [← (vote_count_active active).2]
            exact met.1
        have said : Says (h.emit (.broadcast (commitMessage p))) .commit p.digest :=
          ⟨commitMessage p, mem_broadcasts.mpr (List.mem_append_right _ (List.mem_singleton.mpr rfl)),
            rfl, rfl⟩
        have later : f.RoundSound w i (h.emit (.broadcast (commitMessage p))) p :=
          round_mono (List.prefix_append _ _) round
        have marked : ∀ state : Hub, f.RoundSound w i state p →
            f.RoundSound w i state (p.markCommit (f.cfg i)) := fun _ r =>
          ⟨r.plain, r.digest, r.observed, r.legacy, r.stamped, r.prepares, r.commits⟩
        split
        · rename_i active
          split
          · exact sound.modify stored (marked h round) (fun _ => ⟨rfl, rfl, rfl, Nat.le_refl _⟩)
          · rename_i self own
            rw [Option.filter_eq_some_iff, decide_eq_true_iff] at own
            have key : self = f.key i := by
              have named := own.1
              rw [selfReorgPubkey, honest.identity i, Option.some.injEq] at named
              exact named.symm
            refine Federation.Sound.commitQuorum env ?_ reorgId
            have r := marked _ later
            refine sent.modify (h := h.emit (.broadcast (commitMessage p))) stored ?_
              (fun _ => ⟨rfl, rfl, rfl, Nat.le_refl _⟩)
            refine ⟨r.plain, r.digest, r.observed, r.legacy, r.stamped, r.prepares, ?_⟩
            intro k vote
            rcases OrderedSet.mem_add.mp vote with rfl | old
            · exact ⟨own.2, Or.inr ⟨key, said⟩⟩
            · exact r.commits k old
        · refine Federation.Sound.commitQuorum env ?_ reorgId
          exact sent.modify (h := h.emit (.broadcast (commitMessage p))) stored (marked _ later)
            (fun _ => ⟨rfl, rfl, rfl, Nat.le_refl _⟩)
      · exact sound

/-- The key counted for an authentic envelope is the one that signed it. -/
theorem counted_key {e : Envelope} {known : Known} (sound : f.EnvelopeSound w i e)
    (admitted : f.KnownSound i e known) (pubkeyKnown : known.pubkeyKnown = true) {k : String}
    (resolved : resolveReorgSenderPubkey (f.cfg i) env e = some k) :
    ∀ j, f.key j = k → e.data ∈ broadcasts (w j) := by
  obtain ⟨pk, proven⟩ := admitted pubkeyKnown
  obtain ⟨hex, theirs⟩ := sound pk proven
  unfold provenPubkey at proven
  split at proven
  · exact absurd proven (by simp)
  · rename_i sent carried
    split at proven
    · exact absurd proven (by simp)
    · rw [Option.some.injEq] at proven
      have read : readPubkey (f.cfg i) e.sigPubkey = some pk := by
        rw [carried, readPubkey, Option.filter_some, isPubkey, proven, if_pos hex, Option.map_some,
          proven]
      rw [resolveReorgSenderPubkey, read, Option.some.injEq] at resolved
      rw [← resolved]
      exact theirs

theorem text_of_eq {v : Value} {s : String} (text : v.textOf = some s) : v = .text s := by
  cases v with
  | text t =>
    rw [Value.textOf, Option.some.injEq] at text
    rw [text]
  | _ => exact absurd text (by simp [Value.textOf])

theorem envelope_vouches {e : Envelope} {k digest : String} {h : Hub}
    (theirs : ∀ j, f.key j = k → e.data ∈ broadcasts (w j))
    (names : e.data.digest.textOf = some digest) :
    f.Vouched w i h e.data.kind k digest :=
  Or.inl (fun j same => ⟨e.data, theirs j same, rfl, text_of_eq names⟩)

theorem Federation.Sound.tally (honest : f.Honest) {h : Hub} (sound : f.Sound w i base h)
    {e : Envelope} {known : Known} (vote : f.VoteTask w i e known) (g : Fields) :
    f.Sound w i base (tallyPrepare (f.cfg i) env h e g known) := by
  unfold tallyPrepare
  split
  · exact sound
  · rename_i rid p held
    have stored := pending_stored held
    have round := sound.rounds p (List.mem_of_getElem? stored)
    split
    · exact sound
    · rename_i names
      rw [not_not] at names
      split
      · split
        · exact sound
        · split
          · exact sound
          · rename_i k counted
            rw [Option.filter_eq_some_iff, decide_eq_true_iff] at counted
            split
            · exact sound
            · rename_i admitted
              have pubkeyKnown : known.pubkeyKnown = true := by simpa using admitted
              have theirs := counted_key env vote.sound vote.known pubkeyKnown counted.1
              have vouched := envelope_vouches (i := i) (h := h) theirs names
              rw [vote.kind] at vouched
              refine Federation.Sound.prepareQuorum env honest ?_ g.reorgId
              refine sound.modify stored ?_
                (fun q => ⟨rfl, rfl, rfl, size_add_ge q.preparePubkeys k⟩)
              refine ⟨round.plain, round.digest, round.observed, round.legacy, round.stamped, ?_,
                round.commits⟩
              intro other member
              rcases OrderedSet.mem_add.mp member with rfl | old
              · exact ⟨counted.2, vouched⟩
              · exact round.prepares other old
      · split
        · exact sound
        · split
          · exact sound
          · refine Federation.Sound.prepareQuorum env honest ?_ g.reorgId
            refine sound.modify stored ?_ (fun q => ⟨rfl, rfl, rfl, Nat.le_refl _⟩)
            exact ⟨round.plain, round.digest, round.observed, round.legacy, round.stamped,
              round.prepares, round.commits⟩

theorem Federation.Sound.handleCommit {h : Hub} (sound : f.Sound w i base h) {e : Envelope}
    (authentic : f.EnvelopeSound w i e) (kind : e.data.kind = .commit) :
    f.Sound w i base (handleCommit (f.cfg i) env h e) := by
  unfold ReorgHandler.handleCommit
  split
  · rename_i reorgId digest named names
    split
    · exact sound
    · split
      · exact sound
      · rename_i rid p held
        have stored := pending_stored held
        have round := sound.rounds p (List.mem_of_getElem? stored)
        split
        · exact sound
        · rename_i same
          rw [not_not] at same
          split
          · split
            · exact sound
            · rename_i checks
              rw [Bool.or_eq_true, not_or] at checks
              have admitted : isAdmissibleSigner (f.cfg i).js.toLowerCase env.signers e.sigPubkey =
                  true := by simpa using checks.2
              split
              · exact sound
              · rename_i k counted
                rw [Option.filter_eq_some_iff, decide_eq_true_iff] at counted
                have theirs := counted_key env authentic
                  (show f.KnownSound i e ⟨false, true⟩ from fun _ => admissible_proven admitted) rfl
                  counted.1
                have vouched := envelope_vouches (i := i) (h := h) theirs names
                rw [kind, ← same] at vouched
                refine Federation.Sound.commitQuorum env ?_ reorgId
                refine sound.modify stored ?_ (fun q => ⟨rfl, rfl, rfl, Nat.le_refl _⟩)
                refine ⟨round.plain, round.digest, round.observed, round.legacy, round.stamped,
                  round.prepares, ?_⟩
                intro other member
                rcases OrderedSet.mem_add.mp member with rfl | old
                · exact ⟨counted.2, vouched⟩
                · exact round.commits other old
          · split
            · exact sound
            · refine Federation.Sound.commitQuorum env ?_ reorgId
              refine sound.modify stored ?_ (fun q => ⟨rfl, rfl, rfl, Nat.le_refl _⟩)
              exact ⟨round.plain, round.digest, round.observed, round.legacy, round.stamped,
                round.prepares, round.commits⟩
  · exact sound

end Voting

section Opening
variable (env : Env)

theorem opened_round_sound {state : Hub} {g : Fields} (checked : Checked g)
    (observed : Observed state g) {context : Context} (locked : f.ContextSound i context)
    {leader : Bool} {digest : String} (named : digest = reorgRoundDigest (f.cfg i) g context.height)
    (said : leader = true → Says state .prepare digest) (affected : Value) (t : Option ℚ) :
    f.RoundSound w i state (roundOf (f.cfg i) env g affected digest t context leader) := by
  cases context with
  | refused =>
    exact ⟨checked.plain, named, observed, fun _ => rfl, fun active => Bool.noConfusion active,
      fun k vote => absurd vote OrderedSet.not_mem_empty,
      fun k vote => absurd vote OrderedSet.not_mem_empty⟩
  | inactive =>
    exact ⟨checked.plain, named, observed, fun _ => rfl, fun active => Bool.noConfusion active,
      fun k vote => absurd vote OrderedSet.not_mem_empty,
      fun k vote => absurd vote OrderedSet.not_mem_empty⟩
  | active height members quorum self =>
    obtain ⟨sameMembers, sameQuorum, member, key⟩ := locked height members quorum self rfl
    refine ⟨checked.plain, named, observed, fun legacy => Bool.noConfusion legacy,
      fun _ => ⟨height, rfl, sameMembers, sameQuorum⟩, ?_,
      fun k vote => absurd vote OrderedSet.not_mem_empty⟩
    intro k vote
    cases leader with
    | false => exact absurd vote OrderedSet.not_mem_empty
    | true =>
      have own : k ∈ OrderedSet.empty.add self := vote
      rcases OrderedSet.mem_add.mp own with rfl | older
      · exact ⟨member, Or.inr ⟨key, said rfl⟩⟩
      · exact absurd older OrderedSet.not_mem_empty

/-- A leader's round opens with its own PREPARE, which names the probed observation. -/
theorem Federation.Sound.initiate (honest : f.Honest) {h : Hub} (sound : f.Sound w i base h)
    {g : Fields} (checked : Checked g) (observed : Observed h g) {context : Context}
    (locked : f.ContextSound i context) (t : Option ℚ) :
    f.Sound w i base (initiateReorgConsensus (f.cfg i) env h g t context) := by
  unfold initiateReorgConsensus
  split
  · exact sound
  · split
    · exact sound
    · simp only
      generalize opened : roundOf (f.cfg i) env g
        (.array ((getAffectedChains g.chain).map .text))
        (reorgRoundDigest (f.cfg i) g context.height) t context true = p
      have digest : p.digest = reorgRoundDigest (f.cfg i) g context.height := by
        rw [← opened]
        cases context <;> rfl
      have sent : f.Sound w i base (h.emit (.broadcast (prepareMessage p))) := by
        refine sound.emit ?_ ?_ (by simp)
        · intro m same _
          rw [Output.broadcast.injEq] at same
          rw [← same]
          exact ⟨g, context.height, checked.plain, by rw [← digest]; rfl, observed⟩
        · intro m same kind
          rw [Output.broadcast.injEq] at same
          rw [← same] at kind
          exact Kind.noConfusion kind
      have said : Says (h.emit (.broadcast (prepareMessage p))) .prepare p.digest :=
        ⟨prepareMessage p, mem_broadcasts.mpr (List.mem_append_right _ (List.mem_singleton.mpr rfl)),
          rfl, rfl⟩
      have seen : Observed (h.emit (.broadcast (prepareMessage p))) g :=
        observed_mono (List.prefix_append _ _) observed
      have round : f.RoundSound w i (h.emit (.broadcast (prepareMessage p))) p := by
        rw [digest] at said
        have made : f.RoundSound w i (h.emit (.broadcast (prepareMessage p)))
            (roundOf (f.cfg i) env g (.array ((getAffectedChains g.chain).map .text))
              (reorgRoundDigest (f.cfg i) g context.height) t context true) :=
          opened_round_sound env checked seen locked rfl (fun _ => said) _ t
        rw [opened] at made
        exact made
      exact Federation.Sound.prepareQuorum env honest (sent.openRound round) g.reorgId

theorem Federation.Sound.follow {h : Hub} (sound : f.Sound w i base h) (e : Envelope) {g : Fields}
    (checked : Checked g) (observed : Observed h g) {context : Context}
    (locked : f.ContextSound i context) (t : Option ℚ) :
    f.Sound w i base (openFollowerRound (f.cfg i) env h e g
      (reorgRoundDigest (f.cfg i) g context.height) t context) :=
  sound.openRound (opened_round_sound env checked observed locked rfl
    (fun leads => Bool.noConfusion leads) _ t)

end Opening

section Inbound
variable (env : Env)

structure Message.Parsed (m : Message) : Prop where
  chain : m.chain.isFalsy = true ∨ Plain m.chain
  reorgHeight : m.reorgHeight.isFalsy = true ∨ Plain m.reorgHeight
  timestamp : m.timestamp.isFalsy = true ∨ Plain m.timestamp

theorem fields_checked {m : Message} (parsed : m.Parsed) {g : Fields}
    (fields : m.fields (f.cfg i) = some g) (hashes : hashesWellFormed g.oldHash g.newHash = true) :
    Checked g := by
  rw [hashesWellFormed, Bool.and_eq_true, Bool.and_eq_true] at hashes
  refine ⟨?_, hashes.1.1, hashes.1.2⟩
  unfold Message.fields at fields
  split at fields
  · exact absurd fields (by simp)
  · rename_i truthy
    rw [Bool.or_eq_true, Bool.or_eq_true, Bool.or_eq_true, not_or, not_or, not_or] at truthy
    split at fields
    · exact absurd fields (by simp)
    · split at fields
      · exact absurd fields (by simp)
      · rw [Option.some.injEq] at fields
        rw [← fields]
        exact ⟨parsed.chain.resolve_left truthy.1.1.1, parsed.reorgHeight.resolve_left truthy.1.1.2,
          parsed.timestamp.resolve_left truthy.1.2⟩

theorem known_sound (e : Envelope) : f.KnownSound i e (knownSender (f.cfg i) env e) :=
  fun admitted => admissible_proven admitted

theorem Federation.Sound.handleAlert {h : Hub} (sound : f.Sound w i base h) {e : Envelope}
    (parsed : e.data.Parsed) : f.Sound w i base (handleAlert (f.cfg i) env h e) := by
  unfold ReorgHandler.handleAlert
  simp only
  split
  · exact sound
  · split
    · exact sound
    · rename_i g fields
      split
      · exact sound
      · split
        · exact sound
        · split
          · exact sound
          · split
            · exact sound
            · rename_i hashes
              have checked := fields_checked parsed fields (by simpa using hashes)
              obtain ⟨verified, probing, -⟩ := sound.verify checked
              exact verified.park ⟨checked, probing⟩

theorem Federation.Sound.handlePrepare (honest : f.Honest) {h : Hub} (sound : f.Sound w i base h)
    {e : Envelope} (authentic : f.EnvelopeSound w i e) (parsed : e.data.Parsed)
    (kind : e.data.kind = .prepare) :
    f.Sound w i base (handlePrepare (f.cfg i) env h e) := by
  have vote : f.VoteTask w i e (knownSender (f.cfg i) env e) :=
    ⟨authentic, known_sound env e, kind⟩
  unfold ReorgHandler.handlePrepare
  simp only
  split
  · exact sound
  · split
    · exact sound
    · split
      · exact sound
      · rename_i g fields
        split
        · exact sound
        · split
          · exact sound
          · rename_i hashes
            have checked := fields_checked parsed fields (by simpa using hashes)
            split
            · exact sound.tally env honest vote g
            · split
              · exact sound
              · split
                · exact sound
                · exact sound.park ⟨vote, checked⟩

theorem Federation.Sound.alertVerified {h : Hub} (sound : f.Sound w i base h) (e : Envelope)
    {g : Fields} (checked : Checked g) (observed : Observed h g) (known : Known) (t : Option ℚ) :
    f.Sound w i base (alertVerified (f.cfg i) h e g known t) := by
  unfold ReorgHandler.alertVerified
  split
  · exact sound
  · split
    · exact sound
    · exact sound.park ⟨checked, observed⟩

theorem Federation.Sound.prepareLocked {h : Hub} (sound : f.Sound w i base h) {e : Envelope}
    {g : Fields} {known : Known} (vote : f.VoteTask w i e known) (checked : Checked g)
    {context : Context} (locked : f.ContextSound i context) :
    f.Sound w i base (prepareLocked (f.cfg i) env h e g known context) := by
  unfold ReorgHandler.prepareLocked
  split
  · exact sound
  · split
    · exact sound
    · split
      · obtain ⟨verified, probing, -⟩ := sound.verify checked
        exact verified.park ⟨vote, checked, probing, locked⟩
      · exact sound

theorem Federation.Sound.prepareVerified {h : Hub} (sound : f.Sound w i base h) {e : Envelope}
    {g : Fields} {known : Known} (vote : f.VoteTask w i e known) (checked : Checked g)
    (observed : Observed h g) {context : Context} (locked : f.ContextSound i context)
    (t : Option ℚ) : f.Sound w i base (prepareVerified (f.cfg i) env h e g known context t) := by
  unfold ReorgHandler.prepareVerified
  split
  · exact sound
  · refine Federation.Sound.park ?_ vote
    split
    · exact sound
    · exact sound.follow env e checked observed locked t

end Inbound

section Reports
variable (env : Env)

theorem report_checked {chain reorgHeight timestamp oldHash newHash : Value} (coin : Plain chain)
    (height : Plain reorgHeight) (time : Plain timestamp) {g : Fields}
    (parsed : parseReorgReport (f.cfg i) env chain reorgHeight timestamp oldHash newHash = some g) :
    Checked g := by
  unfold parseReorgReport at parsed
  split at parsed
  · exact absurd parsed (by simp)
  · split at parsed
    · exact absurd parsed (by simp)
    · split at parsed
      · exact absurd parsed (by simp)
      · split at parsed
        · exact absurd parsed (by simp)
        · split at parsed
          · exact absurd parsed (by simp)
          · rename_i hashes
            rw [Option.some.injEq] at parsed
            rw [← parsed]
            have formed : hashesWellFormed (asHash (f.cfg i) oldHash) (asHash (f.cfg i) newHash) =
                true := by simpa using hashes
            rw [hashesWellFormed, Bool.and_eq_true, Bool.and_eq_true] at formed
            exact ⟨⟨coin, height, time⟩, formed.1.1, formed.1.2⟩

theorem Federation.Sound.reportReorg {h : Hub} (sound : f.Sound w i base h)
    {chain reorgHeight timestamp : Value} (oldHash newHash : Value) (coin : Plain chain)
    (height : Plain reorgHeight) (time : Plain timestamp) :
    f.Sound w i base
      (reportReorg (f.cfg i) env h chain reorgHeight timestamp oldHash newHash) := by
  unfold ReorgHandler.reportReorg
  split
  · exact sound
  · rename_i g parsed
    split
    · exact sound
    · split
      · exact sound
      · have checked := report_checked env coin height time parsed
        obtain ⟨verified, probing, -⟩ := sound.verify checked
        exact verified.park ⟨checked, probing⟩

theorem Federation.Sound.reportLocked (honest : f.Honest) {h : Hub} (sound : f.Sound w i base h)
    {g : Fields} (checked : Checked g) (observed : Observed h g) {context : Context}
    (locked : f.ContextSound i context) (now : ℤ) (t : Option ℚ) :
    f.Sound w i base (reportLocked (f.cfg i) env h g now t context) := by
  have rated : f.Sound w i base
      { h with reorgRateTracker := h.reorgRateTracker.set g.chain.asText now } :=
    sound.rest rfl rfl rfl (fun _ _ found => found) (fun _ member => Or.inl member)
  unfold ReorgHandler.reportLocked
  simp only
  split
  · refine Federation.Sound.park (rated.quiet ?_ ?_) trivial
    · exact fun m same => absurd same (by simp)
    · exact fun p x => by simp
  · refine Federation.Sound.initiate env honest (rated.quiet ?_ ?_) checked ?_ locked t
    · intro m same
      rw [Output.broadcast.injEq] at same
      rw [← same]
      rfl
    · exact fun p x => by simp
    · exact observed_mono (List.prefix_append _ _) observed

end Reports
end Soundness

end XChainHub.Anchor.ReorgHandler
