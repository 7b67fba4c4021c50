import XChainHub.Library.GuardedRuns
import XChainHub.Validators.ProviderRegistry.ConfigHistory

/-!
When the provider configuration is a function of the block. What a hub resolves depends on
the entry it wrote last for each block, and the live path writes in the order of finalization
where the replay writes in the order of block and row id.
-/
namespace XChainHub.ProviderRegistry
open ScriptValue Timeline GuardedRuns

/- A hub's proposals and registry. emitting are the passed proposals whose read in emitFinalized
   is awaited. written is history: the entries written since the process began, in order. -/
structure Hub where
  rows : List Row
  emitting : List String
  providers : OrderedMap String Value
  history : History
  written : List (String × Entry)

inductive Event where
  | created (r : Row)
  | passed (proposalId : String)
  | emitted (proposalId : String) (ok : Bool)
  | reloaded (configs : List (String × Value))
  | restarted (configs : List (String × Value)) (ok : Bool)

section Steps
variable (h : Hub)

def loadProviders (configs : List (String × Value)) : OrderedMap String Value :=
  (defaults ++ configs).foldl (fun m d => m.set d.1 d.2) OrderedMap.empty

def replay (written : List (String × Entry)) : History :=
  written.foldl (fun m c => writeEntry m c.1 c.2) OrderedMap.empty

/- ok: the read of the passed rows resolves. -/
def loadGovernanceHistory (ok : Bool) : Hub :=
  let seeded := seedProviderConfigGenesis OrderedMap.empty
  let rows := if ok then replayed (findGovernanceProposalsByStatus h.rows) else []
  { h with
    emitting := []
    history := rows.foldl (fun m c => writeEntry m c.1 c.2) seeded
    written := genesis ++ rows }

def applyProviderGovernanceChange (r : Row) : Hub :=
  match changeOf r with
  | .write providerId e =>
    { h with history := writeEntry h.history providerId e, written := h.written ++ [(providerId, e)] }
  | _ => h

/- A passed proposal whose read fails is recorded and never applied by this process. -/
def emitFinalized (proposalId : String) (ok : Bool) : Hub :=
  if proposalId ∈ h.emitting then
    let read := { h with emitting := h.emitting.erase proposalId }
    match h.rows.find? (fun r => r.proposalId = proposalId), ok with
    | some r, true => applyProviderGovernanceChange read r
    | _, _ => read
  else h

def updateGovernanceProposal (proposalId : String) : Hub :=
  if h.rows.any (fun r => r.proposalId = proposalId && !r.passed) then
    { h with
      rows := h.rows.map (fun r => if r.proposalId = proposalId then { r with passed := true } else r)
      emitting := h.emitting ++ [proposalId] }
  else h

def step (ev : Event) : Hub :=
  match ev with
  | .created r =>
    if h.rows.any (fun s => s.proposalId = r.proposalId) then h
    else { h with rows := h.rows ++ [{ r with passed := false }] }
  | .passed proposalId => updateGovernanceProposal h proposalId
  | .emitted proposalId ok => emitFinalized h proposalId ok
  | .reloaded configs => { h with providers := loadProviders configs }
  | .restarted configs ok => { loadGovernanceHistory h ok with providers := loadProviders configs }

end Steps

def Hub.start : Hub :=
  ⟨[], [], loadProviders [], seedProviderConfigGenesis OrderedMap.empty, genesis⟩

section Readers
variable (h : Hub) (providerId : String) (blockIndex : Option ℕ)

def Hub.additionalConfig : Value := getAdditionalConfig h.history h.providers providerId blockIndex

def Hub.minStake : Option String := getMinStake h.history h.providers providerId blockIndex

def Hub.consensusStrategy : Option String :=
  getConsensusStrategy h.history h.providers providerId blockIndex

end Readers

/- Whatever order the entries were written in, the last one of its block decides. -/
section Decisive
variable (written : List (String × Entry)) (providerId : String)

def writtenFor : List Entry := (written.filter (fun c => c.1 = providerId)).map Prod.snd

def lastOn (b : ℕ) : Option Entry :=
  ((writtenFor written providerId).reverse).find? (fun e => e.activationBlock = b)

def earliest : Option Entry :=
  ((writtenFor written providerId).map Entry.activationBlock).min?.bind (lastOn written providerId)

/- The field as of a block: what the block sets, else what the blocks before it set. -/
def fieldAt (on : ℕ → Option Entry) (field : Entry → Option String) (live : Option String) :
    ℕ → Option String
  | 0 => ((on 0).bind field).or live
  | b + 1 => ((on (b + 1)).bind field).or (fieldAt on field live b)

def configAt (on : ℕ → Option Entry) (base : Value) : ℕ → Value
  | 0 => base
  | b + 1 =>
    match on (b + 1) with
    | some e => if e.additionalConfig ≠ .null then e.additionalConfig else base
    | none => configAt on base b

end Decisive

section Shown
variable (h : Hub) (providerId : String)

def Hub.configShown : ℕ → Value :=
  configAt (lastOn h.written providerId)
    (match earliest h.written providerId with
      | some e => e.additionalConfig
      | none => (liveField h.providers providerId "additional_config").orElse .null)

def Hub.floorShown : ℕ → Option String :=
  fieldAt (lastOn h.written providerId) Entry.minStakeXchain
    (normalizeMinStakeXchain (liveField h.providers providerId "min_stake_xchain"))

def Hub.strategyShown : ℕ → Option String :=
  fieldAt (lastOn h.written providerId) Entry.consensusStrategy
    (normalizeConsensusStrategy (liveField h.providers providerId "consensus_strategy"))

end Shown

section Replay
variable {written : List (String × Entry)} {providerId : String}

/- The history is what the written entries make of an empty one. -/
def Replayed (h : Hub) : Prop := h.history = replay h.written

theorem replay_append (first second : List (String × Entry)) :
    replay (first ++ second) = second.foldl (fun m c => writeEntry m c.1 c.2) (replay first) := by
  simp [replay]

theorem step_replayed (h : Hub) (ev : Event) (same : Replayed h) : Replayed (step h ev) := by
  cases ev with
  | created r =>
    simp only [step]
    split <;> exact same
  | passed proposalId =>
    simp only [step, updateGovernanceProposal]
    split <;> exact same
  | emitted proposalId ok =>
    simp only [step, emitFinalized]
    split
    · split
      · unfold applyProviderGovernanceChange
        split
        · rename_i id e _
          have before : h.history = replay h.written := same
          simp only [Replayed, replay_append, List.foldl_cons, List.foldl_nil, before]
        · exact same
      · exact same
    · exact same
  | reloaded configs => exact same
  | restarted configs ok =>
    simp only [step, loadGovernanceHistory, Replayed, replay_append]
    rfl

theorem start_replayed : Replayed Hub.start := rfl

theorem run_replayed (evs : List Event) : Replayed (run step Hub.start evs) :=
  run_preserves Replayed step_replayed start_replayed evs

theorem entries_write_same (history : History) (e : Entry) :
    entriesOf (writeEntry history providerId e) providerId =
      place Entry.activationBlock (entriesOf history providerId) e := by
  rw [writeEntry, entriesOf, OrderedMap.get_set_same, Option.getD_some]

theorem entries_write_other (history : History) {other : String} (apart : providerId ≠ other)
    (e : Entry) : entriesOf (writeEntry history other e) providerId = entriesOf history providerId := by
  rw [writeEntry, entriesOf, OrderedMap.get_set_other apart, entriesOf]

theorem written_for_concat_same (e : Entry) :
    writtenFor (written ++ [(providerId, e)]) providerId = writtenFor written providerId ++ [e] := by
  simp [writtenFor]

theorem written_for_concat_other {other : String} (apart : other ≠ providerId) (e : Entry) :
    writtenFor (written ++ [(other, e)]) providerId = writtenFor written providerId := by
  simp [writtenFor, apart]

/-- The entries of a provider, in ascending order, are the last written of their blocks. -/
theorem replay_entries (written : List (String × Entry)) (providerId : String) :
    Ascending Entry.activationBlock (entriesOf (replay written) providerId) ∧
      (∀ b, entryAt Entry.activationBlock (entriesOf (replay written) providerId) b =
        lastOn written providerId b) ∧
      ∀ b, (∃ e ∈ entriesOf (replay written) providerId, e.activationBlock = b) ↔
        ∃ e ∈ writtenFor written providerId, e.activationBlock = b := by
  induction written using List.reverseRecOn with
  | nil => exact ⟨List.Pairwise.nil, fun _ => rfl, fun _ => Iff.rfl⟩
  | append_singleton front c ih =>
    obtain ⟨up, last, blocks⟩ := ih
    obtain ⟨other, e⟩ := c
    rw [replay_append, List.foldl_cons, List.foldl_nil]
    by_cases same : other = providerId
    · subst same
      rw [entries_write_same]
      refine ⟨place_ascending up e, fun b => ?_, fun b => ?_⟩
      · by_cases here : e.activationBlock = b
        · subst here
          rw [entry_at_place_same up]
          simp [lastOn, written_for_concat_same]
        · rw [entry_at_place_other up here, last]
          simp [lastOn, written_for_concat_same, here]
      · rw [written_for_concat_same]
        constructor
        · rintro ⟨d, member, rfl⟩
          rcases mem_place.mp member with rfl | ⟨old, -⟩
          · exact ⟨d, by simp, rfl⟩
          · obtain ⟨d', held, same⟩ := (blocks d.activationBlock).mp ⟨d, old, rfl⟩
            exact ⟨d', List.mem_append_left _ held, same⟩
        · rintro ⟨d, member, rfl⟩
          by_cases here : d.activationBlock = e.activationBlock
          · exact ⟨e, mem_place.mpr (Or.inl rfl), here.symm⟩
          · rcases List.mem_append.mp member with old | new
            · obtain ⟨d', held, same⟩ := (blocks d.activationBlock).mpr ⟨d, old, rfl⟩
              exact ⟨d', mem_place.mpr (Or.inr ⟨held, same ▸ here⟩), same⟩
            · rw [List.mem_singleton] at new
              exact absurd (congrArg Entry.activationBlock new) here
    · rw [entries_write_other _ (Ne.symm same)]
      refine ⟨up, fun b => ?_, fun b => ?_⟩
      · rw [last, lastOn, lastOn, written_for_concat_other same]
      · rw [blocks, written_for_concat_other same]

theorem earliest_of_entries {first : Entry} {rest : List Entry}
    (held : entriesOf (replay written) providerId = first :: rest) :
    earliest written providerId = some first := by
  obtain ⟨up, last, blocks⟩ := replay_entries written providerId
  rw [held] at up last blocks
  have least : ((writtenFor written providerId).map Entry.activationBlock).min? =
      some first.activationBlock := by
    rw [List.min?_eq_some_iff]
    constructor
    · obtain ⟨e, member, same⟩ := (blocks first.activationBlock).mp ⟨first, List.mem_cons_self, rfl⟩
      exact List.mem_map.mpr ⟨e, member, same⟩
    · intro b member
      obtain ⟨e, written', rfl⟩ := List.mem_map.mp member
      obtain ⟨d, inside, same⟩ := (blocks e.activationBlock).mpr ⟨e, written', rfl⟩
      rw [← same]
      rcases List.mem_cons.mp inside with rfl | later
      · exact Nat.le_refl _
      · exact Nat.le_of_lt ((List.pairwise_cons.mp up).1 d later)
  rw [earliest, least, Option.bind_some, ← last, entry_at_cons, if_pos rfl]

theorem earliest_of_none (held : entriesOf (replay written) providerId = []) :
    earliest written providerId = none := by
  obtain ⟨-, -, blocks⟩ := replay_entries written providerId
  rw [held] at blocks
  have none' : writtenFor written providerId = [] := by
    rw [List.eq_nil_iff_forall_not_mem]
    intro e member
    obtain ⟨d, inside, -⟩ := (blocks e.activationBlock).mpr ⟨e, member, rfl⟩
    exact absurd inside List.not_mem_nil
  rw [earliest, none']
  rfl

end Replay

section Resolved
variable {h : Hub} {providerId : String}

theorem resolve_field_eq (same : Replayed h) (field : Entry → Option String) (live : Option String)
    (x : ℕ) : (resolveField h.history field providerId (some x)).or live =
      fieldAt (lastOn h.written providerId) field live x := by
  obtain ⟨up, last, -⟩ := replay_entries h.written providerId
  rw [← (show h.history = replay h.written from same)] at up last
  unfold resolveField
  simp only
  induction x with
  | zero =>
    rw [up_to_zero up, last, fieldAt]
    cases lastOn h.written providerId 0 <;> simp
  | succ x ih =>
    rw [up_to_succ up, last, List.foldl_append, fieldAt, ← ih]
    cases lastOn h.written providerId (x + 1) <;> simp [Option.or_assoc]

theorem config_eq (same : Replayed h) (x : ℕ) :
    h.additionalConfig providerId (some x) = h.configShown providerId x := by
  obtain ⟨up, last, -⟩ := replay_entries h.written providerId
  have history : h.history = replay h.written := same
  unfold Hub.additionalConfig Hub.configShown getAdditionalConfig
  rw [history]
  cases held : entriesOf (replay h.written) providerId with
  | nil =>
    rw [earliest_of_none held]
    rw [held] at last
    simp only
    induction x with
    | zero => rfl
    | succ x ih =>
      rw [configAt, ← last]
      exact ih
  | cons first rest =>
    rw [earliest_of_entries held]
    rw [held] at up last
    simp only
    induction x with
    | zero =>
      rw [up_to_zero up, entry_at_cons, configAt]
      by_cases zero : first.activationBlock = 0
      · rw [if_pos zero]
        exact ite_self _
      · rw [if_neg zero]
        have none' := entry_at_later up (Nat.pos_of_ne_zero zero)
        rw [entry_at_cons, if_neg zero] at none'
        rw [none']
        simp
    | succ x ih =>
      rw [up_to_succ up, last, List.foldl_append, configAt]
      cases lastOn h.written providerId (x + 1) with
      | none => exact ih
      | some e => rfl

end Resolved

section Agreement
variable {on₁ on₂ : ℕ → Option Entry}

theorem field_at_agree {field : Entry → Option String} {live₁ live₂ : Option String}
    (shown : ∀ b, b = 0 ∨ on₁ b ≠ on₂ b → fieldAt on₁ field live₁ b = fieldAt on₂ field live₂ b)
    (x : ℕ) : fieldAt on₁ field live₁ x = fieldAt on₂ field live₂ x := by
  induction x with
  | zero => exact shown 0 (Or.inl rfl)
  | succ x ih =>
    by_cases same : on₁ (x + 1) = on₂ (x + 1)
    · rw [fieldAt, fieldAt, same, ih]
    · exact shown (x + 1) (Or.inr same)

theorem config_at_agree {base₁ base₂ : Value}
    (shown : ∀ b, b = 0 ∨ on₁ b ≠ on₂ b → configAt on₁ base₁ b = configAt on₂ base₂ b) (x : ℕ) :
    configAt on₁ base₁ x = configAt on₂ base₂ x := by
  have bases : base₁ = base₂ := shown 0 (Or.inl rfl)
  induction x with
  | zero => exact bases
  | succ x ih =>
    by_cases same : on₁ (x + 1) = on₂ (x + 1)
    · rw [configAt, configAt, same, ih, bases]
    · exact shown (x + 1) (Or.inr same)

/- The two hubs resolve the same configuration for every provider and block. -/
def SameConfig (h₁ h₂ : Hub) : Prop :=
  ∀ providerId block,
    h₁.additionalConfig providerId (some block) = h₂.additionalConfig providerId (some block) ∧
      h₁.minStake providerId (some block) = h₂.minStake providerId (some block) ∧
      h₁.consensusStrategy providerId (some block) = h₂.consensusStrategy providerId (some block)

/- Where the entries last written for a block differ, and on block 0, what a field shows there
   is the same: what the entry sets, else what the nearest earlier block sets. -/
def Harmless (h₁ h₂ : Hub) : Prop :=
  ∀ providerId b, b = 0 ∨ lastOn h₁.written providerId b ≠ lastOn h₂.written providerId b →
    h₁.configShown providerId b = h₂.configShown providerId b ∧
      h₁.floorShown providerId b = h₂.floorShown providerId b ∧
      h₁.strategyShown providerId b = h₂.strategyShown providerId b

end Agreement

section OrderFree
variable {written₁ written₂ : List (String × Entry)} {providerId : String}

/- No two entries of a provider share a block. -/
def OnePerBlock (written : List (String × Entry)) : Prop :=
  ∀ c ∈ written, ∀ d ∈ written, c.1 = d.1 → c.2.activationBlock = d.2.activationBlock → c = d

theorem mem_written_for {written : List (String × Entry)} {e : Entry} :
    e ∈ writtenFor written providerId ↔ (providerId, e) ∈ written := by
  simp [writtenFor]

theorem last_on_iff {written : List (String × Entry)} (one : OnePerBlock written) {b : ℕ} {e : Entry} :
    lastOn written providerId b = some e ↔ (providerId, e) ∈ written ∧ e.activationBlock = b := by
  unfold lastOn
  constructor
  · intro found
    exact ⟨mem_written_for.mp (List.mem_reverse.mp (List.mem_of_find?_eq_some found)),
      by simpa using List.find?_some found⟩
  · rintro ⟨member, rfl⟩
    cases found : (writtenFor written providerId).reverse.find?
        (fun d => d.activationBlock = e.activationBlock) with
    | none =>
      have inside := List.mem_reverse.mpr (mem_written_for.mpr member)
      exact absurd (List.find?_eq_none.mp found e inside) (by simp)
    | some d =>
      have inside := mem_written_for.mp (List.mem_reverse.mp (List.mem_of_find?_eq_some found))
      have same : d.activationBlock = e.activationBlock := by simpa using List.find?_some found
      rw [(Prod.mk.inj (one _ inside _ member rfl same)).2]

theorem last_on_order_free (one : OnePerBlock written₁) (same : ∀ c, c ∈ written₁ ↔ c ∈ written₂)
    (b : ℕ) : lastOn written₁ providerId b = lastOn written₂ providerId b := by
  have other : OnePerBlock written₂ := fun c left d right =>
    one c ((same c).mpr left) d ((same d).mpr right)
  ext e
  rw [last_on_iff one, last_on_iff other, same]

theorem earliest_order_free (one : OnePerBlock written₁) (same : ∀ c, c ∈ written₁ ↔ c ∈ written₂) :
    earliest written₁ providerId = earliest written₂ providerId := by
  have blocks : ((writtenFor written₁ providerId).map Entry.activationBlock).min? =
      ((writtenFor written₂ providerId).map Entry.activationBlock).min? := by
    ext b
    simp only [List.min?_eq_some_iff, List.mem_map, mem_written_for, same]
  rw [earliest, earliest, blocks]
  exact congrArg _ (funext (last_on_order_free one same))

/-- One proposal to a block leaves nothing to the order: hubs that wrote the same entries, and
    hold the same live definitions, resolve the same configuration. -/
theorem one_per_block_agrees (evs₁ evs₂ : List Event)
    (one : OnePerBlock (run step Hub.start evs₁).written)
    (same : ∀ c, c ∈ (run step Hub.start evs₁).written ↔ c ∈ (run step Hub.start evs₂).written)
    (live : (run step Hub.start evs₁).providers = (run step Hub.start evs₂).providers) :
    SameConfig (run step Hub.start evs₁) (run step Hub.start evs₂) := by
  have replayed₁ := run_replayed evs₁
  have replayed₂ := run_replayed evs₂
  generalize run step Hub.start evs₁ = h₁ at one same live replayed₁
  generalize run step Hub.start evs₂ = h₂ at same live replayed₂
  intro providerId x
  have last : lastOn h₁.written providerId = lastOn h₂.written providerId :=
    funext (last_on_order_free one same)
  rw [config_eq replayed₁, config_eq replayed₂, Hub.configShown, Hub.configShown, last,
    earliest_order_free one same, live]
  simp only [Hub.minStake, Hub.consensusStrategy, getMinStake, getConsensusStrategy,
    resolve_field_eq replayed₁, resolve_field_eq replayed₂, last, live, and_self]

end OrderFree

section Sample

def floorRow (proposalId floor : String) : Row :=
  ⟨proposalId, "ATTESTATION_PROVIDER:llm", "\x7b\"min_stake_xchain\":\"" ++ floor ++ "\"\x7d",
    some 1000, false⟩

def bothCreated : List Event := [.created (floorRow "a" "30000"), .created (floorRow "b" "40000")]

def finalized (proposalId : String) : List Event := [.passed proposalId, .emitted proposalId true]

/- A floor from block 2000 on. -/
def laterFloor : Event := .created { floorRow "c" "50000" with activationBlock := some 2000 }

theorem apart_blocks_agree :
    SameConfig (run step Hub.start (laterFloor :: bothCreated ++ finalized "a" ++ finalized "c"))
      (run step Hub.start (laterFloor :: bothCreated ++ finalized "c" ++ finalized "a")) := by
  have turned : (run step Hub.start (laterFloor :: bothCreated ++ finalized "a" ++ finalized "c")).written.Perm
      (run step Hub.start (laterFloor :: bothCreated ++ finalized "c" ++ finalized "a")).written := by
    decide +kernel
  have same {m m' : OrderedMap String Value} (entries : m.entries = m'.entries) : m = m' := by
    cases m
    cases m'
    simpa using entries
  exact one_per_block_agrees _ _ (by unfold OnePerBlock; decide +kernel) (fun _ => turned.mem_iff)
    (same (by decide +kernel))

def forward : List Event := bothCreated ++ finalized "a" ++ finalized "b"

def backward : List Event := bothCreated ++ finalized "b" ++ finalized "a"

theorem floors_by_order :
    (run step Hub.start forward).minStake "llm" (some 1000) = some "40000" ∧
      (run step Hub.start backward).minStake "llm" (some 1000) = some "30000" ∧
      (run step Hub.start (backward ++ [.restarted [] true])).minStake "llm" (some 1000) =
        some "40000" := by
  decide +kernel

end Sample
end XChainHub.ProviderRegistry
