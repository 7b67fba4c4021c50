import XChainHub.Library.JsonText
import XChainHub.Library.OrderedMap
import XChainHub.Library.Timeline

/-!
The block-anchored provider configuration: provider_registry/{defaults, config_history}.js and
the live write of XChainHub.applyProviderGovernanceChange.
-/
namespace XChainHub.ProviderRegistry
open ScriptValue Timeline

/- What the history reads of the built-in definitions. -/
def defaults : List (String × Value) :=
  [("http_get", .object
      [("consensus_strategy", .text "byte_equality"), ("min_stake_xchain", .text "10000"),
        ("additional_config", .object [])]),
    ("llm", .object
      [("consensus_strategy", .text "judge_model"), ("min_stake_xchain", .text "25000"),
        ("additional_config", .object
          [("approved_models", .array [.text "claude-sonnet-4-6", .text "claude-opus-4-7"]),
            ("judge_model", .text "claude-haiku-4-5"), ("judge_fallback_models", .array []),
            ("model_vendors", .object []), ("require_all_vendors", .bool false),
            ("max_completion_tokens", .number (NumberText.Number.ofNat 1024)),
            ("default_temperature", .number .zero),
            ("prompt_envelope_version", .number (NumberText.Number.ofNat 1))])])]

def isLineTerminator (c : Char) : Bool :=
  c = '\n' || c = '\r' || c.toNat = 0x2028 || c.toNat = 0x2029

/- /^ATTESTATION_PROVIDER:(.+)$/ -/
def parseAttestationProviderParam (parameter : String) : Option String :=
  let word := "ATTESTATION_PROVIDER:".toList
  let rest := parameter.toList.drop word.length
  if word.isPrefixOf parameter.toList && !rest.isEmpty && !rest.any isLineTerminator then
    some (String.ofList rest)
  else none

/- /^\d+(\.\d+)?$/ -/
def isPlainDecimal (cs : List Char) : Bool :=
  !(cs.takeWhile Char.isDigit).isEmpty &&
    match cs.dropWhile Char.isDigit with
    | [] => true
    | '.' :: fraction => !fraction.isEmpty && fraction.all Char.isDigit
    | _ => false

def normalizeMinStakeXchain (value : Value) : Option String :=
  if value.isNullish then none
  else
    let s := DecimalText.trim value.asText.toList
    if isPlainDecimal s then some (String.ofList s) else none

def normalizeConsensusStrategy (value : Value) : Option String :=
  if value.isNullish then none
  else
    let s := DecimalText.trim value.asText.toList
    if s = [] then none else some (String.ofList s)

structure Entry where
  activationBlock : ℕ
  additionalConfig : Value
  minStakeXchain : Option String
  consensusStrategy : Option String
  deriving DecidableEq

abbrev History := OrderedMap String (List Entry)

section Writes
variable (history : History)

def entriesOf (providerId : String) : List Entry := (history.get providerId).getD []

def writeEntry (providerId : String) (e : Entry) : History :=
  history.set providerId (place Entry.activationBlock (entriesOf history providerId) e)

def genesisEntry (definition : Value) : Entry where
  activationBlock := 0
  additionalConfig := (definition.field "additional_config").orElse (.object [])
  minStakeXchain := normalizeMinStakeXchain (definition.field "min_stake_xchain")
  consensusStrategy := normalizeConsensusStrategy (definition.field "consensus_strategy")

def genesis : List (String × Entry) := defaults.map (fun d => (d.1, genesisEntry d.2))

def seedProviderConfigGenesis : History := genesis.foldl (fun m c => writeEntry m c.1 c.2) history

/- Either a full provider definition or a bare additional_config; only the former moves the
   floor and the strategy. -/
def entryOf (activationBlock : ℕ) (parsed : Value) : Entry where
  activationBlock := activationBlock
  additionalConfig := (parsed.field "additional_config").orElse parsed
  minStakeXchain := normalizeMinStakeXchain (parsed.field "min_stake_xchain")
  consensusStrategy := normalizeConsensusStrategy (parsed.field "consensus_strategy")

end Writes

/- A governance_proposals row; the rows of a hub are in the order of their ids. -/
structure Row where
  proposalId : String
  parameter : String
  proposedValue : String
  activationBlock : Option ℤ
  passed : Bool
  deriving DecidableEq

/- What a row writes: nothing, an entry, or a throw for a negative block. -/
inductive Change where
  | skip
  | write (providerId : String) (e : Entry)
  | throws
  deriving DecidableEq

/- The live path and the replay read a row alike. -/
def changeOf (r : Row) : Change :=
  match parseAttestationProviderParam r.parameter, r.activationBlock, JsonText.parse r.proposedValue with
  | some providerId, some block, some parsed =>
    if block < 0 then .throws else .write providerId (entryOf block.toNat parsed)
  | _, _, _ => .skip

/- The entries that the replay writes, up to the first throw. -/
def replayed : List Row → List (String × Entry)
  | [] => []
  | r :: rest =>
    match changeOf r with
    | .skip => replayed rest
    | .write providerId e => (providerId, e) :: replayed rest
    | .throws => []

def findGovernanceProposalsByStatus (rows : List Row) : List Row :=
  (rows.filter (fun r => r.passed && r.activationBlock.isSome)).insertionSort
    (fun r s => r.activationBlock.getD 0 ≤ s.activationBlock.getD 0)

section Reads
variable (history : History) (providers : OrderedMap String Value)

def liveField (providerId name : String) : Value :=
  match providers.get providerId with
  | none => .undefined
  | some definition => definition.field name

/- The last entry seen counts; null falls back to the first entry of all. -/
def getAdditionalConfig (providerId : String) (blockIndex : Option ℕ) : Value :=
  match entriesOf history providerId with
  | [] => (liveField providers providerId "additional_config").orElse .null
  | first :: rest =>
    match blockIndex with
    | none => ((first :: rest).getLast (by simp)).additionalConfig
    | some x =>
      let resolved := (upTo Entry.activationBlock (first :: rest) x).foldl (fun _ e => e.additionalConfig)
        Value.null
      if resolved ≠ .null then resolved else first.additionalConfig

/- Entries that leave the field out are transparent. -/
def resolveField (field : Entry → Option String) (providerId : String) (blockIndex : Option ℕ) :
    Option String :=
  let seen := match blockIndex with
    | none => entriesOf history providerId
    | some x => upTo Entry.activationBlock (entriesOf history providerId) x
  seen.foldl (fun resolved e => (field e).or resolved) none

def getMinStake (providerId : String) (blockIndex : Option ℕ) : Option String :=
  (resolveField history Entry.minStakeXchain providerId blockIndex).or
    (normalizeMinStakeXchain (liveField providers providerId "min_stake_xchain"))

def getConsensusStrategy (providerId : String) (blockIndex : Option ℕ) : Option String :=
  (resolveField history Entry.consensusStrategy providerId blockIndex).or
    (normalizeConsensusStrategy (liveField providers providerId "consensus_strategy"))

end Reads

/-- Every built-in provider has its own block-0 entry with a floor and a strategy. -/
theorem genesis_anchored : ∀ c ∈ genesis, c.2.activationBlock = 0 ∧ c.2.minStakeXchain.isSome = true ∧
    c.2.consensusStrategy.isSome = true := by
  decide

end XChainHub.ProviderRegistry
