import XChainHub.CrossChain.Pbft.Agreement
import XChainHub.CrossChain.Snapshots.OneContent

/-!
One content per policy or list version, and the run that stores two: a policy changes while
a round of its version is in flight, and the next poll opens a second round of that version
at the next snapshot block.
-/
namespace XChainHub.CrossChain.Snapshots
open GuardedRuns EquivocationHeader ScriptValue

/-- While no honest hub puts a second content of a version in flight, takes only rows whose
    signed columns stand apart, and adopts FINAL_SYNC rows a commit quorum stands behind, all
    policies held at one version have one hash, and all lists one members hash and meta hash. -/
theorem one_content_per_version {ι : Type} [Fintype ι] [DecidableEq ι] :
    (∀ (cfg : Policy.Config) (seats : Seats Policy.Row ι),
      (seats.federation (Policy.rail cfg).engine).Honest →
      (seats.federation (Policy.rail cfg).engine).HonestOverlap →
      ∀ ms : List (Move Policy.Row Policy.Poll Policy.Read ι),
      Admitted (federationStep (Policy.rail cfg) seats) (Guard (Policy.rail cfg) seats) started ms →
      ∀ i j r s, (run (federationStep (Policy.rail cfg) seats) started ms i).Holds r →
        (run (federationStep (Policy.rail cfg) seats) started ms j).Holds s →
        r.network = s.network → r.originChain = s.originChain → r.tick = s.tick →
        r.policySeq = s.policySeq → r.policyHash = s.policyHash) ∧
    (∀ (cfg : ListShare.Config) (seats : Seats ListShare.Snapshot ι),
      (seats.federation (ListShare.rail cfg).engine).Honest →
      (seats.federation (ListShare.rail cfg).engine).HonestOverlap →
      ∀ ms : List (Move ListShare.Snapshot ListShare.SharePoll ListShare.ShareRead ι),
      Admitted (federationStep (ListShare.rail cfg) seats) (Guard (ListShare.rail cfg) seats) started
        ms →
      ∀ i j r s, (run (federationStep (ListShare.rail cfg) seats) started ms i).Holds r →
        (run (federationStep (ListShare.rail cfg) seats) started ms j).Holds s →
        r.network = s.network → r.homeChain = s.homeChain → r.homeListIndex = s.homeListIndex →
        r.seq = s.seq → r.membersHash = s.membersHash ∧ r.metaText = s.metaText) := by
  constructor
  · intro cfg seats honest overlap ms admitted i j r s first second network chain tick seq
    have same : Policy.version r = Policy.version s := by
      simp only [Policy.version, network, chain, tick, seq]
    exact held_digests_agree honest overlap admitted i j r s first second same
  · intro cfg seats honest overlap ms admitted i j r s first second network chain index seq
    have same : ListShare.version r = ListShare.version s := by
      simp only [ListShare.version, network, chain, index, seq]
    exact Prod.mk.inj (held_digests_agree honest overlap admitted i j r s first second same)

section Decide
variable {R Poll Read V D ι : Type} [Fintype ι] (rail : Rail R Poll Read V D) (seats : Seats R ι)
  (w : World R ι) (m : Move R Poll Read ι)

instance : Decidable (Setting rail seats w m) :=
  inferInstanceAs (Decidable (∀ c ∈ consensusMove rail w m, _))

instance [DecidableEq V] [DecidableEq D] : Decidable (Guard rail seats w m) :=
  inferInstanceAs (Decidable (∀ c ∈ consensusMove rail w m, _))

end Decide

section Fixtures

/- A digest that keeps the last character of its text. -/
def markOf (s : String) : Char := (s.toList.getLast?.filter HexText.isLowerHex).getD '0'

theorem mark_hex (s : String) : HexText.isLowerHex (markOf s) = true := by
  rw [markOf]
  cases found : s.toList.getLast?.filter HexText.isLowerHex with
  | none => decide
  | some c => exact (Option.filter_eq_some_iff.mp found).2

def sampleSha256 (s : String) : { digest : String // HexText.LowerHex 64 digest } :=
  ⟨String.ofList (List.replicate 63 '0' ++ [markOf s]), by
    refine ⟨by simp, fun c member => ?_⟩
    rw [String.toList_ofList] at member
    rcases List.mem_append.mp member with zero | last
    · rw [List.eq_of_mem_replicate zero]
      decide
    · rw [List.mem_singleton.mp last]
      exact mark_hex s⟩

variable {R Poll Read V D : Type}

theorem seal_verifies (key payload : String) :
    decide (sealOf key payload = sealOf key payload) = true :=
  decide_eq_true rfl

theorem k0_lower : StakeWeightedQuorum.asciiLower "k0" = "k0" := by decide

theorem k1_lower : StakeWeightedQuorum.asciiLower "k1" = "k1" := by decide

def sampleParams (engine : Engine R) (key : String)
    (lower : StakeWeightedQuorum.asciiLower key = key) : Params R where
  engine := engine
  toLowerCase := StakeWeightedQuorum.asciiLower
  lower_idem := StakeWeightedQuorum.ascii_lower_idem
  pubkey := key
  pubkey_lower := lower
  sign := sealOf key
  verify := fun payload sig k => sig = sealOf k payload
  sign_verifies := seal_verifies key
  finalizedMax := 10000
  earlyMessageMaxDistinctIds := 512
  earlyMessageMaxBytes := 131072
  wireSize := fun _ => 1
  roundMaxLifetimeMs := 120000

/- Two honest members, no fault. -/
def pairSeats (engine : Engine R) : Seats R Pair where
  toLowerCase := StakeWeightedQuorum.asciiLower
  cfg := fun i =>
    match i with
    | .k0 => sampleParams engine "k0" k0_lower
    | .k1 => sampleParams engine "k1" k1_lower
  faulty := ∅
  binding := bindingOf hubK1 (keysOf ["k0", "k1"]).rows false

variable (rail : Rail R Poll Read V D)

def moves (i : Pair) (e : Event R Poll Read) : Move R Poll Read Pair := (i, quietEnv, e)

def signedText (r : R) : String := (rail.engine.canonicalMatch r 0).getD ""

def proposal (r : R) : Message R :=
  .propose (rail.snapshotId r) (some 0) (some r) "k0" (some (sealOf "k0" (signedText rail r)))

def preparedBy (key : String) (r : R) : Message R :=
  .prepare (rail.snapshotId r) (some 0) key (some (sealOf key (signedText rail r)))

def committedBy (key : String) (r : R) : Message R :=
  .commit (rail.snapshotId r) (some 0) key (some (sealOf key (signedText rail r)))
    (some (sealOf key (commitPayload rail.engine (signedText rail r))))

/- k0 leads: both hubs poll the row and k0's proposal is out. -/
def opens (poll : Poll) (lead : ℕ) : List (Move R Poll Read Pair) :=
  [moves .k0 (.poll 0 poll (keysOf ["k0", "k1"])), moves .k0 (.round (.persisted lead)),
   moves .k1 (.poll 0 poll (keysOf ["k0", "k1"]))]

/- k1 validates the proposal and answers it. -/
def answers (r : R) (read : Read) (tid : ℕ) : List (Move R Poll Read Pair) :=
  [moves .k1 (.round (.deliver (proposal rail r))), moves .k1 (.validated tid 0 read),
   moves .k0 (.round (.deliver (preparedBy rail "k1" r)))]

def commits (i : Pair) (key : String) (r : R) : Move R Poll Read Pair :=
  moves i (.round (.deliver (committedBy rail key r)))

def stores (i : Pair) (wid : ℕ) : Move R Poll Read Pair := moves i (.write wid (.stored true))

def policyConfig : Policy.Config where
  gates := headerGates
  sha256 := sampleSha256
  network := "testnet"
  bridgeActive := fun _ => true
  policyActive := fun _ => true
  listShareActive := fun _ => false
  toLowerCase := StakeWeightedQuorum.asciiLower
  collate := StakeWeightedQuorum.asciiLower

abbrev policies := Policy.rail policyConfig

abbrev policyHubs : Federation Policy.Row Pair :=
  (pairSeats policies.engine).federation policies.engine

theorem policy_hubs_honest : policyHubs.Honest :=
  ⟨fun i => by cases i <;> rfl, fun i => by cases i <;> rfl, by decide, by decide,
    by decide, by decide⟩

theorem policy_hubs_overlap : policyHubs.HonestOverlap :=
  Federation.count_mode_overlap rfl (by decide)

def answerOf (sleeping : Bool) : Policy.Answer :=
  ⟨.null, .null, .null, .null, sleeping, Policy.policyHash sampleSha256 .absent .absent sleeping⟩

def policyPoll (block : ℕ) (sleeping : Bool) : Policy.Poll :=
  ⟨"BTC", "XCHAIN", block, some (block + 800), some (answerOf sleeping), "1000",
    some ⟨none, none, none⟩⟩

def policyRead (block : ℕ) (sleeping : Bool) : Policy.Read := ⟨400, some block, some (answerOf sleeping)⟩

/- The first snapshot that a poll over an empty table proposes. -/
def policyRow (block : ℕ) (sleeping : Bool) : Policy.Row :=
  Policy.buildRow policyConfig (policyPoll block sleeping) 1 (block + 800)
    ⟨.absent, .absent, sleeping, false⟩ (answerOf sleeping).policyHash ⟨none, none, none⟩

/- The token wakes at block 100 and sleeps at block 101, both rounds in flight at seq 1. -/
def twoContents : List (Move Policy.Row Policy.Poll Policy.Read Pair) :=
  opens (policyPoll 100 false) 0 ++ opens (policyPoll 101 true) 2 ++
    answers policies (policyRow 100 false) (policyRead 100 false) 0 ++
    answers policies (policyRow 101 true) (policyRead 101 true) 1 ++
    [commits policies .k0 "k1" (policyRow 100 false), commits policies .k0 "k1" (policyRow 101 true),
     commits policies .k1 "k0" (policyRow 101 true), commits policies .k1 "k0" (policyRow 100 false),
     stores .k0 0, stores .k0 1, stores .k1 0, stores .k1 1]

/- The run with its admission and the row each hub mirrors. -/
def contentsStored : { moves : List (Move Policy.Row Policy.Poll Policy.Read Pair) //
    Admitted (federationStep policies (pairSeats policies.engine))
      (Setting policies (pairSeats policies.engine)) started moves ∧
    (policyRow 100 false ∈
        (run (federationStep policies (pairSeats policies.engine)) started moves .k0).mirrored ∧
      policyRow 101 true ∈
        (run (federationStep policies (pairSeats policies.engine)) started moves .k1).mirrored) } :=
  ⟨twoContents, by decide +kernel⟩

/-- Two honest hubs and no fault: k0 stores and mirrors the waking policy at seq 1, k1 the
    sleeping one. -/
theorem two_contents_stored :
    policyHubs.Honest ∧ policyHubs.HonestOverlap ∧
    Admitted (federationStep policies (pairSeats policies.engine))
      (Setting policies (pairSeats policies.engine)) started twoContents ∧
    (policyRow 100 false ∈
        (run (federationStep policies (pairSeats policies.engine)) started twoContents .k0).mirrored ∧
      policyRow 101 true ∈
        (run (federationStep policies (pairSeats policies.engine)) started twoContents .k1).mirrored) ∧
    Policy.version (policyRow 100 false) = Policy.version (policyRow 101 true) ∧
    (policyRow 100 false).policyHash ≠ (policyRow 101 true).policyHash := by
  obtain ⟨admitted, mirrored⟩ := contentsStored.property
  refine ⟨policy_hubs_honest, policy_hubs_overlap, admitted, mirrored, ?_⟩
  decide +kernel

/- Only the first round. -/
def onePolicy : List (Move Policy.Row Policy.Poll Policy.Read Pair) :=
  opens (policyPoll 100 false) 0 ++ answers policies (policyRow 100 false) (policyRead 100 false) 0 ++
    [commits policies .k0 "k1" (policyRow 100 false), commits policies .k1 "k0" (policyRow 100 false),
     stores .k0 0, stores .k1 0]

def listConfig : ListShare.Config where
  gates := { headerGates with admissionEra := fun _ _ => true }
  sha256 := sampleSha256
  network := "testnet"
  producer := fun _ => true
  listMeta := fun _ _ => false
  confirmations := fun _ => some 6
  collate := StakeWeightedQuorum.asciiLower

abbrev lists := ListShare.rail listConfig

abbrev listHubs : Federation ListShare.Snapshot Pair :=
  (pairSeats lists.engine).federation lists.engine

theorem list_hubs_honest : listHubs.Honest :=
  ⟨fun i => by cases i <;> rfl, fun i => by cases i <;> rfl, by decide, by decide,
    by decide, by decide⟩

theorem list_hubs_overlap : listHubs.HonestOverlap :=
  Federation.count_mode_overlap rfl (by decide)

def listRead : ListShare.Read :=
  ⟨1, [], ListShare.listMembersHash sampleSha256 [], none, none, none⟩

theorem home_allowed : "BTC" ∈ ListShare.allowedChains := by decide +kernel

theorem index_safe : 7 ≤ CanonicalInt.maxSafeInteger := by decide

theorem block_safe : 100 ≤ CanonicalInt.maxSafeInteger := by decide

def listOf : ListShare.ListRef := ⟨"testnet", ⟨"BTC", home_allowed⟩, ⟨7, index_safe⟩⟩

def heights : MirrorAdmissionGate.AdmitColumns := ⟨some (.number 5), some (.number 6), some (.number 7)⟩

def listPoll : ListShare.SharePoll := ⟨listOf, ⟨900, by decide⟩, ⟨100, block_safe⟩, some listRead, some heights⟩

def listRow : ListShare.Snapshot :=
  ListShare.shareSnapshot listConfig
    ⟨100, "testnet", "BTC", 7, 1, 1, .full, "[]", "[]", listRead.hash, 900, none, none, none⟩ heights

def oneList : List (Move ListShare.Snapshot ListShare.SharePoll ListShare.ShareRead Pair) :=
  opens listPoll 0 ++ answers lists listRow ⟨some 100, some [⟨7, 1⟩], some 1000, some listRead⟩ 0 ++
    [commits lists .k0 "k1" listRow, commits lists .k1 "k0" listRow, stores .k0 0, stores .k1 0]

/- The runs of one round with their admission and the row both hubs mirror. -/
def policyStored : { moves : List (Move Policy.Row Policy.Poll Policy.Read Pair) //
    Admitted (federationStep policies (pairSeats policies.engine))
        (Guard policies (pairSeats policies.engine)) started moves ∧
      ∀ i, policyRow 100 false ∈
        (run (federationStep policies (pairSeats policies.engine)) started moves i).mirrored } :=
  ⟨onePolicy, by decide +kernel⟩

def listStored : { moves : List (Move ListShare.Snapshot ListShare.SharePoll ListShare.ShareRead
      Pair) //
    Admitted (federationStep lists (pairSeats lists.engine))
        (Guard lists (pairSeats lists.engine)) started moves ∧
      ∀ i, listRow ∈
        (run (federationStep lists (pairSeats lists.engine)) started moves i).mirrored } :=
  ⟨oneList, by decide +kernel⟩

/-- Both hubs mirror the one round's policy, and whatever k1 holds at its version has its
    hash; the same for the one round's list. -/
theorem one_round_stored :
    ((∀ i, policyRow 100 false ∈
        (run (federationStep policies (pairSeats policies.engine)) started onePolicy i).mirrored) ∧
      ∀ s, (run (federationStep policies (pairSeats policies.engine)) started onePolicy .k1).Holds s →
        "testnet" = s.network → "BTC" = s.originChain → "XCHAIN" = s.tick → 1 = s.policySeq →
        (policyRow 100 false).policyHash = s.policyHash) ∧
    (∀ i, listRow ∈
        (run (federationStep lists (pairSeats lists.engine)) started oneList i).mirrored) ∧
      ∀ s, (run (federationStep lists (pairSeats lists.engine)) started oneList .k1).Holds s →
        "testnet" = s.network → "BTC" = s.homeChain → 7 = s.homeListIndex → 1 = s.seq →
        listRow.membersHash = s.membersHash ∧ listRow.metaText = s.metaText := by
  obtain ⟨policyRun, policies_stored⟩ := policyStored.property
  obtain ⟨listRun, lists_stored⟩ := listStored.property
  exact ⟨⟨policies_stored, fun s => one_content_per_version.1 policyConfig (pairSeats policies.engine)
      policy_hubs_honest policy_hubs_overlap onePolicy policyRun .k0 .k1 _ s
      (Or.inr (policies_stored .k0))⟩,
    lists_stored, fun s => one_content_per_version.2 listConfig (pairSeats lists.engine)
      list_hubs_honest list_hubs_overlap oneList listRun .k0 .k1 _ s
      (Or.inr (lists_stored .k0))⟩

end Fixtures
end XChainHub.CrossChain.Snapshots
