import XChainHub.Anchor.CheckpointEngine.CanonicalForms

/-!
What a hub reads out of a FINALIZED broadcast: normalizeCheckpoint of sign.js and
the guards of handleFinalized and acceptFinalized in finalize.js, and why a signed
string has one reading among the records that pass them.
-/
namespace XChainHub.Anchor.CheckpointEngine
open NumberText ScriptValue HexText EquivocationHeader DelimitedText

def allowedChains : List String := ["BTC", "LTC", "DOGE"]

def nullable {α : Type} (v : Value) (read : Value → α) : Option α :=
  if v.isNullish then none else some (read v)

section Reading
variable (js : Builtins)

def lowerText (v : Value) : String := js.toLowerCase v.asText

def normalizeCheckpoint (raw : Value) : Option Checkpoint :=
  if raw.isFalsy || (raw.field "chain").isFalsy || (raw.field "network").isFalsy ||
      (raw.field "block_index").isNullish then none
  else
    let chain := js.toUpperCase (raw.field "chain").asText
    if chain ∉ allowedChains then none
    else some
      { chain
        network := (raw.field "network").asText
        blockIndex := (raw.field "block_index").asNumber js
        blockHash := lowerText js ((raw.field "block_hash").orElse (.text ""))
        ledgerHash := lowerText js ((raw.field "ledger_hash").orElse (.text ""))
        actionsHash := lowerText js ((raw.field "actions_hash").orElse (.text ""))
        contractHash := lowerText js ((raw.field "contract_hash").orElse (.text ""))
        checkpointSeq := (raw.field "checkpoint_seq").asNumber js
        snapshotBlock := (raw.field "snapshot_block").asNumber js
        stateRoot := nullable (raw.field "state_root") (lowerText js)
        stateRootVersion := nullable (raw.field "state_root_version") (Value.asNumber js)
        blockMerkleRoot := nullable (raw.field "block_merkle_root") (lowerText js)
        blockMerkleVersion := nullable (raw.field "block_merkle_version") (Value.asNumber js)
        supersedesFrom := nullable (raw.field "supersedes_from") (Value.asNumber js)
        rulesDigest := Value.ofOption .text (nullable (raw.field "rules_digest") (lowerText js)) }

def normalizeFinalizedCheckpoint (raw : Value) : Option Checkpoint :=
  (normalizeCheckpoint js raw).map (fun cp =>
    { cp with
      supersedesFrom := nullable (raw.field "supersedes_from") (Value.asNumber js)
      rulesDigest :=
        match raw.field "rules_digest" with
        | .text digest => .text (js.toLowerCase digest)
        | .undefined => .null
        | other => other })

end Reading

section Guards
variable (gates : Gates)

def supersedeRefused (cp : Checkpoint) : Bool :=
  hasSupersedeFields cp && !isCheckpointSupersedeActive gates cp

/- False where assertCheckpointNetwork throws; an unscoped hub only warns. -/
def networkAccepted (deployment : String) (cp : Checkpoint) : Bool :=
  cp.network = "" || deployment = "" || cp.network = deployment

def finalizedGuards (deployment : String) (cp : Checkpoint) : Bool :=
  !supersedeRefused gates cp &&
    strictEquals cp.checkpointSeq (deriveCheckpointSeq cp.snapshotBlock) &&
    networkAccepted deployment cp && !isRootless gates cp

/- A record as an honest hub builds it from its own indexer. -/
structure Served (c : Checkpoint) : Prop where
  chain : c.chain ∈ allowedChains
  network : Plain c.network
  hashes : ∀ h ∈ [c.blockHash, c.ledgerHash, c.actionsHash, c.contractHash], LowerHex 64 h
  seq : c.checkpointSeq = deriveCheckpointSeq c.snapshotBlock
  stateRoot : ∀ r ∈ c.stateRoot, LowerHex 64 r
  merkleRoot : ∀ r ∈ c.blockMerkleRoot, LowerHex 64 r
  digest : c.rulesDigest = .null ∨ ∃ d, LowerHex 64 d ∧ c.rulesDigest = .text d
  rooted : isRootless gates c = false

def Checkpoint.withoutRoots (cp : Checkpoint) : Checkpoint :=
  { cp with
    stateRoot := none, stateRootVersion := none, blockMerkleRoot := none
    blockMerkleVersion := none }

end Guards

section Cells

def IsNumber (cell : Cell) : Prop := ∃ n : Number, n.chars = cell

theorem bar_cells_plain {s : String} (plain : Plain s) : barCells s = [s.toList] :=
  List.splitOn_eq_singleton plain

theorem number_text_plain (n : Number) : Plain n.text := by
  rw [Plain, Number.text, String.toList_ofList]
  exact number_plain (by decide) (by decide) n

theorem bar_cells_number (n : Number) : barCells n.text = [n.chars] := by
  rw [bar_cells_plain (number_text_plain n), Number.text, String.toList_ofList]

theorem hex_plain {s : String} (hex : isHex64 s = true) : Plain s := by
  intro bar
  simp only [isHex64, Bool.and_eq_true, List.all_eq_true] at hex
  exact absurd (hex.2 '|' bar) (by decide)

/-- Sixty-four hexadecimal characters are never the text of a number. -/
theorem lower_hex_not_number {s : String} (hex : LowerHex 64 s) : ¬ IsNumber s.toList := by
  intro ⟨n, shown⟩
  have long : 21 < n.chars.length := by
    rw [shown, hex.1]
    omega
  rcases long_number_marked n long with mark | mark | mark <;> rw [shown] at mark
  · exact absurd (hex.2 _ mark) (by decide)
  · exact absurd (hex.2 _ mark) (by decide)
  · exact absurd (hex.2 _ mark) (by decide)

theorem marker_not_number : ¬ IsNumber "SUPERSEDE".toList := by
  intro ⟨n, shown⟩
  have member : 'S' ∈ n.chars := by
    rw [shown]
    decide
  exact number_plain (by decide) (by decide) n member

end Cells

section Canonical
variable {js : Builtins} {gates : Gates}

/- Case mapping leaves the roots and the digest of a record as they are. -/
structure Lowered (js : Builtins) (cp : Checkpoint) : Prop where
  stateRoot : ∀ r ∈ cp.stateRoot, js.toLowerCase r = r
  merkleRoot : ∀ r ∈ cp.blockMerkleRoot, js.toLowerCase r = r
  digest : ∀ d, cp.rulesDigest = .text d → js.toLowerCase d = d

def hashCells (cp : Checkpoint) : List Cell :=
  barCells cp.blockHash ++ (barCells cp.ledgerHash ++
    (barCells cp.actionsHash ++ barCells cp.contractHash))

def frontCells (cp : Checkpoint) : List Cell :=
  "XCHECKPOINT".toList :: (barCells cp.chain ++ (barCells cp.network ++
    cp.blockIndex.chars :: hashCells cp))

def headerCells (gates : Gates) (cp : Checkpoint) : List Cell :=
  if isEquivHeaderActive gates.equivHeader cp.snapshotBlock.parseInt cp.network then
    "EQUIV".toList :: "XCHECKPOINT".toList :: (barCells cp.chain ++ (barCells cp.network ++
      [cp.blockIndex.chars, cp.checkpointSeq.chars, "0".toList, []]))
  else []

def rootCells (gates : Gates) (cp : Checkpoint) : List Cell :=
  if isCheckpointCommitmentActive gates cp then
    match cp.stateRoot, cp.blockMerkleRoot, cp.stateRootVersion, cp.blockMerkleVersion with
    | some stateRoot, some merkleRoot, some stateVersion, some merkleVersion =>
      barCells stateRoot ++ stateVersion.chars :: (barCells merkleRoot ++ [merkleVersion.chars])
    | _, _, _, _ => []
  else []

def supersedeCells (cp : Checkpoint) : List Cell :=
  match cp.supersedesFrom, cp.rulesDigest with
  | some source, .text digest => ["SUPERSEDE".toList, source.chars, digest.toList]
  | _, _ => []

theorem raw_cells (cp : Checkpoint) :
    barCells (rawCanonicalCheckpoint cp) =
      frontCells cp ++ [cp.checkpointSeq.chars, cp.snapshotBlock.chars] := by
  rw [rawCanonicalCheckpoint, bar_cells_join (by simp [rawFields])]
  simp only [rawFields, List.flatMap_cons, List.flatMap_nil, bar_cells_number, frontCells,
    hashCells]
  rw [show barCells "XCHECKPOINT" = ["XCHECKPOINT".toList] by decide]
  simp

theorem root_suffix_cells {cp : Checkpoint} (lowered : Lowered js cp) (a : String) :
    barCells (a ++ checkpointRootSuffix js gates cp) = barCells a ++ rootCells gates cp := by
  unfold checkpointRootSuffix rootCells
  split
  · split
    · rename_i stateRoot stateVersion merkleRoot merkleVersion state_eq sv_eq merkle_eq mv_eq
      rw [lowered.stateRoot stateRoot state_eq, lowered.merkleRoot merkleRoot merkle_eq,
        ← String.append_assoc, bar_cells_append, bar_cells_join (by simp), state_eq, sv_eq,
        merkle_eq, mv_eq]
      simp [bar_cells_number]
    · rename_i partly
      split
      · rename_i state_eq merkle_eq sv_eq mv_eq
        exact (partly _ _ _ _ state_eq sv_eq merkle_eq mv_eq).elim
      · simp
  · simp

theorem supersede_suffix_cells {cp : Checkpoint} (lowered : Lowered js cp) {suffix : String}
    (built : checkpointSupersedeSuffix js gates cp = some suffix) (a : String) :
    barCells (a ++ suffix) = barCells a ++ supersedeCells cp := by
  unfold checkpointSupersedeSuffix at built
  split at built
  · unfold supersedeSuffix at built
    split at built
    · rename_i absent
      split at built
      · rw [Option.some.injEq] at built
        subst built
        simp [supersedeCells, absent]
      · exact absurd built (by simp)
    · rename_i source digest source_eq digest_eq
      split at built
      · rename_i checked
        rw [Bool.and_eq_true] at checked
        rw [Option.some.injEq] at built
        subst built
        rw [lowered.digest digest digest_eq]
        have shape : a ++ ("|SUPERSEDE|" ++ source.text ++ "|" ++ digest) =
            a ++ "|" ++ ("SUPERSEDE" ++ "|" ++ (source.text ++ "|" ++ digest)) := by
          simp only [← String.toList_inj, String.toList_append]
          simp
        rw [shape, bar_cells_append, bar_cells_append, bar_cells_append, bar_cells_number,
          show barCells "SUPERSEDE" = ["SUPERSEDE".toList] by decide,
          bar_cells_plain (hex_plain checked.2)]
        simp [supersedeCells, source_eq, digest_eq]
      · exact absurd built (by simp)
    · exact absurd built (by simp)
  · split at built
    · exact absurd built (by simp)
    · rename_i inactive bare
      rw [Option.some.injEq] at built
      subst built
      have absent : cp.supersedesFrom = none := by
        cases shape : cp.supersedesFrom with
        | none => rfl
        | some source => simp [hasSupersedeFields, shape] at bare
      simp [supersedeCells, absent]

/-- The cells of a signed string: header, record, roots and supersession. -/
theorem canonical_cells {cp : Checkpoint} (lowered : Lowered js cp) {s : String}
    (signed : canonicalCheckpoint js gates cp = some s) :
    barCells s = (headerCells gates cp ++ frontCells cp) ++
      cp.checkpointSeq.chars :: cp.snapshotBlock.chars ::
        (rootCells gates cp ++ supersedeCells cp) := by
  unfold canonicalCheckpoint at signed
  split at signed
  · exact absurd signed (by simp)
  · rename_i suffix built
    have content := supersede_suffix_cells lowered built
      (rawCanonicalCheckpoint cp ++ checkpointRootSuffix js gates cp)
    rw [root_suffix_cells lowered, raw_cells] at content
    simp only at signed
    unfold headerCells
    split at signed
    · rename_i active
      rw [Option.some.injEq] at signed
      rw [if_pos active, ← signed, barCells, equiv_canonical_chars,
        List.splitOn_append_cons_self, List.splitOn_append_cons_self,
        List.splitOn_append_cons_self, List.splitOn_append_cons_self, ← List.nil_append ('|' :: _),
        List.splitOn_append_cons_self]
      have round : (checkpointRoundId cp).toList.splitOn '|' =
          barCells cp.chain ++ (barCells cp.network ++
            [cp.blockIndex.chars, cp.checkpointSeq.chars]) := by
        change barCells (checkpointRoundId cp) = _
        rw [checkpointRoundId, bar_cells_append, bar_cells_append, bar_cells_append,
          bar_cells_number, bar_cells_number]
        simp
      unfold barCells at content
      rw [round, content]
      have tag : checkpointTag.toList.splitOn '|' = ["XCHECKPOINT".toList] := by decide
      have name : "EQUIV".toList.splitOn '|' = ["EQUIV".toList] := by decide
      have view : "0".toList.splitOn '|' = ["0".toList] := by decide
      rw [tag, name, view]
      simp
    · rename_i inactive
      rw [Option.some.injEq] at signed
      rw [if_neg inactive, ← signed, content]
      simp

end Canonical

section OneReading
variable {js : Builtins} {gates : Gates}

theorem supersede_parts {cp : Checkpoint} {suffix : String}
    (built : checkpointSupersedeSuffix js gates cp = some suffix) :
    (cp.supersedesFrom = none ∧ cp.rulesDigest.isNullish = true ∧ supersedeCells cp = []) ∨
      ∃ source digest, cp.supersedesFrom = some source ∧ cp.rulesDigest = .text digest ∧
        supersedeCells cp = ["SUPERSEDE".toList, source.chars, digest.toList] := by
  have bare : cp.supersedesFrom = none → supersedeCells cp = [] := by
    intro absent
    rw [supersedeCells, absent]
  unfold checkpointSupersedeSuffix at built
  split at built
  · unfold supersedeSuffix at built
    split at built
    · rename_i absent
      split at built
      · rename_i nullish
        exact Or.inl ⟨absent, nullish, bare absent⟩
      · exact absurd built (by simp)
    · rename_i source digest source_eq digest_eq
      right
      exact ⟨source, digest, source_eq, digest_eq, by rw [supersedeCells, source_eq, digest_eq]⟩
    · exact absurd built (by simp)
  · split at built
    · exact absurd built (by simp)
    · rename_i unmarked
      simp only [hasSupersedeFields, Bool.or_eq_true, Option.isSome_iff_ne_none, ne_eq,
        Bool.not_eq_true', not_or, not_not, Bool.not_eq_false] at unmarked
      exact Or.inl ⟨unmarked.1, unmarked.2, bare unmarked.1⟩

theorem root_parts {cp : Checkpoint} (active : isCheckpointCommitmentActive gates cp = true)
    (rooted : isRootless gates cp = false) :
    ∃ stateRoot stateVersion merkleRoot merkleVersion,
      cp.stateRoot = some stateRoot ∧ cp.stateRootVersion = some stateVersion ∧
      cp.blockMerkleRoot = some merkleRoot ∧ cp.blockMerkleVersion = some merkleVersion ∧
      rootCells gates cp = barCells stateRoot ++ stateVersion.chars ::
        (barCells merkleRoot ++ [merkleVersion.chars]) := by
  unfold isRootless at rooted
  rw [active, Bool.true_and] at rooted
  simp only [Bool.or_eq_false_iff] at rooted
  obtain ⟨⟨⟨root, merkle⟩, version⟩, merkle_version⟩ := rooted
  cases root_eq : cp.stateRoot with
  | none => simp [emptyOrNull, root_eq] at root
  | some stateRoot =>
    cases merkle_eq : cp.blockMerkleRoot with
    | none => simp [emptyOrNull, merkle_eq] at merkle
    | some merkleRoot =>
      cases version_eq : cp.stateRootVersion with
      | none => simp [version_eq] at version
      | some stateVersion =>
        cases merkle_version_eq : cp.blockMerkleVersion with
        | none => simp [merkle_version_eq] at merkle_version
        | some merkleVersion =>
          exact ⟨stateRoot, stateVersion, merkleRoot, merkleVersion, rfl, rfl, rfl, rfl, by
            rw [rootCells, if_pos active, root_eq, version_eq, merkle_eq, merkle_version_eq]⟩

theorem served_lowered {c : Checkpoint} (served : Served gates c) : Lowered js c := by
  constructor
  · intro r held
    exact lower_hex_fixed js (served.stateRoot r held)
  · intro r held
    exact lower_hex_fixed js (served.merkleRoot r held)
  · intro d held
    rcases served.digest with null | ⟨d', hex, digest⟩
    · rw [null] at held
      exact absurd held (by simp)
    · rw [held, Value.text.injEq] at digest
      rw [digest]
      exact lower_hex_fixed js hex

/-- After the snapshot block of a served record no two adjacent cells are numbers. -/
theorem served_rest_apart {c : Checkpoint} (served : Served gates c) {suffix : String}
    (built : checkpointSupersedeSuffix js gates c = some suffix) :
    (c.snapshotBlock.chars :: (rootCells gates c ++ supersedeCells c)).IsChain
      (fun x y => ¬ (IsNumber x ∧ IsNumber y)) := by
  have marked : ∀ before : Cell, (before :: supersedeCells c).IsChain
      (fun x y => ¬ (IsNumber x ∧ IsNumber y)) := by
    intro before
    rcases supersede_parts built with ⟨-, -, none_left⟩ | ⟨source, digest, -, digest_eq, cells⟩
    · rw [none_left]
      exact List.isChain_singleton _
    · have hex : LowerHex 64 digest := by
        rcases served.digest with null | ⟨d, hex, held⟩
        · rw [null] at digest_eq
          exact absurd digest_eq (by simp)
        · rw [held, Value.text.injEq] at digest_eq
          rw [← digest_eq]
          exact hex
      rw [cells]
      simp only [List.isChain_cons_cons, List.isChain_singleton, and_true]
      exact ⟨fun both => marker_not_number both.2, fun both => marker_not_number both.1,
        fun both => lower_hex_not_number hex both.2⟩
  by_cases active : isCheckpointCommitmentActive gates c = true
  · obtain ⟨stateRoot, stateVersion, merkleRoot, merkleVersion, root_eq, -, merkle_eq, -, cells⟩ :=
      root_parts active served.rooted
    have root := served.stateRoot stateRoot root_eq
    have merkle := served.merkleRoot merkleRoot merkle_eq
    rw [cells, bar_cells_plain (root.plain), bar_cells_plain (merkle.plain)]
    simp only [List.cons_append, List.nil_append, List.isChain_cons_cons]
    exact ⟨fun both => lower_hex_not_number root both.2,
      fun both => lower_hex_not_number root both.1,
      fun both => lower_hex_not_number merkle both.2,
      fun both => lower_hex_not_number merkle both.1, marked _⟩
  · rw [rootCells, if_neg active, List.nil_append]
    exact marked _

theorem allowed_plain {chain : String} (allowed : chain ∈ allowedChains) : Plain chain := by
  simp only [allowedChains, List.mem_cons, List.not_mem_nil, or_false] at allowed
  rcases allowed with rfl | rfl | rfl <;> (rw [Plain]; decide)

theorem hash_cells_length (cp : Checkpoint) : 4 ≤ (hashCells cp).length := by
  have block := List.length_pos_iff.mpr (bar_cells_ne_nil cp.blockHash)
  have ledger := List.length_pos_iff.mpr (bar_cells_ne_nil cp.ledgerHash)
  have actions := List.length_pos_iff.mpr (bar_cells_ne_nil cp.actionsHash)
  have contract := List.length_pos_iff.mpr (bar_cells_ne_nil cp.contractHash)
  simp only [hashCells, List.length_append]
  omega

theorem served_hash_cells {c : Checkpoint} (served : Served gates c) :
    hashCells c = [c.blockHash.toList, c.ledgerHash.toList, c.actionsHash.toList,
      c.contractHash.toList] := by
  have plain : ∀ h ∈ [c.blockHash, c.ledgerHash, c.actionsHash, c.contractHash],
      barCells h = [h.toList] := by
    intro h member
    exact bar_cells_plain ((served.hashes h member).plain)
  rw [hashCells, plain _ (by simp), plain _ (by simp), plain _ (by simp), plain _ (by simp)]
  rfl

theorem front_cells_length {cp : Checkpoint} (allowed : cp.chain ∈ allowedChains) :
    (frontCells cp).length = 3 + (barCells cp.network).length + (hashCells cp).length := by
  rw [frontCells, bar_cells_plain (allowed_plain allowed)]
  simp only [List.length_cons, List.length_append, List.length_nil]
  omega

theorem header_cells_length (gates : Gates) {cp : Checkpoint} (allowed : cp.chain ∈ allowedChains) :
    (headerCells gates cp).length =
      if isEquivHeaderActive gates.equivHeader cp.snapshotBlock.parseInt cp.network
      then 7 + (barCells cp.network).length else 0 := by
  unfold headerCells
  split
  · rw [bar_cells_plain (allowed_plain allowed)]
    simp only [List.length_cons, List.length_append, List.length_nil]
    omega
  · rfl

/-- Whatever the fields of the other record, its sequence and snapshot block stand where the
    served record has them. -/
theorem front_aligned {c cp : Checkpoint} (served : Served gates c) {suffix : String}
    (built : checkpointSupersedeSuffix js gates c = some suffix)
    (allowed : cp.chain ∈ allowedChains) {rest : List Cell}
    (same : (headerCells gates cp ++ frontCells cp) ++
        cp.checkpointSeq.chars :: cp.snapshotBlock.chars :: rest =
      (headerCells gates c ++ frontCells c) ++ c.checkpointSeq.chars :: c.snapshotBlock.chars ::
        (rootCells gates c ++ supersedeCells c)) :
    (headerCells gates cp).length = (headerCells gates c).length ∧
      headerCells gates cp ++ frontCells cp = headerCells gates c ++ frontCells c ∧
      cp.checkpointSeq = c.checkpointSeq ∧ cp.snapshotBlock = c.snapshotBlock ∧
      rest = rootCells gates c ++ supersedeCells c := by
  have network := List.length_pos_iff.mpr (bar_cells_ne_nil cp.network)
  have hashes := hash_cells_length cp
  have served_hashes : (hashCells c).length = 4 := by rw [served_hash_cells served]; rfl
  have served_network : (barCells c.network).length = 1 := by
    rw [bar_cells_plain served.network]
    rfl
  have front := front_cells_length allowed
  have served_front := front_cells_length served.chain
  have header := header_cells_length gates allowed
  have served_header := header_cells_length gates served.chain
  have marked : isEquivHeaderActive gates.equivHeader cp.snapshotBlock.parseInt cp.network =
      isEquivHeaderActive gates.equivHeader c.snapshotBlock.parseInt c.network := by
    have first := congrArg List.head? same
    unfold headerCells frontCells at first
    cases one : isEquivHeaderActive gates.equivHeader cp.snapshotBlock.parseInt cp.network <;>
      cases other : isEquivHeaderActive gates.equivHeader c.snapshotBlock.parseInt c.network <;>
      simp [one, other] at first ⊢
  rw [← marked] at served_header
  have long : (headerCells gates c ++ frontCells c).length ≤
      (headerCells gates cp ++ frontCells cp).length := by
    rw [List.length_append, List.length_append, header, served_header, front, served_front]
    split <;> omega
  have seq_number : IsNumber cp.checkpointSeq.chars := ⟨_, rfl⟩
  have block_number : IsNumber cp.snapshotBlock.chars := ⟨_, rfl⟩
  obtain ⟨fronts, seq, block, rest_eq⟩ :=
    adjacent_aligned (served_rest_apart served built) seq_number block_number long same
  have lengths := congrArg List.length fronts
  rw [List.length_append, List.length_append, header, served_header, front, served_front]
    at lengths
  have one : (headerCells gates cp).length = (headerCells gates c).length := by
    rw [header, served_header]
    split at lengths
    · rw [if_pos (by assumption), if_pos (by assumption)]
      omega
    · rw [if_neg (by assumption), if_neg (by assumption)]
  exact ⟨one, fronts, chars_inj seq, chars_inj block, rest_eq⟩

theorem single_of_length {text other : String} {before after : List Cell}
    (single : (barCells text).length = 1)
    (same : barCells text ++ before = other.toList :: after) : text = other ∧ before = after := by
  obtain ⟨cell, cells⟩ := List.length_eq_one_iff.mp single
  rw [cells, List.singleton_append, List.cons.injEq] at same
  rw [← bar_cells_single cells, String.toList_inj] at same
  exact same

theorem front_fields {c cp : Checkpoint} (served : Served gates c)
    (allowed : cp.chain ∈ allowedChains) (same : frontCells cp = frontCells c) :
    cp.chain = c.chain ∧ cp.network = c.network ∧ cp.blockIndex = c.blockIndex ∧
      cp.blockHash = c.blockHash ∧ cp.ledgerHash = c.ledgerHash ∧
      cp.actionsHash = c.actionsHash ∧ cp.contractHash = c.contractHash := by
  have lengths := congrArg List.length same
  rw [front_cells_length allowed, front_cells_length served.chain, served_hash_cells served,
    bar_cells_plain served.network] at lengths
  have network := List.length_pos_iff.mpr (bar_cells_ne_nil cp.network)
  have block := List.length_pos_iff.mpr (bar_cells_ne_nil cp.blockHash)
  have ledger := List.length_pos_iff.mpr (bar_cells_ne_nil cp.ledgerHash)
  have actions := List.length_pos_iff.mpr (bar_cells_ne_nil cp.actionsHash)
  have contract := List.length_pos_iff.mpr (bar_cells_ne_nil cp.contractHash)
  simp only [hashCells, List.length_append, List.length_cons, List.length_nil] at lengths
  unfold frontCells at same
  rw [bar_cells_plain (allowed_plain allowed), bar_cells_plain (allowed_plain served.chain),
    bar_cells_plain served.network, served_hash_cells served, List.cons.injEq] at same
  simp only [List.singleton_append, List.cons.injEq, String.toList_inj, true_and] at same
  obtain ⟨chain, rest⟩ := same
  obtain ⟨network_eq, rest⟩ := single_of_length (by omega) rest
  rw [List.cons.injEq] at rest
  obtain ⟨index, rest⟩ := rest
  unfold hashCells at rest
  obtain ⟨block_eq, rest⟩ := single_of_length (by omega) rest
  obtain ⟨ledger_eq, rest⟩ := single_of_length (by omega) rest
  obtain ⟨actions_eq, rest⟩ := single_of_length (by omega) rest
  rw [← List.append_nil (barCells cp.contractHash)] at rest
  obtain ⟨contract_eq, -⟩ := single_of_length (by omega) rest
  exact ⟨chain, network_eq, chars_inj index, block_eq, ledger_eq, actions_eq, contract_eq⟩

/- The normalized form of a record off the wire. -/
structure Normalized (js : Builtins) (cp : Checkpoint) : Prop where
  chain : cp.chain ∈ allowedChains
  lowered : Lowered js cp
  digest : cp.rulesDigest.isNullish = true → cp.rulesDigest = .null

theorem nullable_lower {v : Value} : ∀ r ∈ nullable v (lowerText js), js.toLowerCase r = r := by
  intro r held
  unfold nullable at held
  split at held
  · exact absurd held (by simp)
  · rw [Option.mem_some_iff] at held
    rw [← held, lowerText, js.lower_twice]

theorem normalized_of_read {w : Value} {cp : Checkpoint}
    (read : normalizeFinalizedCheckpoint js w = some cp) : Normalized js cp := by
  unfold normalizeFinalizedCheckpoint at read
  rw [Option.map_eq_some_iff] at read
  obtain ⟨base, base_eq, rfl⟩ := read
  unfold normalizeCheckpoint at base_eq
  split at base_eq
  · exact absurd base_eq (by simp)
  · simp only at base_eq
    split at base_eq
    · exact absurd base_eq (by simp)
    · rename_i allowed
      rw [Option.some.injEq] at base_eq
      subst base_eq
      refine ⟨not_not.mp allowed, ⟨nullable_lower, nullable_lower, ?_⟩, ?_⟩
      · intro d held
        cases shape : w.field "rules_digest" with
        | text digest =>
          simp only [shape, Value.text.injEq] at held
          rw [← held, js.lower_twice]
        | _ => simp [shape] at held
      · intro nullish
        cases shape : w.field "rules_digest" with
        | null => rfl
        | undefined => rfl
        | _ => simp [shape, Value.isNullish] at nullish

theorem rest_fields {c cp : Checkpoint} (served : Served gates c) (normal : Normalized js cp)
    (rooted : isRootless gates cp = false)
    (gate : isCheckpointCommitmentActive gates cp = isCheckpointCommitmentActive gates c)
    {suffix suffix' : String} (built : checkpointSupersedeSuffix js gates cp = some suffix)
    (built' : checkpointSupersedeSuffix js gates c = some suffix')
    (same : rootCells gates cp ++ supersedeCells cp = rootCells gates c ++ supersedeCells c) :
    cp.supersedesFrom = c.supersedesFrom ∧ cp.rulesDigest = c.rulesDigest ∧
      (isCheckpointCommitmentActive gates c = true → cp.stateRoot = c.stateRoot ∧
        cp.stateRootVersion = c.stateRootVersion ∧ cp.blockMerkleRoot = c.blockMerkleRoot ∧
        cp.blockMerkleVersion = c.blockMerkleVersion) := by
  have null_digest : c.rulesDigest.isNullish = true → c.rulesDigest = .null := by
    intro nullish
    rcases served.digest with null | ⟨d, -, held⟩
    · exact null
    · rw [held] at nullish
      exact absurd nullish (by simp [Value.isNullish])
  have markers : supersedeCells cp = supersedeCells c →
      cp.supersedesFrom = c.supersedesFrom ∧ cp.rulesDigest = c.rulesDigest := by
    intro cells
    rcases supersede_parts built with
        ⟨absent, nullish, bare⟩ | ⟨f, d, from_eq, digest_eq, marked⟩ <;>
      rcases supersede_parts built' with
        ⟨absent', nullish', bare'⟩ | ⟨f', d', from_eq', digest_eq', marked'⟩
    · rw [absent, absent', normal.digest nullish, null_digest nullish']
      exact ⟨rfl, rfl⟩
    · rw [bare, marked'] at cells
      exact absurd cells (by simp)
    · rw [marked, bare'] at cells
      exact absurd cells (by simp)
    · rw [marked, marked'] at cells
      simp only [List.cons.injEq, String.toList_inj, true_and, and_true] at cells
      rw [from_eq, from_eq', digest_eq, digest_eq', chars_inj cells.1, cells.2]
      exact ⟨rfl, rfl⟩
  by_cases active : isCheckpointCommitmentActive gates c = true
  · obtain ⟨r, v, m, mv, root_eq, version_eq, merkle_eq, merkle_version_eq, cells⟩ :=
      root_parts (gate.trans active) rooted
    obtain ⟨r', v', m', mv', root_eq', version_eq', merkle_eq', merkle_version_eq', cells'⟩ :=
      root_parts active served.rooted
    rw [bar_cells_plain ((served.stateRoot r' root_eq').plain),
      bar_cells_plain ((served.merkleRoot m' merkle_eq').plain)] at cells'
    have root_some := List.length_pos_iff.mpr (bar_cells_ne_nil r)
    have merkle_some := List.length_pos_iff.mpr (bar_cells_ne_nil m)
    have sizes : (supersedeCells cp).length = (supersedeCells c).length := by
      have lengths := congrArg List.length same
      rw [List.length_append, List.length_append, cells, cells'] at lengths
      simp only [List.length_append, List.length_cons, List.length_nil] at lengths
      rcases supersede_parts built with ⟨-, -, bare⟩ | ⟨f, d, -, -, marked⟩ <;>
        rcases supersede_parts built' with ⟨-, -, bare'⟩ | ⟨f', d', -, digest_eq', marked'⟩
      · rw [bare, bare']
      · -- the record on the wire would end in a number, the served one in its digest
        have hex : LowerHex 64 d' := by
          rcases served.digest with null | ⟨d, hex, held⟩
          · rw [null] at digest_eq'
            exact absurd digest_eq' (by simp)
          · rw [held, Value.text.injEq] at digest_eq'
            rw [← digest_eq']
            exact hex
        have ends := congrArg List.getLast? same
        rw [bare, cells, marked'] at ends
        simp [List.getLast?_append, List.getLast?_cons] at ends
        exact absurd ⟨mv, ends⟩ (lower_hex_not_number hex)
      · rw [marked, bare'] at lengths
        simp only [List.length_cons, List.length_nil] at lengths
        omega
      · rw [marked, marked']
        rfl
    obtain ⟨roots, markers_eq⟩ := List.append_inj' same sizes
    rw [cells, cells'] at roots
    have lengths := congrArg List.length roots
    simp only [List.length_append, List.length_cons, List.length_nil] at lengths
    simp only [List.singleton_append] at roots
    obtain ⟨root_same, roots⟩ := single_of_length (by omega) roots
    rw [List.cons.injEq] at roots
    obtain ⟨merkle_same, last⟩ := single_of_length (by omega) roots.2
    rw [List.cons.injEq] at last
    obtain ⟨from_same, digest_same⟩ := markers markers_eq
    refine ⟨from_same, digest_same, fun _ => ?_⟩
    rw [root_eq, root_eq', version_eq, version_eq', merkle_eq, merkle_eq', merkle_version_eq,
      merkle_version_eq', root_same, merkle_same, chars_inj roots.1, chars_inj last.1]
    exact ⟨rfl, rfl, rfl, rfl⟩
  · have inactive : isCheckpointCommitmentActive gates cp = false := by
      rw [gate]
      exact Bool.eq_false_iff.mpr active
    unfold rootCells at same
    rw [if_neg active, if_neg (Bool.eq_false_iff.mp inactive), List.nil_append,
      List.nil_append] at same
    obtain ⟨from_same, digest_same⟩ := markers same
    exact ⟨from_same, digest_same, fun contra => absurd contra active⟩

theorem suffix_of_signed {cp : Checkpoint} {s : String}
    (signed : canonicalCheckpoint js gates cp = some s) :
    ∃ suffix, checkpointSupersedeSuffix js gates cp = some suffix := by
  unfold canonicalCheckpoint at signed
  split at signed
  · exact absurd signed (by simp)
  · rename_i suffix built
    exact ⟨suffix, built⟩

/-- Below the commitment flag day the roots are no part of the signed string. -/
theorem canonical_without_roots {cp : Checkpoint}
    (inactive : isCheckpointCommitmentActive gates cp = false) :
    canonicalCheckpoint js gates cp.withoutRoots = canonicalCheckpoint js gates cp := by
  have bare : checkpointRootSuffix js gates cp.withoutRoots = checkpointRootSuffix js gates cp := by
    have other : isCheckpointCommitmentActive gates cp.withoutRoots = false := inactive
    rw [checkpointRootSuffix, checkpointRootSuffix, inactive, other]
    rfl
  unfold canonicalCheckpoint
  rw [bare]
  rfl

/-- A relayed record that passes the guards over a served record's string is that record, its
    roots as well where the string signs them. -/
theorem signed_checkpoint_one_reading (js : Builtins) (gates : Gates) (deployment : String)
    {c cp : Checkpoint} {w : Value} {s : String} (served : Served gates c)
    (signed : canonicalCheckpoint js gates c = some s)
    (read : normalizeFinalizedCheckpoint js w = some cp)
    (passes : finalizedGuards gates deployment cp = true)
    (same : canonicalCheckpoint js gates cp = some s) :
    cp.withoutRoots = c.withoutRoots ∧
      (isCheckpointCommitmentActive gates c = true → cp = c) := by
  have normal := normalized_of_read read
  have rooted : isRootless gates cp = false := by
    unfold finalizedGuards at passes
    rw [Bool.and_eq_true, Bool.not_eq_true'] at passes
    exact passes.2
  obtain ⟨suffix, built⟩ := suffix_of_signed same
  obtain ⟨suffix', built'⟩ := suffix_of_signed signed
  have cells := canonical_cells normal.lowered same
  rw [canonical_cells (served_lowered served) signed] at cells
  obtain ⟨sizes, fronts, seq, block, rest⟩ :=
    front_aligned served built' normal.chain cells.symm
  obtain ⟨chain, network, index, block_hash, ledger, actions, contract⟩ :=
    front_fields served normal.chain (List.append_inj fronts sizes).2
  have gate : isCheckpointCommitmentActive gates cp = isCheckpointCommitmentActive gates c := by
    rw [isCheckpointCommitmentActive, isCheckpointCommitmentActive, network, block]
  obtain ⟨source, digest, roots⟩ := rest_fields served normal rooted gate built built' rest
  obtain ⟨⟩ := cp
  obtain ⟨⟩ := c
  simp only at chain network index block_hash ledger actions contract seq block source digest
  subst chain network index block_hash ledger actions contract seq block source digest
  constructor
  · rfl
  · intro active
    obtain ⟨root, version, merkle, merkle_version⟩ := roots active
    simp only at root version merkle merkle_version
    subst root version merkle merkle_version
    rfl

end OneReading

section Sample

def sampleHash (c : Char) : String := String.ofList (List.replicate 64 c)

def sampleRecord (snapshotBlock : ℕ) (root : Option String) (version : Option Number) :
    Checkpoint where
  chain := "LTC"
  network := "mainnet"
  blockIndex := Number.ofNat 2900000
  blockHash := sampleHash '0'
  ledgerHash := sampleHash 'a'
  actionsHash := sampleHash 'b'
  contractHash := sampleHash 'c'
  checkpointSeq := Number.ofNat snapshotBlock
  snapshotBlock := Number.ofNat snapshotBlock
  stateRoot := root
  stateRootVersion := version
  blockMerkleRoot := root
  blockMerkleVersion := version
  supersedesFrom := none
  rulesDigest := .null

/- A copy off the wire, its numbers spelled as text and its hashes in upper case. -/
def relayed (snapshotBlock : String) (root : String) : Value :=
  .object [("chain", .text "ltc"), ("network", .text "mainnet"),
    ("block_index", .text " 2900000 "), ("block_hash", .text (sampleHash '0')),
    ("ledger_hash", .text (sampleHash 'A')), ("actions_hash", .text (sampleHash 'B')),
    ("contract_hash", .text (sampleHash 'C')), ("checkpoint_seq", .text snapshotBlock),
    ("snapshot_block", .text snapshotBlock), ("state_root", .text root),
    ("state_root_version", .number (Number.ofNat 1)), ("block_merkle_root", .text root),
    ("block_merkle_version", .number (Number.ofNat 1))]

instance (text : String) : Decidable (Plain text) := inferInstanceAs (Decidable (_ ∉ _))

theorem sample_served (snapshotBlock : ℕ) (root : Option String) (version : Option Number)
    (hex : ∀ r ∈ root, LowerHex 64 r)
    (rooted : isRootless registryGates (sampleRecord snapshotBlock root version) = false) :
    Served registryGates (sampleRecord snapshotBlock root version) := by
  constructor
  · show "LTC" ∈ allowedChains
    decide
  · show Plain "mainnet"
    decide
  · show ∀ h ∈ [sampleHash '0', sampleHash 'a', sampleHash 'b', sampleHash 'c'],
      LowerHex 64 h
    decide +kernel
  · rfl
  · exact hex
  · exact hex
  · exact Or.inl rfl
  · exact rooted

theorem relayed_reads (block root root' : String) (n : ℕ)
    (number : decimalBuiltins.readNumber block = Number.ofNat n)
    (lower : decimalBuiltins.toLowerCase root = root') :
    normalizeFinalizedCheckpoint decimalBuiltins (relayed block root) =
      some (sampleRecord n (some root') (some (Number.ofNat 1))) := by
  have chain : decimalBuiltins.toUpperCase "ltc" = "LTC" := by decide +kernel
  have height : decimalBuiltins.readNumber " 2900000 " = Number.ofNat 2900000 := by decide +kernel
  have zero : decimalBuiltins.toLowerCase (sampleHash '0') = sampleHash '0' := by decide +kernel
  have a : decimalBuiltins.toLowerCase (sampleHash 'A') = sampleHash 'a' := by decide +kernel
  have b : decimalBuiltins.toLowerCase (sampleHash 'B') = sampleHash 'b' := by decide +kernel
  have c : decimalBuiltins.toLowerCase (sampleHash 'C') = sampleHash 'c' := by decide +kernel
  have filled : (sampleHash '0').isEmpty = false ∧ (sampleHash 'A').isEmpty = false ∧
      (sampleHash 'B').isEmpty = false ∧ (sampleHash 'C').isEmpty = false := by
    decide +kernel
  simp [normalizeFinalizedCheckpoint, normalizeCheckpoint, relayed, Value.field, Value.isFalsy,
    Value.isNullish, Value.asText, Value.asNumber, Value.orElse, nullable, lowerText,
    Value.ofOption, sampleRecord, allowedChains, chain, height, zero, a, b, c, filled,
    number, lower]

/- Below the flag day the wire can add roots that nobody signed. -/
theorem unsigned_roots_read_differently :
    ¬ ∀ (c cp : Checkpoint) (w : Value) (s : String), Served registryGates c →
      canonicalCheckpoint decimalBuiltins registryGates c = some s →
      normalizeFinalizedCheckpoint decimalBuiltins w = some cp →
      finalizedGuards registryGates "mainnet" cp = true →
      canonicalCheckpoint decimalBuiltins registryGates cp = some s → cp = c := by
  intro all
  have inactive : isCheckpointCommitmentActive registryGates
      (sampleRecord 900000 (some (sampleHash 'd')) (some (Number.ofNat 1))) = false := by
    decide +kernel
  have signed : (canonicalCheckpoint decimalBuiltins registryGates
      (sampleRecord 900000 none none)).isSome = true := by
    decide +kernel
  obtain ⟨s, signed⟩ := Option.isSome_iff_exists.mp signed
  have served := sample_served 900000 none none (by simp) (by decide +kernel)
  have read := relayed_reads "900000" (sampleHash 'd') (sampleHash 'd') 900000
    (by decide +kernel) (by decide +kernel)
  have equal := all _ _ _ s served signed read (by decide +kernel)
    ((canonical_without_roots inactive).symm.trans signed)
  have roots := congrArg Checkpoint.stateRoot equal
  exact absurd roots (by simp [sampleRecord])

theorem relayed_copy_is_the_record :
    ∃ cp, normalizeFinalizedCheckpoint decimalBuiltins (relayed "961006" (sampleHash 'D')) =
        some cp ∧
      cp = sampleRecord 961006 (some (sampleHash 'd')) (some (Number.ofNat 1)) := by
  have read := relayed_reads "961006" (sampleHash 'D') (sampleHash 'd') 961006
    (by decide +kernel) (by decide +kernel)
  have signed : (canonicalCheckpoint decimalBuiltins registryGates
      (sampleRecord 961006 (some (sampleHash 'd')) (some (Number.ofNat 1)))).isSome = true := by
    decide +kernel
  obtain ⟨s, signed⟩ := Option.isSome_iff_exists.mp signed
  have hex : ∀ r ∈ some (sampleHash 'd'), LowerHex 64 r := by decide +kernel
  have served := sample_served 961006 (some (sampleHash 'd')) (some (Number.ofNat 1)) hex
    (by decide +kernel)
  refine ⟨_, read, ?_⟩
  exact (signed_checkpoint_one_reading decimalBuiltins registryGates "mainnet" served signed read
    (by decide +kernel) signed).2 (by decide +kernel)

end Sample

end XChainHub.Anchor.CheckpointEngine
