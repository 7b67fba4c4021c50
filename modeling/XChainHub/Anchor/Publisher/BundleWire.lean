import Mathlib.Data.List.Sort
import Mathlib.Data.String.Basic
import XChainHub.Library.DelimitedText
import XChainHub.Library.ScriptValue

/-!
The bundle wires v0 and v3 of anchor/publisher/bundle.js and the tail estimate of
fold/bundle_sizing.js. A row holds its fields as String() shows them and the pairs
parseSigs reads out of its validator_signatures.
-/
namespace XChainHub.Anchor.Publisher
open ScriptValue DelimitedText HexText DecimalText

abbrev SignaturePair := String × String

structure BundleRow where
  chain : String
  network : String
  blockIndex : ℕ
  blockHash : String
  ledgerHash : String
  actionsHash : String
  contractHash : String
  checkpointSeq : ℕ
  snapshotBlock : ℕ
  stateRoot : String
  stateRootVersion : String
  blockMerkleRoot : String
  blockMerkleVersion : String
  validatorSignatures : List SignaturePair

structure ArchiveSection where
  wrapperSectionIndex : ℕ
  batchSeq : String
  count : String
  crc : String
  chunks : List String
  signatures : List SignaturePair

def orderedSections (sections : List BundleRow) : List BundleRow :=
  sections.insertionSort (fun a b => a.chain ≤ b.chain)

def sortedPairs (sigs : List SignaturePair) : List SignaturePair :=
  sigs.insertionSort (fun a b => a.1 ≤ b.1)

def maxSnapshotBlock (sections : List BundleRow) : ℕ :=
  sections.foldl (fun m s => max m s.snapshotBlock) 0

section Build
variable (js : Builtins)

def sectionParts (s : BundleRow) : List String :=
  [s.chain, toString s.blockIndex, s.blockHash, s.ledgerHash, s.actionsHash, s.contractHash,
    toString s.checkpointSeq, toString s.snapshotBlock, js.toLowerCase s.stateRoot,
    s.stateRootVersion, js.toLowerCase s.blockMerkleRoot, s.blockMerkleVersion,
    toString s.validatorSignatures.length] ++
    (sortedPairs s.validatorSignatures).flatMap (fun p => [p.1, p.2])

def appendSections (parts : List String) (ordered : List BundleRow) : List String :=
  parts ++ ordered.flatMap (sectionParts js)

def appendPublisherTail (parts : List String) (publisher : String)
    (attestSigs : List SignaturePair) : List String :=
  parts ++ [js.toLowerCase publisher, toString attestSigs.length] ++
    attestSigs.flatMap (fun p => [js.toLowerCase p.1, js.toLowerCase p.2])

def v7Front (sections : List BundleRow) : List String :=
  let ordered := orderedSections sections
  appendSections js ["ANCHOR", "0", (ordered.head?.map BundleRow.network).getD "",
    toString (maxSnapshotBlock ordered), toString ordered.length] ordered

def buildV7Payload (sections : List BundleRow) (publisher : String)
    (attestSigs : List SignaturePair) : String :=
  String.intercalate "|" (appendPublisherTail js (v7Front js sections) publisher attestSigs)

def archiveParts (archive : Option ArchiveSection) : List String :=
  match archive with
  | none => ["0"]
  | some a => ["1", toString a.wrapperSectionIndex, a.batchSeq, a.count, js.toLowerCase a.crc,
      toString a.chunks.length, a.chunks.headD ""]

def wireSections (archive : Option ArchiveSection) (ordered : List BundleRow) : List BundleRow :=
  match archive with
  | none => ordered
  | some a => ordered.mapIdx (fun index s =>
      if index = a.wrapperSectionIndex then { s with validatorSignatures := a.signatures } else s)

def v3Front (header : Option (String × ℕ)) (sections : List BundleRow)
    (archive : Option ArchiveSection) : List String :=
  let ordered := orderedSections sections
  let named := header.getD
    ((ordered.head?.map BundleRow.network).getD "", maxSnapshotBlock ordered)
  appendSections js ["ANCHOR", "3", named.1, toString named.2, toString ordered.length]
    (wireSections archive ordered) ++ archiveParts js archive

def buildV3Payload (header : Option (String × ℕ)) (sections : List BundleRow)
    (archive : Option ArchiveSection) (publisher : String) (attestSigs : List SignaturePair) :
    String :=
  String.intercalate "|"
    (appendPublisherTail js (v3Front js header sections archive) publisher attestSigs)

end Build

/- '|' and a 64-character key, '|' and a 128-character signature. -/
def anchorSigPairBytes : ℕ := 1 + 64 + 1 + 128

def estimatedTailBytes (base attestSigCount : ℕ) : ℕ :=
  base - 1 + (toString attestSigCount).toList.length + attestSigCount * anchorSigPairBytes

section Reading

/- Reads a wire by its counts: true when they use up the fields exactly. -/
def readCount (cell : Cell) : Option ℕ :=
  if cell.all Char.isDigit && !cell.isEmpty then some (digitsValue cell) else none

def dropPairs (count : ℕ) (cells : List Cell) : Option (List Cell) :=
  if 2 * count ≤ cells.length then some (cells.drop (2 * count)) else none

def dropSections : ℕ → List Cell → Option (List Cell)
  | 0, cells => some cells
  | n + 1, cells =>
    match cells.drop 12 with
    | [] => none
    | count :: rest => (readCount count).bind (fun k =>
        (dropPairs k rest).bind (dropSections n))

def dropArchive : List Cell → Option (List Cell)
  | flag :: rest =>
    if flag = ['1'] then some (rest.drop 6) else if flag = ['0'] then some rest else none
  | [] => none

def tailAnnounced : List Cell → Bool
  | _ :: count :: rest => (readCount count).bind (fun k => dropPairs k rest) = some []
  | _ => false

def countsAnnounce (cells : List Cell) : Bool :=
  match cells.drop 4 with
  | count :: rest =>
    (readCount count).bind (fun n => (dropSections n rest).bind (fun after =>
      if cells.head? = some "ANCHOR".toList && (cells.drop 1).head? = some ['3'] then
        dropArchive after else some after)) |>.any tailAnnounced
  | [] => false

theorem natural_chars (n : ℕ) : (toString n).toList = Nat.toDigits 10 n := by
  simp [Nat.repr]

theorem read_natural (n : ℕ) : readCount (toString n).toList = some n := by
  rw [natural_chars]
  have digits : (Nat.toDigits 10 n).all Char.isDigit = true := by
    rw [List.all_eq_true]
    intro c member
    exact Nat.isDigit_of_mem_toDigits (by decide) (by decide) member
  have filled : (Nat.toDigits 10 n).isEmpty = false := by
    rw [List.isEmpty_eq_false_iff]
    exact Nat.toDigits_ne_nil
  rw [readCount, digits, filled, digits_value_to_digits]
  rfl

theorem drop_pairs (pairs : List SignaturePair) (shown : SignaturePair → SignaturePair)
    (rest : List Cell) :
    dropPairs pairs.length
      ((pairs.flatMap (fun p => [(shown p).1, (shown p).2])).map String.toList ++ rest) =
        some rest := by
  have size : ((pairs.flatMap (fun p => [(shown p).1, (shown p).2])).map String.toList).length =
      2 * pairs.length := by
    induction pairs with
    | nil => rfl
    | cons p pairs ih =>
      rw [List.length_map] at ih ⊢
      rw [List.flatMap_cons, List.length_append, ih]
      simp only [List.length_cons, List.length_nil]
      omega
  have enough : 2 * pairs.length ≤
      ((pairs.flatMap (fun p => [(shown p).1, (shown p).2])).map String.toList ++ rest).length := by
    rw [List.length_append]
    omega
  rw [dropPairs, if_pos enough, List.drop_append_of_le_length (by omega),
    List.drop_of_length_le (by omega), List.nil_append]

theorem drop_sections (js : Builtins) (rows : List BundleRow) (rest : List Cell) :
    dropSections rows.length ((rows.flatMap (sectionParts js)).map String.toList ++ rest) =
      some rest := by
  induction rows with
  | nil => rfl
  | cons row rows ih =>
    have sorted : (sortedPairs row.validatorSignatures).length = row.validatorSignatures.length :=
      List.length_insertionSort _ _
    have pairs := drop_pairs (sortedPairs row.validatorSignatures) id
      ((rows.flatMap (sectionParts js)).map String.toList ++ rest)
    rw [sorted] at pairs
    simp only [id] at pairs
    rw [List.length_cons, dropSections, List.flatMap_cons, List.map_append, List.append_assoc,
      sectionParts, List.map_append, List.append_assoc]
    simp only [List.map_cons, List.map_nil, List.cons_append, List.nil_append, List.drop_succ_cons,
      List.drop_zero]
    rw [read_natural, Option.bind_some, pairs, Option.bind_some, ih]

theorem tail_announced (js : Builtins) (publisher : String) (sigs : List SignaturePair) :
    tailAnnounced ((appendPublisherTail js [] publisher sigs).map String.toList) = true := by
  have pairs := drop_pairs sigs (fun p => (js.toLowerCase p.1, js.toLowerCase p.2)) []
  rw [List.append_nil] at pairs
  rw [appendPublisherTail, List.nil_append, List.map_append]
  simp only [List.map_cons, List.map_nil, List.cons_append, List.nil_append, tailAnnounced]
  rw [read_natural, Option.bind_some, pairs]
  rfl

theorem append_publisher_tail (js : Builtins) (front : List String) (publisher : String)
    (sigs : List SignaturePair) :
    appendPublisherTail js front publisher sigs =
      front ++ appendPublisherTail js [] publisher sigs := by
  simp [appendPublisherTail]

/-- The counts of a v0 wire are true of the fields that were pushed. -/
theorem v7_counts (js : Builtins) (sections : List BundleRow) (publisher : String)
    (sigs : List SignaturePair) :
    countsAnnounce
      ((appendPublisherTail js (v7Front js sections) publisher sigs).map String.toList) = true := by
  rw [append_publisher_tail, v7Front, appendSections, List.map_append, List.map_append]
  simp only [List.map_cons, List.map_nil, List.cons_append, List.nil_append, countsAnnounce,
    List.drop_succ_cons, List.drop_zero, List.head?_cons]
  rw [read_natural, Option.bind_some, drop_sections, Option.bind_some, if_neg (by decide),
    Option.any_some, tail_announced]

theorem wire_sections_length (archive : Option ArchiveSection) (ordered : List BundleRow) :
    (wireSections archive ordered).length = ordered.length := by
  cases archive with
  | none => rfl
  | some a => exact List.length_mapIdx

theorem drop_archive (js : Builtins) (archive : Option ArchiveSection) (rest : List Cell) :
    dropArchive ((archiveParts js archive).map String.toList ++ rest) = some rest := by
  cases archive with
  | none => rfl
  | some a => rfl

/-- The counts of a v3 wire are true of the fields that were pushed. -/
theorem v3_counts (js : Builtins) (header : Option (String × ℕ)) (sections : List BundleRow)
    (archive : Option ArchiveSection) (publisher : String) (sigs : List SignaturePair) :
    countsAnnounce
      ((appendPublisherTail js (v3Front js header sections archive) publisher sigs).map
        String.toList) = true := by
  rw [append_publisher_tail, v3Front, appendSections, List.map_append, List.map_append,
    List.map_append, List.append_assoc, List.append_assoc]
  simp only [List.map_cons, List.map_nil, List.cons_append, List.nil_append, countsAnnounce,
    List.drop_succ_cons, List.drop_zero, List.head?_cons]
  rw [read_natural, Option.bind_some, ← wire_sections_length archive, drop_sections,
    Option.bind_some, if_pos (by decide), drop_archive, Option.any_some, tail_announced]

end Reading

section Sound
variable (js : Builtins)

/- A payload splits into the fields that were pushed, which its counts announce; its attestation
   signatures are 128 lower-case hexadecimal characters; its tail has the size estimated for its
   signer count, within what is reserved for a set of no fewer signers. -/
structure WireSound (build : List SignaturePair → String) (parts : List String)
    (attestSigs : List SignaturePair) : Prop where
  fields : barCells (build attestSigs) = parts.map String.toList
  announced : countsAnnounce (barCells (build attestSigs)) = true
  signatures : ∀ s ∈ attestSigs, LowerHex 128 (js.toLowerCase s.2)
  size : byteLength (build attestSigs) =
    estimatedTailBytes (byteLength (build [])) attestSigs.length
  reserved : ∀ signers, attestSigs.length ≤ signers →
    byteLength (build attestSigs) ≤ estimatedTailBytes (byteLength (build [])) signers

/- A collected pair: a key of 64 lower-case digits and a signature text that decodes to 64 bytes. -/
def Collected (s : SignaturePair) : Prop :=
  LowerHex 64 s.1 ∧ (hexBytes s.2.toList).length = 64

variable {js}

theorem natural_digits_mono {count signers : ℕ} (fewer : count ≤ signers) :
    (toString count).toList.length ≤ (toString signers).toList.length := by
  rw [natural_chars, natural_chars,
    Nat.length_toDigits_le_iff (by decide) Nat.length_toDigits_pos]
  have own := (Nat.length_toDigits_le_iff (by decide) Nat.length_toDigits_pos).mp
    (Nat.le_refl (Nat.toDigits 10 signers).length)
  omega

theorem natural_bytes (n : ℕ) : byteLength (toString n) = (toString n).toList.length := by
  apply byte_length_ascii
  intro c member
  rw [natural_chars] at member
  have digit := Nat.isDigit_of_mem_toDigits (by decide) (by decide) member
  exact hex_ascii (by rw [isHexDigit, digit]; rfl)

theorem estimated_tail_mono (base : ℕ) {count signers : ℕ} (fewer : count ≤ signers) :
    estimatedTailBytes base count ≤ estimatedTailBytes base signers := by
  have digits := natural_digits_mono fewer
  have pairs := Nat.mul_le_mul_right anchorSigPairBytes fewer
  unfold estimatedTailBytes
  omega

theorem collected_long {s : SignaturePair} (collected : Collected s) : 128 ≤ s.2.toList.length := by
  have short := (hex_bytes_leading s.2.toList).1
  rw [collected.2] at short
  omega

/-- Exactly the texts without anything after the digits come out as 128 digits. -/
theorem collected_lower_iff {s : SignaturePair} (collected : Collected s) :
    LowerHex 128 (js.toLowerCase s.2) ↔ s.2.toList.length = 128 := by
  constructor
  · intro lower
    have grows := js.lower_grows s.2
    rw [lower.1] at grows
    have long := collected_long collected
    omega
  · intro sized
    apply lower_of_hex js sized
    apply hex_of_full
    rw [collected.2, sized]

theorem tail_bytes {sigs : List SignaturePair} (lower : ∀ s ∈ sigs,
    LowerHex 64 (js.toLowerCase s.1) ∧ LowerHex 128 (js.toLowerCase s.2)) :
    ((sigs.flatMap (fun p => [js.toLowerCase p.1, js.toLowerCase p.2])).map
      (fun f => 1 + byteLength f)).sum = sigs.length * anchorSigPairBytes := by
  induction sigs with
  | nil => simp
  | cons s sigs ih =>
    have here := lower s List.mem_cons_self
    have key : byteLength (js.toLowerCase s.1) = 64 := by
      rw [byte_length_ascii here.1.ascii, here.1.1]
    have sig : byteLength (js.toLowerCase s.2) = 128 := by
      rw [byte_length_ascii here.2.ascii, here.2.1]
    have rest := ih (fun t member => lower t (List.mem_cons_of_mem _ member))
    rw [List.flatMap_cons, List.map_append, List.sum_append, rest, List.length_cons]
    simp only [List.map_cons, List.map_nil, List.sum_cons, List.sum_nil, key, sig,
      anchorSigPairBytes]
    omega

/-- A tail of hexadecimal pairs has the size estimated for their number. -/
theorem payload_bytes (front : List String) (publisher : String) {sigs : List SignaturePair}
    (lower : ∀ s ∈ sigs, LowerHex 64 (js.toLowerCase s.1) ∧ LowerHex 128 (js.toLowerCase s.2)) :
    byteLength (String.intercalate "|" (appendPublisherTail js front publisher sigs)) =
      estimatedTailBytes (byteLength (String.intercalate "|"
        (appendPublisherTail js front publisher []))) sigs.length := by
  have base : ∀ pairs : List SignaturePair, byteLength (String.intercalate "|"
      (appendPublisherTail js front publisher pairs)) =
      byteLength (String.intercalate "|" (front ++ [js.toLowerCase publisher])) +
        (1 + (toString pairs.length).toList.length) +
        ((pairs.flatMap (fun p => [js.toLowerCase p.1, js.toLowerCase p.2])).map
          (fun f => 1 + byteLength f)).sum := by
    intro pairs
    have shape : appendPublisherTail js front publisher pairs =
        (front ++ [js.toLowerCase publisher]) ++ ([toString pairs.length] ++
          pairs.flatMap (fun p => [js.toLowerCase p.1, js.toLowerCase p.2])) := by
      simp [appendPublisherTail]
    rw [shape, byte_length_join _ (by simp), List.map_append, List.sum_append, List.map_cons,
      List.map_nil, List.sum_cons, List.sum_nil, natural_bytes]
    omega
  rw [base sigs, base [], tail_bytes lower, estimatedTailBytes]
  have zero : (toString ([] : List SignaturePair).length).toList.length = 1 := by decide
  rw [zero]
  simp only [List.flatMap_nil, List.map_nil, List.sum_nil]
  omega

/-- A wire over collected signatures is sound just when its own fields hold no bar and no signature
    text goes on after its digits. -/
theorem wire_sound_iff {front : List String} {publisher : String} (own : LowerHex 64 publisher)
    {sigs : List SignaturePair} (collected : ∀ s ∈ sigs, Collected s)
    (counts : countsAnnounce
      ((appendPublisherTail js front publisher sigs).map String.toList) = true) :
    WireSound js
        (fun pairs => String.intercalate "|" (appendPublisherTail js front publisher pairs))
        (appendPublisherTail js front publisher sigs) sigs ↔
      (∀ f ∈ front, '|' ∉ f.toList) ∧ ∀ s ∈ sigs, s.2.toList.length = 128 := by
  have filled : ∀ pairs, appendPublisherTail js front publisher pairs ≠ [] := by
    intro pairs
    simp [appendPublisherTail]
  constructor
  · intro sound
    constructor
    · intro f member
      apply (bar_cells_join_iff (filled sigs)).mp sound.fields
      rw [append_publisher_tail]
      exact List.mem_append_left _ member
    · intro s member
      exact (collected_lower_iff (collected s member)).mp (sound.signatures s member)
  · rintro ⟨plain, short⟩
    have lower : ∀ s ∈ sigs, LowerHex 128 (js.toLowerCase s.2) :=
      fun s member => (collected_lower_iff (collected s member)).mpr (short s member)
    have fields : barCells (String.intercalate "|" (appendPublisherTail js front publisher sigs)) =
        (appendPublisherTail js front publisher sigs).map String.toList := by
      apply (bar_cells_join_iff (filled sigs)).mpr
      intro f member
      simp only [appendPublisherTail, List.mem_append, List.mem_cons, List.not_mem_nil, or_false,
        List.mem_flatMap] at member
      rcases member with (own_field | rfl | rfl) | ⟨s, held, rfl | rfl⟩
      · exact plain f own_field
      · rw [lower_hex_fixed js own]
        exact own.plain
      · rw [natural_chars]
        intro bar
        exact absurd (Nat.isDigit_of_mem_toDigits (by decide) (by decide) bar) (by decide)
      · rw [lower_hex_fixed js (collected s held).1]
        exact (collected s held).1.plain
      · exact (lower s held).plain
    have size := payload_bytes front publisher (fun s held => ⟨by
      rw [lower_hex_fixed js (collected s held).1]
      exact (collected s held).1, lower s held⟩)
    constructor
    · exact fields
    · rw [fields]
      exact counts
    · exact lower
    · exact size
    · intro signers fewer
      simp only [size]
      exact estimated_tail_mono _ fewer

end Sound

end XChainHub.Anchor.Publisher
