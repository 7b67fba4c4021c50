import XChainHub.Anchor.Publisher.ArchiveWire
import XChainHub.Anchor.Publisher.BundleWire

/-!
The byte budget of anchor wires: splitBundle of anchor/publisher/fold/bundle_sizing.js and
the archive head of fold/archive_head_budget.js. The splitter's loop runs on fuel.
-/
namespace XChainHub.Anchor.Publisher
open ScriptValue DelimitedText HexText Base64Text

def maxActionDataLength : ℕ := 8192

def opReturnPushOverhead : ℕ := 3

def anchorBundleMaxBytes : ℕ := maxActionDataLength - opReturnPushOverhead

section Split
variable (js : Builtins)

def v3Bytes (sections : List BundleRow) (publisher : String) (attestSigCount : ℕ) : ℕ :=
  estimatedTailBytes (byteLength (buildV3Payload js none sections none publisher [])) attestSigCount

def v7Bytes (sections : List BundleRow) (publisher : String) (attestSigCount : ℕ)
    (foldActive : Bool) : ℕ :=
  if foldActive then v3Bytes js sections publisher attestSigCount
  else estimatedTailBytes (byteLength (buildV7Payload js sections publisher [])) attestSigCount

def bundleBytes (sections : List BundleRow) (publisher : String) (attestSigCount : ℕ)
    (foldActive : Bool) : ℕ :=
  if foldActive then v3Bytes js sections publisher attestSigCount
  else v7Bytes js sections publisher attestSigCount false

structure Oversize where
  chain : String
  blockIndex : ℕ
  bytes : ℕ

structure Split where
  bundles : List (List BundleRow)
  oversize : List Oversize

/- The loop of splitBundle over the ordered sections; bytes is the size of a bundle. -/
def packSections (bytes : List BundleRow → ℕ) :
    List BundleRow → List BundleRow → List (List BundleRow) → List Oversize → Split
  | [], current, bundles, oversize =>
    ⟨if current = [] then bundles else bundles ++ [current], oversize⟩
  | s :: rest, current, bundles, oversize =>
    if anchorBundleMaxBytes < bytes [s] then
      packSections bytes rest current bundles (oversize ++ [⟨s.chain, s.blockIndex, bytes [s]⟩])
    else if current ≠ [] ∧ anchorBundleMaxBytes < bytes (current ++ [s]) then
      packSections bytes rest [s] (bundles ++ [current]) oversize
    else packSections bytes rest (current ++ [s]) bundles oversize

def splitBundle (sections : List BundleRow) (publisher : String) (attestSigCount : ℕ)
    (foldActive : Bool) : Split :=
  packSections (fun bundle => bundleBytes js bundle publisher attestSigCount foldActive)
    (orderedSections sections) [] [] []

/- buildBundleWire's payload for a bundle without an archive. -/
def bundlePayload (network : String) (group : List BundleRow) (publisher : String)
    (attestSigs : List SignaturePair) (foldActive : Bool) : String :=
  if foldActive then
    buildV3Payload js (some (network, maxSnapshotBlock group)) group none publisher attestSigs
  else buildV7Payload js group publisher attestSigs

end Split

section Splitter

def fixedSignatures (count : ℕ) : List SignaturePair :=
  List.replicate count
    (String.ofList (List.replicate 64 '0'), String.ofList (List.replicate 128 '0'))

/- A splitter is only made where the head has room for a character. -/
structure SizedSplitter where
  size : ChunkSize
  availableBytes : ℤ
  baseBytes : ℕ
  roomy : 1 ≤ availableBytes

inductive SplitError where
  | range (message : String)
  | noHeadRoom

def SplitError.message : SplitError → String
  | .range message => message
  | .noHeadRoom => "fold archive chunk count leaves no head room"

def SizedSplitter.headChars (s : SizedSplitter) : ℤ := min s.size.value s.availableBytes

/- The head that is left beside the digits of the chunk count. -/
def SizedSplitter.next (s : SizedSplitter) (chunks : List (List Char)) : ℤ :=
  min s.size.value (s.availableBytes - ((toString chunks.length).toList.length - 1))

def SizedSplitter.loop (s : SizedSplitter) (b64 : List Char) :
    ℕ → ℤ → Option (Except SplitError (List (List Char)))
  | 0, _ => none
  | fuel + 1, headChars =>
    match splitFoldChunks s.size b64 headChars with
    | .error message => some (.error (.range message))
    | .ok chunks =>
      if s.next chunks = headChars then some (.ok chunks)
      else if s.next chunks < 1 then some (.error .noHeadRoom)
      else s.loop b64 fuel (s.next chunks)

def SizedSplitter.call (s : SizedSplitter) (fuel : ℕ) (b64 : List Char) :
    Option (Except SplitError (List (List Char))) :=
  s.loop b64 fuel s.headChars

/- What a fold round knows before its archive is built. -/
structure FoldRound where
  group : List BundleRow
  network : String
  batchSeq : String
  wrapperSectionIndex : ℕ
  signingSet : ℕ
  publisher : String

/- The publisher's options and its reading of the oracle_publish set. -/
structure FoldContext where
  chunkMaxBytes : ℤ
  maxBatch : ℤ
  activeOraclePublishPubkeys : ℕ → List String
  isAnchorRewardActive : ℕ → String → Bool

def attestCount (ctx : FoldContext) (round : FoldRound) : ℕ :=
  if ctx.isAnchorRewardActive (maxSnapshotBlock round.group) round.network then
    (ctx.activeOraclePublishPubkeys (maxSnapshotBlock round.group)).length
  else 0

def worstHead (ctx : FoldContext) (round : FoldRound) : ArchiveSection where
  wrapperSectionIndex := round.wrapperSectionIndex
  batchSeq := round.batchSeq
  count := String.ofList (List.replicate (toString (max 0 ctx.maxBatch)).toList.length '9')
  crc := "00000000"
  chunks := [""]
  signatures := fixedSignatures round.signingSet

def foldArchiveSplitter (js : Builtins) (ctx : FoldContext) (round : FoldRound) :
    Option SizedSplitter :=
  let payload := buildV3Payload js (some (round.network, maxSnapshotBlock round.group)) round.group
    (some (worstHead ctx round)) round.publisher (fixedSignatures (attestCount ctx round))
  let availableBytes : ℤ := anchorBundleMaxBytes - byteLength payload
  if room : min ctx.chunkMaxBytes availableBytes < 1 then none
  else some {
    size := ⟨ctx.chunkMaxBytes.toNat, by omega⟩
    availableBytes := availableBytes
    baseBytes := byteLength payload
    roomy := by omega }

end Splitter

section Hexadecimal
variable (js : Builtins)

/- A text of n hexadecimal characters, of either case. -/
def HexDigits (n : ℕ) (s : String) : Prop :=
  s.toList.length = n ∧ ∀ c ∈ s.toList, isHexDigit c = true

def HexPair (p : SignaturePair) : Prop := HexDigits 64 p.1 ∧ HexDigits 128 p.2

theorem hex_digits_bytes {n : ℕ} {s : String} (hex : HexDigits n s) : byteLength s = n := by
  rw [byte_length_ascii (fun c member => hex_ascii (hex.2 c member)), hex.1]

theorem hex_pair_lower {p : SignaturePair} (hex : HexPair p) :
    LowerHex 64 (js.toLowerCase p.1) ∧ LowerHex 128 (js.toLowerCase p.2) :=
  ⟨lower_of_hex js hex.1.1 hex.1.2, lower_of_hex js hex.2.1 hex.2.2⟩

theorem fixed_hex (count : ℕ) : ∀ p ∈ fixedSignatures count, HexPair p := by
  intro p member
  rw [List.eq_of_mem_replicate member]
  have zeros : ∀ n, HexDigits n (String.ofList (List.replicate n '0')) := by
    intro n
    rw [HexDigits, String.toList_ofList, List.length_replicate]
    refine ⟨rfl, ?_⟩
    intro c inside
    rw [List.eq_of_mem_replicate inside]
    decide
  exact ⟨zeros 64, zeros 128⟩

end Hexadecimal

section Bundles
variable {js : Builtins}

/-- Every section goes to one bundle or is refused, and every bundle is within the budget. -/
theorem pack_sections (bytes : List BundleRow → ℕ) (rest : List BundleRow) :
    ∀ (current : List BundleRow) (bundles : List (List BundleRow)) (oversize : List Oversize),
    (current ≠ [] → bytes current ≤ anchorBundleMaxBytes) →
    ∃ refused,
      ((packSections bytes rest current bundles oversize).bundles.flatten ++ refused).Perm
        (bundles.flatten ++ current ++ rest) ∧
      (packSections bytes rest current bundles oversize).oversize =
        oversize ++ refused.map (fun s => ⟨s.chain, s.blockIndex, bytes [s]⟩) ∧
      (∀ s ∈ refused, anchorBundleMaxBytes < bytes [s]) ∧
      ∀ bundle ∈ (packSections bytes rest current bundles oversize).bundles,
        bundle ∈ bundles ∨ bundle ≠ [] ∧ bytes bundle ≤ anchorBundleMaxBytes := by
  induction rest with
  | nil =>
    intro current bundles oversize within
    refine ⟨[], ?_, ?_, ?_, ?_⟩
    · rw [packSections]
      split
      · rename_i empty
        rw [empty, List.append_nil, List.append_nil]
      · simp
    · rw [packSections, List.map_nil, List.append_nil]
    · exact fun s member => absurd member List.not_mem_nil
    · intro bundle member
      rw [packSections] at member
      split at member
      · exact .inl member
      · rename_i filled
        rcases List.mem_append.mp member with old | last
        · exact .inl old
        · rw [List.mem_singleton.mp last]
          exact .inr ⟨filled, within filled⟩
  | cons s rest ih =>
    intro current bundles oversize within
    rw [packSections]
    split
    · rename_i large
      obtain ⟨refused, perm, records, all_large, fit⟩ :=
        ih current bundles (oversize ++ [⟨s.chain, s.blockIndex, bytes [s]⟩]) within
      refine ⟨s :: refused, ?_, ?_, ?_, fit⟩
      · exact List.perm_middle.trans ((perm.cons s).trans List.perm_middle.symm)
      · rw [records, List.append_assoc]
        rfl
      · intro t member
        rcases List.mem_cons.mp member with rfl | later
        · exact large
        · exact all_large t later
    · rename_i fits
      split
      · rename_i full
        obtain ⟨refused, perm, records, all_large, fit⟩ :=
          ih [s] (bundles ++ [current]) oversize (fun _ => Nat.le_of_not_lt fits)
        refine ⟨refused, ?_, records, all_large, ?_⟩
        · rw [List.flatten_append, List.flatten_singleton] at perm
          simpa [List.append_assoc] using perm
        · intro bundle member
          rcases fit bundle member with old | new
          · rcases List.mem_append.mp old with earlier | last
            · exact .inl earlier
            · rw [List.mem_singleton.mp last]
              exact .inr ⟨full.1, within full.1⟩
          · exact .inr new
      · rename_i room
        obtain ⟨refused, perm, records, all_large, fit⟩ :=
          ih (current ++ [s]) bundles oversize (fun _ => by
            by_cases empty : current = []
            · rw [empty, List.nil_append]
              exact Nat.le_of_not_lt fits
            · exact Nat.le_of_not_lt fun large => room ⟨empty, large⟩)
        refine ⟨refused, ?_, records, all_large, fit⟩
        simpa [List.append_assoc] using perm

theorem max_snapshot_ordered (group : List BundleRow) :
    maxSnapshotBlock (orderedSections group) = maxSnapshotBlock group := by
  unfold maxSnapshotBlock orderedSections
  apply List.Perm.foldl_eq' (List.perm_insertionSort _ group)
  intro a _ b _ m
  omega

/-- The header of a bundle's network and height is the one its sections imply. -/
theorem v3_front_header {network : String} {group : List BundleRow} (filled : group ≠ [])
    (same : ∀ s ∈ group, s.network = network) (archive : Option ArchiveSection) :
    v3Front js (some (network, maxSnapshotBlock group)) group archive =
      v3Front js none group archive := by
  have perm := List.perm_insertionSort (fun a b : BundleRow => a.chain ≤ b.chain) group
  have front : (orderedSections group).head?.map BundleRow.network = some network := by
    unfold orderedSections
    cases ordered : group.insertionSort (fun a b => a.chain ≤ b.chain) with
    | nil =>
      rw [ordered] at perm
      exact absurd perm.nil_eq.symm filled
    | cons first more =>
      rw [ordered] at perm
      rw [List.head?_cons, Option.map_some, same first (perm.subset List.mem_cons_self)]
  simp only [v3Front, front, max_snapshot_ordered, Option.getD_some, Option.getD_none]

/-- A payload with no more attestations than were estimated is no larger than estimated. -/
theorem bundle_payload_within {network publisher : String} {group : List BundleRow} {n : ℕ}
    {foldActive : Bool} {attestSigs : List SignaturePair} (filled : group ≠ [])
    (same : ∀ s ∈ group, s.network = network) (hex : ∀ p ∈ attestSigs, HexPair p)
    (fewer : attestSigs.length ≤ n) :
    byteLength (bundlePayload js network group publisher attestSigs foldActive) ≤
      bundleBytes js group publisher n foldActive := by
  have lower := fun p member => hex_pair_lower js (hex p member)
  cases foldActive with
  | true =>
    simp only [bundlePayload, bundleBytes, v3Bytes, if_true, buildV3Payload,
      v3_front_header filled same]
    rw [payload_bytes _ _ lower]
    exact estimated_tail_mono _ fewer
  | false =>
    simp only [bundlePayload, bundleBytes, v7Bytes, Bool.false_eq_true, if_false, buildV7Payload]
    rw [payload_bytes _ _ lower]
    exact estimated_tail_mono _ fewer

end Bundles

section Head
variable {js : Builtins}

theorem pairs_cost {sigs : List SignaturePair} (hex : ∀ p ∈ sigs, HexPair p) :
    wireCost (sigs.flatMap (fun p => [p.1, p.2])) = sigs.length * anchorSigPairBytes := by
  induction sigs with
  | nil => rfl
  | cons p sigs ih =>
    have here := hex p List.mem_cons_self
    rw [List.flatMap_cons, wire_cost_append, ih (fun q member => hex q (List.mem_cons_of_mem _ member)),
      wire_cost_cons, wire_cost_cons, wire_cost_nil, hex_digits_bytes here.1,
      hex_digits_bytes here.2, List.length_cons, anchorSigPairBytes]
    omega

/-- A section costs no more with fewer signatures. -/
theorem section_cost_mono (s : BundleRow) {sigs more : List SignaturePair}
    (hex : ∀ p ∈ sigs, HexPair p) (more_hex : ∀ p ∈ more, HexPair p)
    (fewer : sigs.length ≤ more.length) :
    wireCost (sectionParts js { s with validatorSignatures := sigs }) ≤
      wireCost (sectionParts js { s with validatorSignatures := more }) := by
  have sorted : ∀ list : List SignaturePair, (∀ p ∈ list, HexPair p) →
      wireCost ((sortedPairs list).flatMap (fun p => [p.1, p.2])) =
        list.length * anchorSigPairBytes := by
    intro list all
    have kept : ∀ p ∈ sortedPairs list, HexPair p :=
      fun p member => all p ((List.perm_insertionSort _ _).subset member)
    rw [pairs_cost kept, sortedPairs, List.length_insertionSort]
  have digits := natural_digits_mono fewer
  have pairs := Nat.mul_le_mul_right anchorSigPairBytes fewer
  simp only [sectionParts, wire_cost_append, wire_cost_cons, wire_cost_nil, natural_bytes,
    sorted _ hex, sorted _ more_hex]
  omega

theorem mapped_cost_mono {f g : ℕ → BundleRow → BundleRow} (rows : List BundleRow)
    (less : ∀ i s, wireCost (sectionParts js (f i s)) ≤ wireCost (sectionParts js (g i s))) :
    wireCost ((rows.mapIdx f).flatMap (sectionParts js)) ≤
      wireCost ((rows.mapIdx g).flatMap (sectionParts js)) := by
  induction rows generalizing f g with
  | nil => exact le_refl _
  | cons s rows ih =>
    rw [List.mapIdx_cons, List.mapIdx_cons, List.flatMap_cons, List.flatMap_cons,
      wire_cost_append, wire_cost_append]
    exact Nat.add_le_add (less 0 s) (ih (fun i s => less (i + 1) s))

/- The part of a v3 wire that its archive's signatures and attestations fill. -/
theorem sections_cost_mono {archive worst : ArchiveSection} (rows : List BundleRow)
    (index : archive.wrapperSectionIndex = worst.wrapperSectionIndex)
    (hex : ∀ p ∈ archive.signatures, HexPair p) (worst_hex : ∀ p ∈ worst.signatures, HexPair p)
    (fewer : archive.signatures.length ≤ worst.signatures.length) :
    wireCost ((wireSections (some archive) rows).flatMap (sectionParts js)) ≤
      wireCost ((wireSections (some worst) rows).flatMap (sectionParts js)) := by
  apply mapped_cost_mono
  intro i s
  rw [index]
  split
  · exact section_cost_mono s hex worst_hex fewer
  · exact le_refl _

theorem tail_cost_mono (publisher : String) {sigs more : List SignaturePair}
    (hex : ∀ p ∈ sigs, HexPair p) (more_hex : ∀ p ∈ more, HexPair p)
    (fewer : sigs.length ≤ more.length) :
    wireCost (appendPublisherTail js [] publisher sigs) ≤
      wireCost (appendPublisherTail js [] publisher more) := by
  have digits := natural_digits_mono fewer
  have pairs := Nat.mul_le_mul_right anchorSigPairBytes fewer
  have shown : ∀ list : List SignaturePair, (∀ p ∈ list, HexPair p) →
      wireCost (list.flatMap (fun p => [js.toLowerCase p.1, js.toLowerCase p.2])) =
        list.length * anchorSigPairBytes :=
    fun list all => tail_bytes (fun p member => hex_pair_lower js (all p member))
  simp only [appendPublisherTail, List.nil_append, wire_cost_append, wire_cost_cons,
    wire_cost_nil, natural_bytes, shown _ hex, shown _ more_hex]
  omega

/- The five fields before the sections. -/
def v3Header (network : String) (group : List BundleRow) : List String :=
  ["ANCHOR", "3", network, toString (maxSnapshotBlock group), toString (orderedSections group).length]

theorem v3_payload_bytes (network publisher : String) (group : List BundleRow)
    (archive : ArchiveSection) (attestSigs : List SignaturePair) :
    byteLength (buildV3Payload js (some (network, maxSnapshotBlock group)) group (some archive)
        publisher attestSigs) + 1 =
      wireCost (v3Header network group) +
        wireCost ((wireSections (some archive) (orderedSections group)).flatMap (sectionParts js)) +
        wireCost (archiveParts js (some archive)) +
        wireCost (appendPublisherTail js [] publisher attestSigs) := by
  have filled : appendPublisherTail js
      (v3Front js (some (network, maxSnapshotBlock group)) group (some archive)) publisher
      attestSigs ≠ [] := by
    simp [appendPublisherTail]
  rw [buildV3Payload, joined_bytes filled, append_publisher_tail, wire_cost_append]
  simp only [v3Front, appendSections, Option.getD_some, wire_cost_append, v3Header]

theorem whole_digits_mono {count : ℕ} {maxBatch : ℤ} (fewer : (count : ℤ) ≤ maxBatch) :
    (toString count).toList.length ≤ (toString (max 0 maxBatch)).toList.length := by
  obtain ⟨n, shown⟩ : ∃ n : ℕ, max 0 maxBatch = n := ⟨(max 0 maxBatch).toNat, by omega⟩
  rw [shown]
  exact natural_digits_mono (by omega)

/- What is filled in after the head was sized: no more than the worst head reserves. -/
structure Fills (ctx : FoldContext) (round : FoldRound) (archive : ArchiveSection)
    (attestSigs : List SignaturePair) : Prop where
  index : archive.wrapperSectionIndex = round.wrapperSectionIndex
  batchSeq : archive.batchSeq = round.batchSeq
  crc : LowerHex 8 archive.crc
  count : ∃ count : ℕ, archive.count = toString count ∧ (count : ℤ) ≤ ctx.maxBatch
  signatures : archive.signatures.length ≤ round.signingSet ∧ ∀ p ∈ archive.signatures, HexPair p
  attested : attestSigs.length ≤ attestCount ctx round ∧ ∀ p ∈ attestSigs, HexPair p

/-- Beside the worst head there is room for the digits of the chunk count and the first chunk. -/
theorem filled_within {ctx : FoldContext} {round : FoldRound} {splitter : SizedSplitter}
    (made : foldArchiveSplitter js ctx round = some splitter) {archive : ArchiveSection}
    {attestSigs : List SignaturePair} (fills : Fills ctx round archive attestSigs)
    (room : ((toString archive.chunks.length).toList.length : ℤ) - 1 +
      byteLength (archive.chunks.headD "") ≤ splitter.availableBytes) :
    byteLength (buildV3Payload js (some (round.network, maxSnapshotBlock round.group)) round.group
      (some archive) round.publisher attestSigs) ≤ anchorBundleMaxBytes := by
  simp only [foldArchiveSplitter] at made
  split at made
  · cases made
  rename_i roomy
  cases made
  simp only at room
  have worst := @v3_payload_bytes js round.network round.publisher round.group
    (worstHead ctx round) (fixedSignatures (attestCount ctx round))
  have actual := @v3_payload_bytes js round.network round.publisher round.group archive
    attestSigs
  obtain ⟨count, shown, bounded⟩ := fills.count
  have sections := @sections_cost_mono js _ (worstHead ctx round)
    (orderedSections round.group) fills.index fills.signatures.2 (fixed_hex _)
    (by rw [worstHead, fixedSignatures, List.length_replicate]; exact fills.signatures.1)
  have tail := @tail_cost_mono js round.publisher _ _ fills.attested.2
    (fixed_hex (attestCount ctx round))
    (by rw [fixedSignatures, List.length_replicate]; exact fills.attested.1)
  have digits := whole_digits_mono bounded
  have nines : byteLength (worstHead ctx round).count =
      (toString (max 0 ctx.maxBatch)).toList.length := by
    rw [worstHead, byte_length_ascii, String.toList_ofList, List.length_replicate]
    intro c member
    rw [String.toList_ofList] at member
    rw [List.eq_of_mem_replicate member]
    decide
  have parts : wireCost (archiveParts js (some archive)) + 1 ≤
      wireCost (archiveParts js (some (worstHead ctx round))) +
        (toString archive.chunks.length).toList.length + byteLength (archive.chunks.headD "") := by
    have crc := lower_hex_fixed js fills.crc
    have zeros : LowerHex 8 "00000000" := by decide
    have crc_bytes : byteLength archive.crc = 8 := by
      rw [byte_length_ascii fills.crc.ascii, fills.crc.1]
    have zero_bytes : byteLength (js.toLowerCase (worstHead ctx round).crc) = 8 := by
      rw [worstHead, lower_hex_fixed js zeros]
      decide
    have bare : (worstHead ctx round).chunks = [""] := rfl
    have one : byteLength (toString (worstHead ctx round).chunks.length) = 1 := by
      rw [bare]
      decide
    have empty : byteLength ((worstHead ctx round).chunks.headD "") = 0 := by
      rw [bare]
      decide
    simp only [archiveParts, wire_cost_cons, wire_cost_nil, zero_bytes, one, empty, nines, crc,
      crc_bytes, natural_bytes, shown, fills.index, fills.batchSeq]
    simp only [worstHead]
    omega
  omega

end Head

section Loop

/- At this head the count of its chunks leaves no more room than the head takes. -/
def Shrinks (s : SizedSplitter) (b64 : List Char) (headChars : ℤ) : Prop :=
  ∀ chunks, splitFoldChunks s.size b64 headChars = .ok chunks → s.next chunks ≤ headChars

theorem count_digits (chunks : List (List Char)) : 1 ≤ (toString chunks.length).toList.length := by
  rw [natural_chars]
  exact Nat.length_toDigits_pos

theorem first_shrinks (s : SizedSplitter) (b64 : List Char) : Shrinks s b64 s.headChars := by
  intro chunks _
  have digits := count_digits chunks
  unfold SizedSplitter.next SizedSplitter.headChars
  omega

/-- A shorter head makes no fewer chunks, so the room beside their count shrinks on. -/
theorem next_shrinks {s : SizedSplitter} {b64 : List Char} {headChars : ℤ}
    {chunks : List (List Char)} (split : splitFoldChunks s.size b64 headChars = .ok chunks)
    (shrinks : s.next chunks ≤ headChars) : Shrinks s b64 (s.next chunks) := by
  intro more again
  have grown := natural_digits_mono (split_fold_antitone shrinks again split)
  have same : s.next more ≤ s.next chunks := by
    unfold SizedSplitter.next
    omega
  exact same

theorem split_from_one (size : ChunkSize) (b64 : List Char) {headChars : ℤ}
    (room : 1 ≤ headChars) : ∃ chunks, splitFoldChunks size b64 headChars = .ok chunks := by
  unfold splitFoldChunks
  rw [if_neg (by omega)]
  split
  · exact ⟨_, rfl⟩
  · exact ⟨_, rfl⟩

/- What the loop returns with: chunks whose head is what their own count leaves. -/
def Settled (s : SizedSplitter) (b64 : List Char)
    (outcome : Except SplitError (List (List Char))) : Prop :=
  ∀ chunks, outcome = .ok chunks → splitFoldChunks s.size b64 (s.next chunks) = .ok chunks

theorem loop_settles (s : SizedSplitter) (b64 : List Char) (bound : ℕ) : ∀ headChars : ℤ,
    1 ≤ headChars → headChars ≤ bound → Shrinks s b64 headChars →
    ∃ outcome, Settled s b64 outcome ∧
      ∀ fuel, headChars.toNat ≤ fuel → s.loop b64 fuel headChars = some outcome := by
  induction bound with
  | zero =>
    intro headChars room small
    omega
  | succ bound ih =>
    intro headChars room small shrinks
    obtain ⟨chunks, split⟩ := split_from_one s.size b64 room
    have lower := shrinks chunks split
    have unfolds : ∀ fuel, s.loop b64 (fuel + 1) headChars =
        if s.next chunks = headChars then some (.ok chunks)
        else if s.next chunks < 1 then some (.error .noHeadRoom)
        else s.loop b64 fuel (s.next chunks) := by
      intro fuel
      simp only [SizedSplitter.loop, split]
    by_cases settled : s.next chunks = headChars
    · refine ⟨.ok chunks, ?_, ?_⟩
      · intro returned same
        cases same
        rw [settled]
        exact split
      · intro fuel enough
        obtain ⟨more, rfl⟩ := Nat.exists_eq_succ_of_ne_zero (n := fuel) (by omega)
        rw [unfolds, if_pos settled]
    · by_cases out : s.next chunks < 1
      · refine ⟨.error .noHeadRoom, ?_, ?_⟩
        · intro returned same
          cases same
        intro fuel enough
        obtain ⟨more, rfl⟩ := Nat.exists_eq_succ_of_ne_zero (n := fuel) (by omega)
        rw [unfolds, if_neg settled, if_pos out]
      · obtain ⟨outcome, kept, returns⟩ := ih (s.next chunks) (by omega) (by omega)
          (next_shrinks split lower)
        refine ⟨outcome, kept, ?_⟩
        intro fuel enough
        obtain ⟨more, rfl⟩ := Nat.exists_eq_succ_of_ne_zero (n := fuel) (by omega)
        rw [unfolds, if_neg settled, if_neg out]
        exact returns more (by omega)

/-- A splitter's call returns, within as many turns as its first head has characters. -/
theorem call_settles (s : SizedSplitter) (b64 : List Char) :
    ∃ outcome, Settled s b64 outcome ∧
      ∀ fuel, s.headChars.toNat ≤ fuel → s.call fuel b64 = some outcome := by
  have room : 1 ≤ s.headChars := by
    have positive := s.size.positive
    have roomy := s.roomy
    unfold SizedSplitter.headChars
    omega
  exact loop_settles s b64 s.headChars.toNat s.headChars room (by omega) (first_shrinks s b64)

/- Fourteen chunks of three take two digits, so the head gives up one character. -/
example : ((SizedSplitter.call ⟨⟨3, by decide⟩, 3, 8186, by decide⟩ 3 (List.replicate 40 'a')).bind
    Except.toOption).map (fun chunks => (chunks.length, chunks.headD [])) =
      some (14, ['a', 'a']) := by decide

/-- The first chunk and the digits of the count fit where the splitter was given room. -/
theorem settled_room {s : SizedSplitter} {b64 : List Char} (ascii : ∀ c ∈ b64, c.toNat < 128)
    {chunks : List (List Char)} (settled : Settled s b64 (.ok chunks)) :
    ((toString chunks.length).toList.length : ℤ) - 1 +
      byteLength ((chunks.map String.ofList).headD "") ≤ s.availableBytes := by
  have split := settled chunks rfl
  obtain ⟨joined, sized⟩ := split_fold_join split
  cases chunks with
  | nil => cases sized
  | cons first rest =>
    have plain : ∀ c ∈ first, c.toNat < 128 := by
      intro c member
      apply ascii
      rw [← joined, List.flatten_cons]
      exact List.mem_append_left _ member
    have bytes : byteLength (String.ofList first) = first.length := by
      rw [byte_length_ascii (by rw [String.toList_ofList]; exact plain), String.toList_ofList]
    rw [List.head?_cons, Option.map_some, Option.some.injEq] at sized
    have room : 1 ≤ s.next (first :: rest) := by
      by_contra small
      rw [splitFoldChunks, if_pos (by omega)] at split
      cases split
    rw [List.map_cons, List.headD_cons, bytes, sized]
    unfold SizedSplitter.next at room ⊢
    omega

end Loop

section Budget
variable (js : Builtins)

/- Every section is in one bundle or refused, and each bundle's payload fits with as many
   attestations as it was sized for. -/
structure SplitWithin (network publisher : String) (n : ℕ) (foldActive : Bool)
    (sections : List BundleRow) : Prop where
  placed : ∃ refused,
    ((splitBundle js sections publisher n foldActive).bundles.flatten ++ refused).Perm sections ∧
    (splitBundle js sections publisher n foldActive).oversize =
      refused.map (fun s => ⟨s.chain, s.blockIndex, bundleBytes js [s] publisher n foldActive⟩)
  fits : ∀ bundle ∈ (splitBundle js sections publisher n foldActive).bundles,
    ∀ attestSigs : List SignaturePair, attestSigs.length ≤ n → (∀ p ∈ attestSigs, HexPair p) →
      byteLength (bundlePayload js network bundle publisher attestSigs foldActive) ≤
        anchorBundleMaxBytes

/- The section of a built archive, as publish_bundle.js hands it to buildV3Payload. -/
def builtSection (round : FoldRound) (json : String) (count : ℕ) (chunks : List (List Char))
    (signatures : List SignaturePair) : ArchiveSection where
  wrapperSectionIndex := round.wrapperSectionIndex
  batchSeq := round.batchSeq
  count := toString count
  crc := crc32Hex json
  chunks := chunks.map String.ofList
  signatures := signatures

/- A splitter's call returns on every archive text, and with the chunks it makes the wire fits. -/
def ArchiveWithin (ctx : FoldContext) (round : FoldRound) : Prop :=
  ∀ splitter, foldArchiveSplitter js ctx round = some splitter →
    ∀ (gzip : String → List ℕ) (json : String), ∃ outcome,
      (∀ fuel, splitter.headChars.toNat ≤ fuel →
        splitter.call fuel (base64url (gzip json)) = some outcome) ∧
      ∀ chunks, outcome = .ok chunks → ∀ (signatures attestSigs : List SignaturePair) (count : ℕ),
        signatures.length ≤ round.signingSet → (∀ p ∈ signatures, HexPair p) →
        attestSigs.length ≤ attestCount ctx round → (∀ p ∈ attestSigs, HexPair p) →
        (count : ℤ) ≤ ctx.maxBatch →
          byteLength (buildV3Payload js (some (round.network, maxSnapshotBlock round.group))
            round.group (some (builtSection round json count chunks signatures)) round.publisher
            attestSigs) ≤ anchorBundleMaxBytes

theorem split_within (network publisher : String) (n : ℕ) (foldActive : Bool)
    {sections : List BundleRow} (same : ∀ s ∈ sections, s.network = network) :
    SplitWithin js network publisher n foldActive sections := by
  obtain ⟨refused, perm, records, -, fit⟩ := pack_sections
    (fun bundle => bundleBytes js bundle publisher n foldActive) (orderedSections sections) [] [] []
    (fun filled => absurd rfl filled)
  have placed := perm.trans (List.perm_insertionSort _ sections)
  refine ⟨⟨refused, placed, records⟩, ?_⟩
  intro bundle member attestSigs fewer hex
  rcases fit bundle member with none_before | ⟨filled, within⟩
  · exact absurd none_before List.not_mem_nil
  have of_network : ∀ s ∈ bundle, s.network = network := by
    intro s inside
    apply same
    apply placed.subset
    exact List.mem_append_left _ (List.mem_flatten.mpr ⟨bundle, member, inside⟩)
  exact (bundle_payload_within filled of_network hex fewer).trans within

theorem archive_within (ctx : FoldContext) (round : FoldRound) : ArchiveWithin js ctx round := by
  intro splitter made gzip json
  obtain ⟨outcome, settled, returns⟩ := call_settles splitter (base64url (gzip json))
  refine ⟨outcome, returns, ?_⟩
  intro chunks same signatures attestSigs count signed signed_hex attested attested_hex batch
  rw [same] at settled
  have room := settled_room (base64_ascii (gzip json)) settled
  have fills : Fills ctx round (builtSection round json count chunks signatures) attestSigs :=
    ⟨rfl, rfl, crc_lower json, ⟨count, rfl, batch⟩, ⟨signed, signed_hex⟩, attested, attested_hex⟩
  apply filled_within made fills
  rw [builtSection, List.length_map]
  exact room

/-- No anchor wire goes over its budget. -/
theorem anchor_wire_within (network publisher : String) (n : ℕ) (foldActive : Bool)
    {sections : List BundleRow} (same : ∀ s ∈ sections, s.network = network) :
    SplitWithin js network publisher n foldActive sections ∧
      ∀ ctx round, ArchiveWithin js ctx round :=
  ⟨split_within js network publisher n foldActive same, archive_within js⟩

def budgetRow : BundleRow where
  chain := "BTC"
  network := "regtest"
  blockIndex := 900
  blockHash := "aa"
  ledgerHash := "bb"
  actionsHash := "cc"
  contractHash := "dd"
  checkpointSeq := 9
  snapshotBlock := 900
  stateRoot := "ee"
  stateRootVersion := "1"
  blockMerkleRoot := "ff"
  blockMerkleVersion := "1"
  validatorSignatures := []

theorem budget_row_within :
    SplitWithin decimalBuiltins "regtest" "11" 2 true [budgetRow] ∧
      ∀ ctx round, ArchiveWithin decimalBuiltins ctx round :=
  anchor_wire_within decimalBuiltins "regtest" "11" 2 true (by
    intro s member
    rw [List.mem_singleton.mp member]
    rfl)

end Budget

end XChainHub.Anchor.Publisher
