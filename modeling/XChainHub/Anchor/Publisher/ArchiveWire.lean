import Mathlib.Tactic.Linarith
import XChainHub.Library.Base64Text
import XChainHub.Library.HexText

/-!
The archive body as it travels: archiveWire of anchor/publisher/archive/selection.js,
crc32Fallback of archive/rows.js and the two chunkings of archive/build.js. gzip is the
runtime's compressor, taken as a function of the text.
-/
namespace XChainHub.Anchor.Publisher
open Base64Text HexText

section Checksum

def crcBit (c : BitVec 32) : BitVec 32 :=
  if c &&& 1#32 = 1#32 then 0xEDB88320#32 ^^^ (c >>> 1) else c >>> 1

def crcByte (crc : BitVec 32) (byte : BitVec 32) : BitVec 32 :=
  (crcBit^[8] ((crc ^^^ byte) &&& 0xFF#32)) ^^^ (crc >>> 8)

def crc32 (bytes : List UInt8) : BitVec 32 :=
  bytes.foldl (fun crc b => crcByte crc (BitVec.ofNat 32 b.toNat)) 0xFFFFFFFF#32 ^^^ 0xFFFFFFFF#32

/- (n >>> 0).toString(16).padStart(8, '0'): the digits of the four bytes. -/
def crc32Hex (json : String) : String :=
  let n := (crc32 json.toUTF8.toList).toNat
  String.ofList (hexText [n / 2 ^ 24, n / 2 ^ 16 % 256, n / 2 ^ 8 % 256, n % 256])

theorem crc_lower (json : String) : LowerHex 8 (crc32Hex json) := by
  unfold crc32Hex
  constructor
  · rw [String.toList_ofList, hex_text_length]
    rfl
  · rw [String.toList_ofList]
    exact hex_text_lower _

end Checksum

section Chunks

/- chunkMaxBytes where it is at least one, as the loops need it. -/
structure ChunkSize where
  value : ℕ
  positive : 0 < value

def chunksFrom (size : ChunkSize) : ℕ → List Char → List (List Char)
  | 0, _ => []
  | fuel + 1, rest =>
    if rest = [] then [] else rest.take size.value :: chunksFrom size fuel (rest.drop size.value)

def splitChunks (size : ChunkSize) (b64 : List Char) : List (List Char) :=
  let chunks := chunksFrom size b64.length b64
  if chunks = [] then [[]] else chunks

def splitFoldChunks (size : ChunkSize) (b64 : List Char) (headChars : ℤ) :
    Except String (List (List Char)) :=
  if headChars < 1 then .error "fold archive head must have at least one character"
  else if (b64.length : ℤ) ≤ headChars then .ok [b64]
  else .ok (b64.take headChars.toNat ::
    chunksFrom size b64.length (b64.drop headChars.toNat))

theorem chunks_from_join (size : ChunkSize) : ∀ (fuel : ℕ) (rest : List Char),
    rest.length ≤ fuel → (chunksFrom size fuel rest).flatten = rest := by
  intro fuel
  induction fuel with
  | zero =>
    intro rest short
    rw [List.length_eq_zero_iff.mp (Nat.le_zero.mp short)]
    rfl
  | succ fuel ih =>
    intro rest short
    rw [chunksFrom]
    split
    · rename_i empty
      rw [empty]
      rfl
    · rename_i filled
      have left : (rest.drop size.value).length ≤ fuel := by
        rw [List.length_drop]
        have positive := size.positive
        omega
      rw [List.flatten_cons, ih _ left, List.take_append_drop]

/-- A text is cut into as many chunks as its size takes, the last one perhaps short. -/
theorem chunks_from_length (size : ChunkSize) : ∀ (fuel : ℕ) (rest : List Char),
    rest.length ≤ fuel →
      (chunksFrom size fuel rest).length = (rest.length + (size.value - 1)) / size.value := by
  have positive := size.positive
  intro fuel
  induction fuel with
  | zero =>
    intro rest short
    rw [Nat.le_zero.mp short, Nat.zero_add, Nat.div_eq_of_lt (by omega)]
    rfl
  | succ fuel ih =>
    intro rest short
    rw [chunksFrom]
    split
    · rename_i empty
      have none_left : rest.length = 0 := by rw [empty]; rfl
      rw [none_left, Nat.zero_add, Nat.div_eq_of_lt (by omega)]
      rfl
    · rename_i filled
      have some_char := List.length_pos_iff.mpr filled
      have left : (rest.drop size.value).length ≤ fuel := by
        rw [List.length_drop]
        omega
      rw [List.length_cons, ih _ left, List.length_drop]
      rcases Nat.lt_or_ge rest.length size.value with within | over_size
      · have one : (rest.length + (size.value - 1)) / size.value = 1 := by
          apply Nat.div_eq_of_lt_le <;> omega
        rw [Nat.sub_eq_zero_of_le within.le, Nat.zero_add, Nat.div_eq_of_lt (by omega), one]
      · rw [← Nat.add_div_right _ positive]
        congr 1
        omega

theorem split_fold_join {size : ChunkSize} {b64 : List Char} {headChars : ℤ}
    {chunks : List (List Char)} (split : splitFoldChunks size b64 headChars = .ok chunks) :
    chunks.flatten = b64 ∧ chunks.head?.map List.length = some (min b64.length headChars.toNat) := by
  unfold splitFoldChunks at split
  split at split
  · cases split
  · split at split
    · rename_i short
      cases split
      constructor
      · exact List.flatten_singleton
      · simp only [List.head?_cons, Option.map_some, Option.some.injEq]
        omega
    · cases split
      constructor
      · rw [List.flatten_cons, chunks_from_join _ _ _ (by rw [List.length_drop]; omega),
          List.take_append_drop]
      · simp only [List.head?_cons, Option.map_some, List.length_take, Option.some.injEq]
        omega

/-- A longer head never makes more chunks. -/
theorem split_fold_antitone {size : ChunkSize} {b64 : List Char} {short long : ℤ}
    {more fewer : List (List Char)} (shorter : short ≤ long)
    (first : splitFoldChunks size b64 short = .ok more)
    (second : splitFoldChunks size b64 long = .ok fewer) : fewer.length ≤ more.length := by
  unfold splitFoldChunks at first second
  split at first
  · cases first
  split at second
  · cases second
  split at second
  · cases second
    split at first
    · cases first
      exact le_refl _
    · cases first
      simp
  · rw [if_neg (by omega)] at first
    cases first
    cases second
    rw [List.length_cons, List.length_cons,
      chunks_from_length _ _ _ (by rw [List.length_drop]; omega),
      chunks_from_length _ _ _ (by rw [List.length_drop]; omega), List.length_drop,
      List.length_drop]
    apply Nat.succ_le_succ
    apply Nat.div_le_div_right
    omega

end Chunks

section Wire

structure ArchiveWire where
  json : String
  crc : String
  b64 : List Char
  chunks : List (List Char)

abbrev Splitter (ε : Type) := List Char → Except ε (List (List Char))

def archiveWire {ε : Type} (gzip : String → List ℕ) (splitter : Splitter ε) (json : String) :
    Except ε ArchiveWire :=
  (splitter (base64url (gzip json))).map
    (fun chunks => ⟨json, crc32Hex json, base64url (gzip json), chunks⟩)

end Wire

end XChainHub.Anchor.Publisher
