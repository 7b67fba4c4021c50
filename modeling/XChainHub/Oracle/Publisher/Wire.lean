import Mathlib.Data.List.Sort
import XChainHub.CrossChain.Bridge.Legs
import XChainHub.Library.Base64Text
import XChainHub.Library.ScriptOrder

/-!
The PRICE batch wire: its body and its smaller form in oracle/publisher/wire.js, and the
compression both ends share in price_batch_compression.js. zlib is a parameter. Numbers of
a batch are whole, and texts hold no lone surrogates.
-/
namespace XChainHub.Oracle.Publisher
open Base64Text ScriptValue
open CrossChain.Bridge (intText)

section Compression

def PRICE_BATCH_COMPRESSION_MARKER : String := "Z"
def PRICE_WIRE_MAX_BYTES : ℕ := 8189
def PRICE_BATCH_MAX_INFLATE_RATIO : ℕ := 150

/- deflateRawSync at the best level and inflateRawSync without an output bound; an error is
   the message of what they throw. -/
structure Zlib where
  deflateRawSync : ByteArray → Except String ByteArray
  inflateRawSync : ByteArray → Except String ByteArray

/- Inflating what deflated gives it back. -/
def Zlib.Inverts (zlib : Zlib) : Prop :=
  ∀ bytes packed, zlib.deflateRawSync bytes = .ok packed → zlib.inflateRawSync packed = .ok bytes

inductive Reason where
  | empty
  | oversize
  | base64
  | ratioCap
  | sizeCap
  | inflate
  | notUtf8
  | emptyBody
  deriving DecidableEq

def Reason.text : Reason → String
  | .empty => "empty"
  | .oversize => "oversize-field"
  | .base64 => "non-canonical-base64"
  | .ratioCap => "ratio-cap"
  | .sizeCap => "size-cap"
  | .inflate => "inflate-failed"
  | .notUtf8 => "non-utf8"
  | .emptyBody => "empty-body"

inductive Detail where
  | none
  | size (n : ℕ)
  | message (text : String)
  deriving DecidableEq

structure Failure where
  reason : Reason
  status : String
  detail : Detail
  deriving DecidableEq

def fail (reason : Reason) (detail : Detail) : Failure :=
  ⟨reason, "invalid: COMPRESSION (" ++ reason.text ++ ")", detail⟩

structure Inflated where
  body : String
  compressedBytes : ℕ
  inflatedBytes : ℕ
  ratio : ℚ
  deriving DecidableEq

def bytesOf (bytes : List UInt8) : ByteArray := ⟨bytes.toArray⟩

/- The runtime's reading of a text that is shaped as Base64 skips its signs; what it reads
   must be written the same. -/
def decodeCanonicalBase64 (field : List Char) : Option (List UInt8) :=
  if field.length % 4 ≠ 0 then none
  else if ¬Padded field then none
  else
    let buf := fromBase64 field
    if buf.length = 0 then none
    else if base64 buf ≠ field then none
    else some buf

def compressPriceBatchBody (zlib : Zlib) (body : String) : Except String String :=
  (zlib.deflateRawSync body.toUTF8).map fun deflated => String.ofList (base64 deflated.data.toList)

def inflatePriceBatchBody (zlib : Zlib) (field : String) : Except Failure Inflated :=
  if field.toList.length = 0 then .error (fail .empty .none)
  else if PRICE_WIRE_MAX_BYTES < field.toList.length then
    .error (fail .oversize (.size field.toList.length))
  else
    match decodeCanonicalBase64 field.toList with
    | none => .error (fail .base64 .none)
    | some compressed =>
      let ratioCap := compressed.length * PRICE_BATCH_MAX_INFLATE_RATIO
      let outputCap := min PRICE_WIRE_MAX_BYTES ratioCap
      let bindingReason : Reason := if ratioCap ≤ PRICE_WIRE_MAX_BYTES then .ratioCap else .sizeCap
      match zlib.inflateRawSync (bytesOf compressed) with
      | .error message => .error (fail .inflate (.message message))
      | .ok inflated =>
        -- the bound throws as soon as the output passes it
        if outputCap < inflated.size then .error (fail bindingReason (.size outputCap))
        else if inflated.size = 0 then .error (fail .emptyBody .none)
        else
          match String.fromUTF8? inflated with
          | none => .error (fail .notUtf8 .none)
          | some body => .ok ⟨body, compressed.length, inflated.size, inflated.size / compressed.length⟩

/- A reader tells the forms apart on the first field after the version. -/
def readBody (zlib : Zlib) (wire : String) : Except Failure String :=
  let rest := wire.toList.drop "PRICE|0|".toList.length
  if rest.takeWhile (· ≠ '|') = PRICE_BATCH_COMPRESSION_MARKER.toList then
    (inflatePriceBatchBody zlib (String.ofList ((rest.dropWhile (· ≠ '|')).drop 1))).map Inflated.body
  else .ok (String.ofList rest)

end Compression

section Emission

structure BatchPair where
  pair : String
  price : String

/- admitBlocks is null where the round has none. -/
structure BatchRound where
  round : ℤ
  timestamp : ℤ
  btcBlockHeight : ℤ
  pairs : List BatchPair
  admitBlocks : Value

structure Sig where
  pubkey : String
  sig : String

/- admissionCanonicalValue for the network; it throws where the map is of the wrong era. -/
abbrev Admission := ℤ → Value → Except String (Option String)

def intString (n : ℤ) : String := String.ofList (intText n)

def byRound (a b : BatchRound) : Prop := a.round ≤ b.round

instance : DecidableRel byRound := fun a b => inferInstanceAs (Decidable (a.round ≤ b.round))

def byPair (a b : BatchPair) : Prop := textLess b.pair a.pair = false

instance : DecidableRel byPair := fun a b =>
  inferInstanceAs (Decidable (textLess b.pair a.pair = false))

def pairParts (pairs : List BatchPair) : List String :=
  (pairs.insertionSort byPair).flatMap fun p => [p.pair, p.price]

def roundParts (admission : Admission) (r : BatchRound) : Except String (List String) :=
  (admission r.btcBlockHeight r.admitBlocks).map fun admits =>
    [intString r.round, intString r.timestamp, intString r.btcBlockHeight,
      intString r.pairs.length] ++ pairParts r.pairs ++ admits.toList

def buildPriceBatchBody (admission : Admission) (firstRound lastRound btcBlockHeight : ℤ)
    (rounds : List BatchRound) (sigs : List Sig) : Except String String :=
  let ordered := rounds.insertionSort byRound
  match ordered.getLast? with
  | none => .error "Cannot read properties of undefined (reading 'btcBlockHeight')"
  | some newest =>
    if btcBlockHeight ≠ newest.btcBlockHeight then
      .error ("OraclePublisher: PRICE batch anchor " ++ intString btcBlockHeight ++
        " does not equal the last included round's anchor " ++ intString newest.btcBlockHeight ++
        "; both verifiers reject this wire. The anchor must be re-derived for every split.")
    else
      (ordered.mapM (roundParts admission)).map fun parts =>
        String.intercalate "|" ([intString firstRound, intString lastRound,
          intString newest.btcBlockHeight, intString ordered.length] ++ parts.flatten ++
          [intString sigs.length] ++ sigs.flatMap fun s => [s.pubkey, s.sig])

structure Emitted where
  wire : String
  bytes : ℕ
  compressed : Bool
  bodyBytes : ℕ
  deriving DecidableEq

def packedWire (field : String) : String :=
  "PRICE|0|" ++ PRICE_BATCH_COMPRESSION_MARKER ++ "|" ++ field

/- emitWire on a body that is built. -/
def emitBody (zlib : Zlib) (body : String) : Emitted :=
  let plain := "PRICE|0|" ++ body
  let uncompressed : Emitted := ⟨plain, plain.utf8ByteSize, false, body.utf8ByteSize⟩
  match compressPriceBatchBody zlib body with
  | .error _ => uncompressed
  | .ok field =>
    let packed := packedWire field
    if packed.utf8ByteSize < plain.utf8ByteSize then
      ⟨packed, packed.utf8ByteSize, true, body.utf8ByteSize⟩
    else uncompressed

def emitWire (zlib : Zlib) (admission : Admission) (firstRound lastRound btcBlockHeight : ℤ)
    (rounds : List BatchRound) (sigs : List Sig) : Except String Emitted :=
  (buildPriceBatchBody admission firstRound lastRound btcBlockHeight rounds sigs).map (emitBody zlib)

def wireFits (emitted : Emitted) : Bool :=
  emitted.bytes ≤ PRICE_WIRE_MAX_BYTES && emitted.bodyBytes ≤ PRICE_WIRE_MAX_BYTES

end Emission

section Sizes

theorem char_of_symbol {c : Char} (listed : c ∈ standardAlphabet ∨ c = '=') : c.utf8Size = 1 := by
  have letters : standardAlphabet.all (fun c => c.utf8Size == 1) = true := by decide +kernel
  rcases listed with symbol | rfl
  · exact eq_of_beq (List.all_eq_true.mp letters c symbol)
  · rfl

theorem plain_size {cs : List Char} (plain : ∀ c ∈ cs, c.utf8Size = 1) :
    (String.ofList cs).utf8ByteSize = cs.length := by
  induction cs with
  | nil => rfl
  | cons c cs ih =>
    rw [show c :: cs = [c] ++ cs from rfl, String.ofList_append, String.utf8ByteSize_append,
      ih (fun d member => plain d (List.mem_cons_of_mem c member)), List.length_append,
      List.length_singleton]
    have one : (String.ofList [c]).utf8ByteSize = c.utf8Size := by
      rw [← String.size_toByteArray, String.toByteArray_ofList, List.utf8Encode_singleton,
        List.size_toByteArray, String.length_utf8EncodeChar]
    rw [one, plain c List.mem_cons_self]

theorem field_size (bytes : List UInt8) :
    (String.ofList (base64 bytes)).utf8ByteSize = (bytes.length + 2) / 3 * 4 := by
  rw [← base64_length]
  apply plain_size
  intro c member
  apply char_of_symbol
  rcases List.mem_append.mp member with symbol | sign
  · exact Or.inl (symbols_mem bytes c symbol)
  · exact Or.inr (List.eq_of_mem_replicate sign)

theorem packed_size (field : String) : (packedWire field).utf8ByteSize = 10 + field.utf8ByteSize := by
  have head : ("PRICE|0|" ++ PRICE_BATCH_COMPRESSION_MARKER ++ "|").utf8ByteSize = 10 := by
    decide +kernel
  rw [packedWire, String.utf8ByteSize_append, head]

theorem plain_wire_size (body : String) :
    ("PRICE|0|" ++ body).utf8ByteSize = 8 + body.utf8ByteSize := by
  have head : "PRICE|0|".utf8ByteSize = 8 := by decide +kernel
  rw [String.utf8ByteSize_append, head]

end Sizes

section Reading
variable {zlib : Zlib} {body : String} {packed : ByteArray}

theorem decode_packed (filled : packed.size ≠ 0) :
    decodeCanonicalBase64 (base64 packed.data.toList) = some packed.data.toList := by
  have some_ : packed.data.toList ≠ [] := by
    intro empty
    apply filled
    rw [← ByteArray.size_data, ← Array.length_toList, empty, List.length_nil]
  have groups : (base64 packed.data.toList).length % 4 = 0 := by
    rw [base64_length]
    omega
  have length : packed.data.toList.length ≠ 0 := fun zero => some_ (List.eq_nil_of_length_eq_zero zero)
  simp only [decodeCanonicalBase64, groups, ne_eq, not_true_eq_false, if_false,
    padded_base64 some_, from_base64, length]

/-- What the reader makes of a field that the emitter packed. -/
theorem inflate_packed (inverts : zlib.Inverts)
    (deflated : zlib.deflateRawSync body.toUTF8 = .ok packed) (filled : body.utf8ByteSize ≠ 0)
    (short : (base64 packed.data.toList).length ≤ PRICE_WIRE_MAX_BYTES)
    (within : body.utf8ByteSize ≤ PRICE_WIRE_MAX_BYTES) :
    (inflatePriceBatchBody zlib (String.ofList (base64 packed.data.toList))).map Inflated.body =
      if packed.size = 0 then .error (fail .empty .none)
      else if body.utf8ByteSize ≤ packed.size * PRICE_BATCH_MAX_INFLATE_RATIO then .ok body
      else .error (fail .ratioCap (.size (packed.size * PRICE_BATCH_MAX_INFLATE_RATIO))) := by
  have size : packed.data.toList.length = packed.size := rfl
  have bytes : bytesOf packed.data.toList = packed := by
    rw [bytesOf, Array.toArray_toList]
  have long := base64_length packed.data.toList
  rw [size] at long
  unfold inflatePriceBatchBody
  rw [String.toList_ofList]
  by_cases zero : packed.size = 0
  · have none_left : (base64 packed.data.toList).length = 0 := by
      rw [long, zero]
    rw [if_pos none_left, if_pos zero]
    rfl
  · have some_left : (base64 packed.data.toList).length ≠ 0 := by omega
    have valid : String.fromUTF8? body.toUTF8 = some body := dif_pos body.isValidUTF8
    have length : body.toUTF8.size = body.utf8ByteSize := rfl
    rw [if_neg some_left, if_neg (not_lt.mpr short), decode_packed zero, if_neg zero]
    simp only [bytes, inverts _ _ deflated, size, length, valid, filled, if_false]
    by_cases ratio : body.utf8ByteSize ≤ packed.size * PRICE_BATCH_MAX_INFLATE_RATIO
    · rw [if_neg (not_lt.mpr (le_min within ratio)), if_pos ratio]
      rfl
    · have low : packed.size * PRICE_BATCH_MAX_INFLATE_RATIO ≤ PRICE_WIRE_MAX_BYTES := by omega
      rw [min_eq_right low, if_pos (not_le.mp ratio), if_neg ratio, if_pos low]
      rfl

theorem packed_form (zlib : Zlib) (field : String) :
    readBody zlib (packedWire field) = (inflatePriceBatchBody zlib field).map Inflated.body := by
  have chars : (packedWire field).toList = "PRICE|0|".toList ++ ('Z' :: '|' :: field.toList) := by
    rw [packedWire, PRICE_BATCH_COMPRESSION_MARKER, String.toList_append, String.toList_append,
      String.toList_append, List.append_assoc, List.append_assoc]
    rfl
  unfold readBody
  rw [chars, List.drop_left]
  have first : ('Z' :: '|' :: field.toList).takeWhile (· ≠ '|') =
      PRICE_BATCH_COMPRESSION_MARKER.toList := rfl
  have rest : (('Z' :: '|' :: field.toList).dropWhile (· ≠ '|')).drop 1 = field.toList := rfl
  simp only [first, rest, if_true, String.ofList_toList]

/- The first field of the body is no marker. -/
def Numbered (body : String) : Prop := ∃ (n : ℤ) (rest : List Char), body.toList = intText n ++ '|' :: rest

theorem int_text_no_marker (n : ℤ) : intText n ≠ PRICE_BATCH_COMPRESSION_MARKER.toList := by
  have marker : PRICE_BATCH_COMPRESSION_MARKER.toList = ['Z'] := rfl
  rw [marker]
  unfold intText
  split
  · exact fun same => absurd (List.cons.inj same).1 (by decide)
  · intro same
    have digit := NumberText.to_digits_plain n.natAbs 'Z' (by rw [same]; exact List.mem_singleton_self _)
    exact absurd digit (by decide)

theorem plain_form (zlib : Zlib) (numbered : Numbered body) :
    readBody zlib ("PRICE|0|" ++ body) = .ok body := by
  obtain ⟨n, rest, shape⟩ := numbered
  have front : ∀ c ∈ intText n, decide (c ≠ '|') = true := by
    intro c member
    rw [decide_eq_true_eq]
    rintro rfl
    exact CrossChain.Bridge.int_text_plain n member
  have first : body.toList.takeWhile (· ≠ '|') = intText n := by
    rw [shape, List.takeWhile_append_of_pos front, List.takeWhile_cons_of_neg (by decide),
      List.append_nil]
  unfold readBody
  rw [String.toList_append, List.drop_left]
  simp only [first, if_neg (int_text_no_marker n), String.ofList_toList]

end Reading

section Emitted
variable {zlib : Zlib} {admission : Admission} {firstRound lastRound btcBlockHeight : ℤ}
  {rounds : List BatchRound} {sigs : List Sig} {body : String}

theorem joined_numbered (n : ℤ) (next : String) (parts : List String) :
    Numbered (String.intercalate "|" (intString n :: next :: parts)) := by
  refine ⟨n, "|".toList.intercalate ((next :: parts).map String.toList), ?_⟩
  rw [String.toList_intercalate, List.map_cons, List.map_cons, List.intercalate_cons_cons,
    intString, String.toList_ofList, List.append_assoc]
  rfl

theorem body_numbered (built : buildPriceBatchBody admission firstRound lastRound btcBlockHeight
    rounds sigs = .ok body) : Numbered body := by
  unfold buildPriceBatchBody at built
  dsimp only at built
  split at built
  · cases built
  · split at built
    · cases built
    · cases collected : (rounds.insertionSort byRound).mapM (roundParts admission) with
      | error message =>
        rw [collected] at built
        cases built
      | ok parts =>
        rw [collected] at built
        cases built
        exact joined_numbered _ _ _

/-- Every wire that fits is read back as its body exactly if the deflated body, where it makes the
    smaller wire, is at least a hundred and fiftieth of the body. -/
theorem emitted_wire_read_iff (inverts : zlib.Inverts)
    (built : buildPriceBatchBody admission firstRound lastRound btcBlockHeight rounds sigs =
      .ok body) :
    ∃ emitted, emitWire zlib admission firstRound lastRound btcBlockHeight rounds sigs =
        .ok emitted ∧
      (wireFits emitted = true →
        (readBody zlib emitted.wire = .ok body ↔
          ∀ packed, zlib.deflateRawSync body.toUTF8 = .ok packed →
            2 + (packed.size + 2) / 3 * 4 < body.utf8ByteSize →
              body.utf8ByteSize ≤ packed.size * PRICE_BATCH_MAX_INFLATE_RATIO)) := by
  have numbered := body_numbered built
  refine ⟨emitBody zlib body, by rw [emitWire, built]; rfl, ?_⟩
  intro fits
  unfold wireFits at fits
  rw [Bool.and_eq_true, decide_eq_true_eq, decide_eq_true_eq] at fits
  unfold emitBody compressPriceBatchBody at fits ⊢
  cases deflated : zlib.deflateRawSync body.toUTF8 with
  | error message =>
    simp only [Except.map, plain_form zlib numbered, true_iff]
    rintro packed ⟨⟩
  | ok packed =>
    have size := field_size packed.data.toList
    have length : packed.data.toList.length = packed.size := rfl
    rw [length] at size
    simp only [deflated, Except.map, packed_size, plain_wire_size, size, Except.ok.injEq,
      forall_eq'] at fits ⊢
    by_cases smaller : 10 + (packed.size + 2) / 3 * 4 < 8 + body.utf8ByteSize
    · rw [if_pos smaller] at fits ⊢
      dsimp only at fits
      have field := base64_length packed.data.toList
      rw [length] at field
      rw [packed_form, inflate_packed inverts deflated (by omega) (by omega) fits.2]
      by_cases zero : packed.size = 0
      · rw [if_pos zero, zero]
        simp only [reduceCtorEq, false_iff]
        intro ratio
        have none_left := ratio (by rw [zero] at smaller; omega)
        omega
      · rw [if_neg zero]
        by_cases ratio : body.utf8ByteSize ≤ packed.size * PRICE_BATCH_MAX_INFLATE_RATIO
        · rw [if_pos ratio]
          simp only [true_iff]
          exact fun _ => ratio
        · rw [if_neg ratio]
          simp only [reduceCtorEq, false_iff]
          exact fun all => ratio (all (by omega))
    · rw [if_neg smaller] at fits ⊢
      simp only [plain_form zlib numbered, true_iff]
      intro larger
      omega

end Emitted

section Sample

@[irreducible] def ones (k : ℕ) : String := String.ofList (List.replicate k '1')

theorem ones_size (k : ℕ) : (ones k).utf8ByteSize = k := by
  unfold ones
  rw [plain_size (fun c member => by rw [List.eq_of_mem_replicate member]; rfl),
    List.length_replicate]

@[irreducible] def filler (c : Char) (k : ℕ) : String := String.ofList (List.replicate k c)

theorem filler_size {c : Char} (one : c.utf8Size = 1) (k : ℕ) : (filler c k).utf8ByteSize = k := by
  unfold filler
  rw [plain_size (fun d member => by rw [List.eq_of_mem_replicate member, one]),
    List.length_replicate]

/- One round with one price of k digits. -/
def sampleRounds (k : ℕ) : List BatchRound := [⟨1, 1, 1, [⟨"BTC/USD", ones k⟩], .null⟩]

def sampleSigs : List Sig := [⟨filler 'a' 64, filler 'b' 128⟩]

def unadmitted : Admission := fun _ _ => .ok none

def sampleBody (k : ℕ) : String :=
  String.intercalate "|" [intString 1, intString 1, intString 1, intString 1, intString 1,
    intString 1, intString 1, intString 1, "BTC/USD", ones k, intString 1, filler 'a' 64,
    filler 'b' 128]

theorem sample_built (k : ℕ) :
    buildPriceBatchBody unadmitted 1 1 1 (sampleRounds k) sampleSigs = .ok (sampleBody k) := rfl

theorem sample_size (k : ℕ) : (sampleBody k).utf8ByteSize = k + 220 := by
  have one : (intString 1).utf8ByteSize = 1 := by decide +kernel
  have bar : "|".utf8ByteSize = 1 := by decide +kernel
  have pair : "BTC/USD".utf8ByteSize = 7 := by decide +kernel
  have key : (filler 'a' 64).utf8ByteSize = 64 := filler_size rfl 64
  have sig : (filler 'b' 128).utf8ByteSize = 128 := filler_size rfl 128
  simp only [sampleBody, String.intercalate_cons_cons, String.intercalate_singleton,
    String.utf8ByteSize_append, one, bar, pair, key, sig, ones_size]
  omega

/- zlib's own stream for one body; every other text is stored behind a byte that starts no such
   stream. -/
def streamOf (body : ByteArray) (stream : List UInt8) : Zlib where
  deflateRawSync bytes := .ok (if bytes = body then bytesOf stream else ⟨#[1] ++ bytes.data⟩)
  inflateRawSync packed := .ok (if packed = bytesOf stream then body else ⟨packed.data.drop 1⟩)

theorem stream_inverts (body : ByteArray) (first : UInt8) (rest : List UInt8) (marked : first ≠ 1) :
    (streamOf body (first :: rest)).Inverts := by
  intro bytes packed deflated
  cases deflated
  by_cases same : bytes = body
  · simp only [streamOf, same, if_true]
  · have other : (⟨#[1] ++ bytes.data⟩ : ByteArray) ≠ bytesOf (first :: rest) := by
      intro equal
      have lists := congrArg (fun b => b.data.toList.head?) equal
      simp only [bytesOf, Array.toList_append, List.cons_append, List.head?_cons,
        Option.some.injEq] at lists
      exact marked lists.symm
    have kept : (#[1] ++ bytes.data).drop 1 = bytes.data := by
      rw [Array.drop_eq_extract]
      simp
    simp only [streamOf, same, if_false, other, kept]

/- The stream of the sample with 7800 digits, of 49 bytes. -/
def longStream : List UInt8 :=
  [237, 193, 49, 21, 192, 32, 16, 5, 48, 73, 188, 179, 64, 235, 0, 42, 160, 213, 241, 197, 119, 102,
    102, 96, 73, 82, 169, 101, 159, 87, 123, 198, 157, 2, 0, 0, 0, 0, 0, 0, 128, 13, 169, 188, 155,
    242, 29, 246, 3]

/- The stream of the sample with 3000 digits, of 45 bytes. -/
def shortStream : List UInt8 :=
  [51, 172, 49, 68, 129, 78, 33, 206, 250, 161, 193, 46, 53, 134, 163, 96, 20, 140, 130, 81, 48, 10,
    70, 193, 40, 24, 5, 163, 96, 20, 140, 130, 65, 15, 128, 77, 248, 68, 10, 65, 77, 210, 0, 3, 0]

theorem stream_deflates (body : ByteArray) (stream : List UInt8) :
    (streamOf body stream).deflateRawSync body = .ok (bytesOf stream) := by
  simp only [streamOf, if_true]

/-- The wire that fits is refused: its body of 8020 bytes is over a hundred and fifty times the 49
    that it deflates to. -/
theorem fitting_wire_refused :
    (streamOf (sampleBody 7800).toUTF8 longStream).Inverts ∧
    ∃ emitted, emitWire (streamOf (sampleBody 7800).toUTF8 longStream) unadmitted 1 1 1
        (sampleRounds 7800) sampleSigs = .ok emitted ∧
      emitted.compressed = true ∧ wireFits emitted = true ∧
      readBody (streamOf (sampleBody 7800).toUTF8 longStream) emitted.wire =
        .error (fail .ratioCap (.size 7350)) := by
  have inverts : (streamOf (sampleBody 7800).toUTF8 longStream).Inverts :=
    stream_inverts _ 237 longStream.tail (by decide)
  have deflated := stream_deflates (sampleBody 7800).toUTF8 longStream
  have size := sample_size 7800
  have packedLength : (bytesOf longStream).size = 49 := rfl
  have field : (String.ofList (base64 (bytesOf longStream).data.toList)).utf8ByteSize = 68 :=
    field_size _
  have short : (base64 (bytesOf longStream).data.toList).length = 68 := base64_length _
  refine ⟨inverts, ⟨packedWire (String.ofList (base64 (bytesOf longStream).data.toList)), 78, true,
    8020⟩, ?_, rfl, rfl, ?_⟩
  · have emitted : emitBody (streamOf (sampleBody 7800).toUTF8 longStream) (sampleBody 7800) =
        ⟨packedWire (String.ofList (base64 (bytesOf longStream).data.toList)), 78, true, 8020⟩ := by
      simp only [emitBody, compressPriceBatchBody, deflated, Except.map, packed_size,
        plain_wire_size, field, size]
      rfl
    rw [emitWire, sample_built, ← emitted]
    rfl
  · rw [packed_form, inflate_packed inverts deflated (by omega) (by rw [short]; decide)
      (by rw [size]; decide), packedLength, size]
    rfl

theorem long_price_read_back :
    readBody (streamOf (sampleBody 3000).toUTF8 shortStream)
      (packedWire (String.ofList (base64 (bytesOf shortStream).data.toList))) =
        .ok (sampleBody 3000) := by
  have inverts : (streamOf (sampleBody 3000).toUTF8 shortStream).Inverts :=
    stream_inverts _ 51 shortStream.tail (by decide)
  have deflated := stream_deflates (sampleBody 3000).toUTF8 shortStream
  have size := sample_size 3000
  have field : (String.ofList (base64 (bytesOf shortStream).data.toList)).utf8ByteSize = 60 :=
    field_size _
  obtain ⟨emitted, sent, read⟩ := emitted_wire_read_iff inverts (sample_built 3000)
  have known : emitted =
      ⟨packedWire (String.ofList (base64 (bytesOf shortStream).data.toList)), 70, true, 3220⟩ := by
    rw [emitWire, sample_built] at sent
    cases sent
    simp only [emitBody, compressPriceBatchBody, deflated, packed_size, plain_wire_size, field, size,
      Except.map]
    rfl
  subst known
  refine (read rfl).mpr ?_
  intro packed given _
  rw [deflated] at given
  cases given
  rw [size]
  decide

end Sample

end XChainHub.Oracle.Publisher
