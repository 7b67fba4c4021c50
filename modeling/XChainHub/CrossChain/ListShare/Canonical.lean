import XChainHub.Lib.CanonicalInt
import XChainHub.Library.DelimitedText
import XChainHub.Library.JsonText
import XChainHub.Library.OrderedDelta

/-!
Members, hashes and deltas of a shared list: cross_chain/list/canonical.js and meta_text.js.
-/
namespace XChainHub.ListShare
open HexText DelimitedText ScriptValue JsonText OrderedDelta

/- The digest of a text, in hexadecimal. -/
abbrev Sha256 := String → { digest : String // LowerHex 64 digest }

section Members

def utf8 (member : String) : List ℕ := member.toUTF8.data.toList.map UInt8.toNat

/- Buffer.compare orders members by their bytes. -/
def inOrder (a b : String) : Bool := utf8 a < utf8 b

def isCanonicalOrder : List String → Bool
  | [] => true
  | [_] => true
  | a :: b :: rest => inOrder a b && isCanonicalOrder (b :: rest)

/- The texts of an array, none where it holds anything else. -/
def textItems : List Value → Option (List String)
  | [] => some []
  | .text s :: rest => (textItems rest).map (s :: ·)
  | _ :: _ => none

/- JSON.parse of a column, none where it throws or is not an array of texts. -/
def parseMembers (text : String) : Option (List String) :=
  match parse text with
  | some (.array items) => textItems items
  | _ => none

def membersText (members : List String) : String := stringify (.array (members.map Value.text))

def listMembersHash (sha256 : Sha256) (members : List String) : String :=
  (sha256 (String.intercalate "|" ("MEMBERS" :: toString members.length :: members))).val

def listDelta (prev next : List String) : List String × List String :=
  (missingFrom utf8 next prev, missingFrom utf8 prev next)

def applyListDelta (prev added removed : List String) : Option (List String) :=
  if isCanonicalOrder added && isCanonicalOrder removed && !added.any (· ∈ prev) &&
      !removed.any (fun member => member ∉ prev || member ∈ added) then
    some (applied utf8 prev added removed)
  else none

end Members

section Meta

/- An absent name is null or undefined. -/
def listMetaHash (sha256 : Sha256) (name description : Option String) : String :=
  if name.isNone && description.isNone then ""
  else (sha256 (String.intercalate "|" ["LISTMETA", name.getD "", description.getD ""])).val

def isBannedCodePoint (cp : ℕ) (allowLf : Bool) : Bool :=
  if cp = 0x0A then !allowLf
  else cp ≤ 0x1F || (0x7F ≤ cp && cp ≤ 0x9F) || (0x200B ≤ cp && cp ≤ 0x200D) || cp = 0x2060 ||
    cp = 0xFEFF || cp = 0x200E || cp = 0x200F || (0x202A ≤ cp && cp ≤ 0x202E) ||
    (0x2066 ≤ cp && cp ≤ 0x2069)

def isEdgeCodePoint (cp : ℕ) (allowLf : Bool) : Bool :=
  cp = 0x20 || cp = 0xA0 || cp = 0x1680 || (0x2000 ≤ cp && cp ≤ 0x200A) || cp = 0x2028 ||
    cp = 0x2029 || cp = 0x202F || cp = 0x205F || cp = 0x3000 || (cp = 0x0A && allowLf)

def isValidMetaText (s : String) (maxBytes : ℕ) (allowLf : Bool) : Bool :=
  1 ≤ byteLength s && byteLength s ≤ maxBytes &&
    s.toList.all (fun c => !isBannedCodePoint c.toNat allowLf) &&
    (s.toList.head?).all (fun c => !isEdgeCodePoint c.toNat allowLf) &&
    (s.toList.getLast?).all (fun c => !isEdgeCodePoint c.toNat allowLf)

def isValidListMetaField (value : Option String) (maxBytes : ℕ) : Bool :=
  value.all (fun s => s ≠ "" && !('|' ∈ s.toList) && !(';' ∈ s.toList) && s ≠ "-" &&
    byteLength s ≤ maxBytes && isValidMetaText s maxBytes false)

end Meta

section Laws
variable {sha256 : Sha256} {members prev next : List String}

theorem utf8_injective : Function.Injective utf8 := by
  intro a b same
  have bytes : a.toUTF8.data.toList = b.toUTF8.data.toList :=
    List.map_injective_iff.mpr (fun _ _ => UInt8.toNat_inj.mp) same
  exact String.toByteArray_inj.mp (ByteArray.ext (Array.toList_inj.mp bytes))

theorem canonical_order_iff : isCanonicalOrder members = true ↔ Canonical utf8 members := by
  rw [Canonical]
  induction members with
  | nil => simp [isCanonicalOrder]
  | cons a rest ih =>
    cases rest with
    | nil => simp [isCanonicalOrder]
    | cons b rest =>
      rw [isCanonicalOrder, Bool.and_eq_true, ih, inOrder, decide_eq_true_eq, List.pairwise_cons (a := a)]
      constructor
      · rintro ⟨first, later⟩
        refine ⟨?_, later⟩
        intro c member
        rcases List.mem_cons.mp member with rfl | further
        · exact first
        · exact lt_trans first ((List.pairwise_cons.mp later).1 c further)
      · rintro ⟨first, later⟩
        exact ⟨first b List.mem_cons_self, later⟩

theorem text_items_texts (members : List String) : textItems (members.map Value.text) = some members := by
  induction members with
  | nil => rfl
  | cons member rest ih => simp [textItems, ih]

theorem plain_texts (members : List String) : PlainItems (members.map Value.text) := by
  induction members with
  | nil => trivial
  | cons member rest ih => exact ⟨trivial, ih⟩

/-- What is written as JSON is read back. -/
theorem parse_members_text (members : List String) : parseMembers (membersText members) = some members := by
  have plain : Plain (.array (members.map Value.text)) := plain_texts members
  rw [parseMembers, membersText, parse_stringify plain]
  exact text_items_texts members

theorem delta_canonical (prevCanonical : isCanonicalOrder prev = true)
    (nextCanonical : isCanonicalOrder next = true) :
    isCanonicalOrder (listDelta prev next).1 = true ∧ isCanonicalOrder (listDelta prev next).2 = true :=
  ⟨canonical_order_iff.mpr (missing_canonical (canonical_order_iff.mp nextCanonical) _),
    canonical_order_iff.mpr (missing_canonical (canonical_order_iff.mp prevCanonical) _)⟩

/-- Applying the delta between two lists to the first gives the second. -/
theorem apply_list_delta (prevCanonical : isCanonicalOrder prev = true)
    (nextCanonical : isCanonicalOrder next = true) :
    applyListDelta prev (listDelta prev next).1 (listDelta prev next).2 = some next := by
  obtain ⟨added, removed⟩ := delta_canonical prevCanonical nextCanonical
  have fresh : ((listDelta prev next).1).any (· ∈ prev) = false := by
    rw [List.any_eq_false]
    intro member new
    simpa using (mem_missing.mp new).2
  have held : ((listDelta prev next).2).any (fun member => member ∉ prev ||
      member ∈ (listDelta prev next).1) = false := by
    rw [List.any_eq_false]
    intro member old
    obtain ⟨inPrev, notNext⟩ := mem_missing.mp old
    have notAdded : member ∉ (listDelta prev next).1 := fun new => notNext (mem_missing.mp new).1
    simp [inPrev, notAdded]
  simp only [applyListDelta, added, removed, fresh, held, Bool.and_self, Bool.not_false, if_true]
  exact congrArg some (applied_delta utf8_injective (canonical_order_iff.mp prevCanonical)
    (canonical_order_iff.mp nextCanonical))

theorem members_hash_hex (members : List String) : LowerHex 64 (listMembersHash sha256 members) :=
  (sha256 _).property

theorem meta_hash_hex (name description : Option String) :
    listMetaHash sha256 name description = "" ∨ LowerHex 64 (listMetaHash sha256 name description) := by
  simp only [listMetaHash]
  split
  · exact Or.inl rfl
  · exact Or.inr (sha256 _).property

end Laws
end XChainHub.ListShare
