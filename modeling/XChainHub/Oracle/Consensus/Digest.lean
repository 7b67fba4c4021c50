import XChainHub.Consensus.EquivocationHeader
import XChainHub.Consensus.Gates.MirrorAdmissionGate
import XChainHub.Library.JsonText
import XChainHub.Library.ScriptOrder
import Mathlib.Data.Prod.Lex

/-!
The two canonical forms of a round's prices: the preimage of the digest it is voted under
(oracle/consensus/aggregate.js) and the payload it is signed under (oracle/consensus.js).
-/
namespace XChainHub.Oracle.Consensus
open EquivocationHeader hiding Plain
open JsonText MirrorAdmissionGate NumberText ScriptValue

section Preimage

def textOrEmpty (v : Value) : String := if v.isNullish then "" else v.asText

def digestEntry (p : Value) : String × String :=
  (textOrEmpty (p.field "coinPair"), textOrEmpty (p.field "price"))

/- By pair, then by price. -/
def digestOrder (a b : String × String) : Bool :=
  textLess a.1 b.1 || (!textLess b.1 a.1 && !textLess b.2 a.2)

def digestValue (e : String × String) : Value :=
  .object [("coinPair", .text e.1), ("price", .text e.2)]

def digestEntries (items : List Value) : List (String × String) :=
  (items.map digestEntry).insertionSort fun a b => digestOrder a b = true

def canonicalDigestPrices : Value → Value
  | .array items => .array ((digestEntries items).map digestValue)
  | v => v

def digest (sha256 : String → String) (round prices : Value) : String :=
  sha256 (stringify (.object [("round", round), ("prices", canonicalDigestPrices prices)]))

end Preimage

section Payload

/- The gates that a signed round reads, at the network of the hub. -/
structure RoundGates where
  network : String
  admissionEra : Value → Bool
  equivActivation : String → Option ℤ

/- parseInt of a wire field. -/
def parsed (v : Value) : Number :=
  match ScriptValue.parseInt v.asText with
  | none => .nan
  | some n =>
    normalized (n < 0) (Nat.toDigits 10 n.natAbs) (Nat.toDigits 10 n.natAbs).length

def signedEntry (p : Value) : Value × String :=
  ((p.field "coinPair").orElse (p.field "pair"), (p.field "price").asText)

def signedValue (e : Value × String) : Value := .object [("pair", e.1), ("price", .text e.2)]

def signedEntries (js : Builtins) (items : List Value) : List (Value × String) :=
  (items.map signedEntry).insertionSort fun a b => b.1.less js a.1 = false

def signedBody (round btcBlockTime btcBlockHeight : Value) (pairs : List Value) : Value :=
  .object [("round", .number (parsed round)), ("timestamp", .number (parsed btcBlockTime)),
    ("btc_block_height", .number (parsed btcBlockHeight)), ("pairs", .array pairs)]

/- none where an entry has no fields to read, or the map has no spelling. -/
def buildPriceV0Payload (js : Builtins) (g : RoundGates) (round btcBlockTime prices btcBlockHeight :
    Value) (admitBlocks : Option AdmissionMap) : Option String :=
  match prices with
  | .array items =>
    if items.any Value.isNullish then none
    else
      (admissionCanonicalField (g.admissionEra btcBlockHeight) admitBlocks).map fun tail =>
        let raw := stringify (signedBody round btcBlockTime btcBlockHeight
          ((signedEntries js items).map signedValue)) ++ tail
        if isEquivHeaderActive g.equivActivation (ScriptValue.parseInt btcBlockHeight.asText)
            g.network then
          buildEquivCanonical "XORACLE" (parsed btcBlockHeight).text "0" raw
        else raw
  | _ => none

end Payload

section Ordered
variable {items others : List Value} {a b c : String × String}

theorem digest_order_iff : digestOrder a b = true ↔
    codeUnits a.1 < codeUnits b.1 ∨ codeUnits a.1 = codeUnits b.1 ∧ codeUnits a.2 ≤ codeUnits b.2 := by
  simp only [digestOrder, Bool.or_eq_true, Bool.and_eq_true, Bool.not_eq_true', textLess,
    decide_eq_true_eq, decide_eq_false_iff_not, not_lt]
  constructor
  · rintro (less | ⟨le, order⟩)
    · exact Or.inl less
    · rcases le.lt_or_eq with less | same
      · exact Or.inl less
      · exact Or.inr ⟨same, order⟩
  · rintro (less | ⟨same, order⟩)
    · exact Or.inl less
    · exact Or.inr ⟨same.le, order⟩

theorem digest_order_lex : digestOrder a b = true ↔
    toLex (codeUnits a.1, codeUnits a.2) ≤ toLex (codeUnits b.1, codeUnits b.2) := by
  rw [digest_order_iff, Prod.Lex.toLex_le_toLex]

theorem digest_order_total (a b : String × String) :
    digestOrder a b = true ∨ digestOrder b a = true := by
  rw [digest_order_lex, digest_order_lex]
  exact le_total _ _

theorem digest_order_trans (first : digestOrder a b = true) (second : digestOrder b c = true) :
    digestOrder a c = true := by
  rw [digest_order_lex] at *
  exact first.trans second

theorem digest_order_antisymm (first : digestOrder a b = true) (second : digestOrder b a = true) :
    a = b := by
  rw [digest_order_lex] at *
  obtain ⟨key, text⟩ := Prod.mk.inj (toLex.injective (le_antisymm first second))
  exact Prod.ext (code_units_inj key) (code_units_inj text)

theorem digest_entries_sorted (items : List Value) :
    (digestEntries items).Pairwise fun a b => digestOrder a b = true := by
  have total : Std.Total fun a b : String × String => digestOrder a b = true :=
    ⟨digest_order_total⟩
  have trans : IsTrans (String × String) fun a b => digestOrder a b = true :=
    ⟨fun _ _ _ => digest_order_trans⟩
  exact List.pairwise_insertionSort _ _

/-- The preimage knows the entries and nothing of their order. -/
theorem digest_entries_iff : digestEntries items = digestEntries others ↔
    (items.map digestEntry).Perm (others.map digestEntry) := by
  have sorted (xs : List Value) : (digestEntries xs).Perm (xs.map digestEntry) :=
    List.perm_insertionSort _ _
  constructor
  · intro same
    exact (sorted items).symm.trans (same ▸ sorted others)
  · intro same
    apply ((sorted items).trans (same.trans (sorted others).symm)).eq_of_pairwise
    · intro a b _ _ first second
      exact digest_order_antisymm first second
    · exact digest_entries_sorted items
    · exact digest_entries_sorted others

end Ordered

section Texts
variable {round btcBlockTime btcBlockHeight : Value} {items others : List Value}

theorem digest_values_plain (entries : List (String × String)) :
    Plain (.array (entries.map digestValue)) := by
  rw [Plain]
  induction entries with
  | nil => trivial
  | cons e entries ih =>
    have names : Enumerated ["coinPair", "price"] := by decide
    refine ⟨?_, ih⟩
    rw [digestValue, Plain]
    exact ⟨names, trivial, trivial, trivial⟩

theorem array_text_inj {xs ys : List Value} (plain : Plain (.array xs)) (other : Plain (.array ys))
    (same : json (.array xs) = json (.array ys)) : xs = ys := by
  have values : Value.array xs = Value.array ys :=
    stringify_inj plain other (by rw [stringify, stringify, same])
  exact Value.array.inj values

theorem preimage_inj {xs ys : Value}
    (same : stringify (.object [("round", round), ("prices", xs)]) =
      stringify (.object [("round", round), ("prices", ys)])) (left : Defined xs = true)
    (right : Defined ys = true) : json xs = json ys := by
  have chars := String.ofList_injective same
  by_cases given : Defined round = true
  · simpa [json, jsonFields, jsonField, joinComma, given, left, right] using chars
  · simpa [json, jsonFields, jsonField, joinComma, given, left, right] using chars

/-- Under a hash without collisions one digest is one collection of entries. -/
theorem digest_eq_iff {sha256 : String → String}
    (collisionFree : ∀ a b, sha256 a = sha256 b → a = b) :
    digest sha256 round (.array items) = digest sha256 round (.array others) ↔
      (items.map digestEntry).Perm (others.map digestEntry) := by
  rw [← digest_entries_iff]
  constructor
  · intro same
    have texts := preimage_inj (collisionFree _ _ same) rfl rfl
    have values := array_text_inj (digest_values_plain _) (digest_values_plain _) texts
    apply List.map_injective_iff.mpr _ values
    rintro ⟨a, b⟩ ⟨c, d⟩ equal
    simp only [digestValue, Value.object.injEq, List.cons.injEq, Prod.mk.injEq, Value.text.injEq,
      true_and, and_true] at equal
    rw [equal.1, equal.2]
  · intro same
    rw [digest, digest, canonicalDigestPrices, canonicalDigestPrices, same]

theorem json_items_map (xs : List Value) : jsonItems xs = xs.map json := by
  induction xs with
  | nil => rfl
  | cons v xs ih => rw [jsonItems, ih, List.map_cons]

/- The part of the signed text that the prices make. -/
def pairTexts (js : Builtins) (items : List Value) : List (List Char) :=
  ((signedEntries js items).map signedValue).map json

/-- The payload is a function of the joined texts, and shows them. -/
theorem payload_eq_iff {js : Builtins} {g : RoundGates}
    (left : items.any Value.isNullish = false) (right : others.any Value.isNullish = false) :
    (∀ t h m, buildPriceV0Payload js g round t (.array items) h m =
      buildPriceV0Payload js g round t (.array others) h m) ↔
      joinComma (pairTexts js items) = joinComma (pairTexts js others) := by
  have body (t h : Value) (xs : List Value) : ∃ front back : List Char, ∀ ys : List Value,
      json (signedBody round t h ys) = front ++ joinComma (jsonItems ys) ++ back := by
    refine ⟨'{' :: (jsonField ("round", .number (parsed round)) ++ ',' ::
      (jsonField ("timestamp", .number (parsed t)) ++ ',' ::
        (jsonField ("btc_block_height", .number (parsed h)) ++ ',' :: (quote "pairs" ++ [':', '['])))),
      [']', '}'], ?_⟩
    intro ys
    simp [signedBody, json, jsonFields, jsonField, joinComma, Defined]
  constructor
  · intro same
    obtain ⟨front, back, shape⟩ := body .null .null []
    have at_null := same .null .null none
    simp only [buildPriceV0Payload, left, right, Bool.false_eq_true, if_false] at at_null
    have empty : admissionCanonicalField (g.admissionEra .null) none = some "" := by
      cases era : g.admissionEra .null <;> rfl
    rw [empty, Option.map_some, Option.map_some, Option.some.injEq] at at_null
    have raws : stringify (signedBody round .null .null ((signedEntries js items).map signedValue)) =
        stringify (signedBody round .null .null ((signedEntries js others).map signedValue)) := by
      split at at_null
      · simpa [buildEquivCanonical] using at_null
      · simpa using at_null
    have chars := String.ofList_injective raws
    rw [shape, shape, json_items_map, json_items_map] at chars
    exact List.append_cancel_left (List.append_cancel_right chars)
  · intro same t h m
    obtain ⟨front, back, shape⟩ := body t h []
    have raws : stringify (signedBody round t h ((signedEntries js items).map signedValue)) =
        stringify (signedBody round t h ((signedEntries js others).map signedValue)) := by
      rw [stringify, stringify, shape, shape, json_items_map, json_items_map]
      rw [pairTexts, pairTexts] at same
      rw [same]
    simp only [buildPriceV0Payload, left, right, Bool.false_eq_true, if_false, raws]

end Texts
end XChainHub.Oracle.Consensus
