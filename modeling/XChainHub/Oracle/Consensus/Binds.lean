import XChainHub.Oracle.Consensus.CoSignGate
import XChainHub.Oracle.Consensus.Digest

/-!
When the digest of a proposal that passes the co-sign gate settles the bytes it is signed
as: the payload sorts by pair alone, and reads pairs that the preimage coerces.
-/
namespace XChainHub.Oracle.Consensus
open JsonText ScriptValue

section Named
variable {f : Follower} {sender : String} {submissions : Submissions} {items others : List Value}
  {p : Value} {js : Builtins}

def PairName (p : Value) (s : String) : Prop := p.field "coinPair" = .text s ∧ s ≠ ""

/- A pair and price as the payload carries them. -/
def lift (e : String × String) : Value × String := (.text e.1, e.2)

def byPair (a b : String × String) : Bool := !textLess b.1 a.1

theorem price_given (passes : priceRejected f sender submissions p = false) :
    (p.field "price").isNullish = false := by
  rw [priceRejected] at passes
  cases shape : p.field "price" with
  | undefined =>
    rw [shape] at passes
    cases passes
  | null =>
    rw [shape] at passes
    cases passes
  | _ => rfl

theorem passing_not_nullish (passes : ∀ p ∈ items, priceRejected f sender submissions p = false) :
    items.any Value.isNullish = false := by
  rw [List.any_eq_false]
  intro p member nullish
  have given := price_given (passes p member)
  cases p with
  | undefined => cases given
  | null => cases given
  | _ => cases nullish

theorem signed_named (passes : priceRejected f sender submissions p = false)
    (named : ∃ s, PairName p s) : signedEntry p = lift (digestEntry p) := by
  obtain ⟨s, shape, filled⟩ := named
  have price : textOrEmpty (p.field "price") = (p.field "price").asText := by
    rw [textOrEmpty, price_given passes, if_neg (by decide)]
  have kept : s.isEmpty = false := by
    rw [Bool.eq_false_iff, Ne, String.isEmpty_iff]
    exact filled
  rw [signedEntry, lift, digestEntry, price, shape]
  simp only [textOrEmpty, Value.orElse, Value.isFalsy, kept, Value.isNullish, Value.asText,
    Bool.false_eq_true, if_false]

theorem by_pair_total (a b : String × String) : byPair a b = true ∨ byPair b a = true := by
  simp only [byPair, textLess, Bool.not_eq_true', decide_eq_false_iff_not, not_lt]
  exact le_total _ _

theorem by_pair_trans {a b c : String × String} (first : byPair a b = true)
    (second : byPair b c = true) : byPair a c = true := by
  simp only [byPair, textLess, Bool.not_eq_true', decide_eq_false_iff_not, not_lt] at *
  exact first.trans second

theorem by_pair_sorted (entries : List (String × String)) :
    (entries.insertionSort fun a b => byPair a b = true).Pairwise fun a b => byPair a b = true := by
  have total : Std.Total fun a b : String × String => byPair a b = true := ⟨by_pair_total⟩
  have trans : IsTrans (String × String) fun a b => byPair a b = true :=
    ⟨fun _ _ _ => by_pair_trans⟩
  exact List.pairwise_insertionSort _ _

/-- Over named pairs the payload sorts the entries of the preimage, by pair alone. -/
theorem signed_entries_named (passes : ∀ p ∈ items, priceRejected f sender submissions p = false)
    (named : ∀ p ∈ items, ∃ s, PairName p s) :
    signedEntries js items =
      ((items.map digestEntry).insertionSort fun a b => byPair a b = true).map lift := by
  have lifted : items.map signedEntry = (items.map digestEntry).map lift := by
    rw [List.map_map]
    exact List.map_congr_left fun p member => signed_named (passes p member) (named p member)
  rw [signedEntries, lifted]
  symm
  apply List.map_insertionSort
  intro a _ b _
  simp [byPair, lift, Value.less, Value.primitive]

end Named

section Sufficient
variable {f : Follower} {sender : String} {submissions : Submissions} {items others : List Value}

/- What a proposal must be for its digest to settle its bytes. -/
structure Settled (f : Follower) (sender : String) (submissions : Submissions)
    (items : List Value) : Prop where
  single : ∀ p ∈ items, ∀ q ∈ items,
    (digestEntry p).1 = (digestEntry q).1 → (digestEntry p).2 = (digestEntry q).2
  named : ∀ p ∈ items, ∃ s, PairName p s
  known : f.canonicalPairs ≠ [] ∨ f.allowUnverifiedPairs = false ∨
    ∀ p ∈ items, (digestEntry p).1 ∈ demanded f sender submissions ∧
      (items.filter fun q => (digestEntry q).1 = (digestEntry p).1).length = 1

theorem text_of_some {v : Value} {s : String} (text : v.textOf = some s) : v = .text s := by
  cases v with
  | text t =>
    rw [Value.textOf, Option.some.injEq] at text
    rw [text]
  | _ => cases text

theorem name_text {p : Value} {s : String} (name : PairName p s) : (digestEntry p).1 = s := by
  simp [digestEntry, textOrEmpty, name.1, Value.isNullish, Value.asText]

/-- Another proposal of the same entries has no pair under another spelling. -/
theorem settled_named (settled : Settled f sender submissions items)
    (passes : coSignGateRejects f sender submissions (.array others) = false)
    (same : (others.map digestEntry).Perm (items.map digestEntry)) :
    ∀ p ∈ others, ∃ s, PairName p s := by
  intro p member
  obtain ⟨each, _, covered⟩ := gate_passes_iff.mp passes
  obtain ⟨q, in_items, twin⟩ := List.mem_map.mp (same.mem_iff.mp (List.mem_map_of_mem member))
  obtain ⟨s, name⟩ := settled.named q in_items
  have text : (digestEntry p).1 = s := by rw [← twin, name_text name]
  cases odd : (p.field "coinPair").textOf with
  | some s' =>
    have shape := text_of_some odd
    have equal : s' = s := by
      simpa [digestEntry, textOrEmpty, shape, Value.isNullish, Value.asText] using text
    exact ⟨s', shape, equal ▸ name.2⟩
  | none =>
    -- Only a pair that coverage demands by name is safe from another spelling.
    have passing := each p member
    rw [priceRejected] at passing
    split at passing
    · cases passing
    · simp only [Bool.or_eq_false_iff] at passing
      obtain ⟨unlisted, lenient⟩ := (odd_pair_passes_iff odd).mp passing.2
      rcases settled.known with listed | strict | known
      · exact absurd unlisted listed
      · rw [lenient] at strict
        cases strict
      · obtain ⟨needed, once⟩ := known q in_items
        rw [name_text name] at needed once
        obtain ⟨r, member', spelled⟩ := covered s needed
        have r_text : (digestEntry r).1 = s := by
          simp [digestEntry, textOrEmpty, text_of_some spelled, Value.isNullish, Value.asText]
        have count : (others.filter fun q => (digestEntry q).1 = s).length = 1 := by
          have counts := same.countP_eq fun e : String × String => decide (e.1 = s)
          rw [List.countP_map, List.countP_map, List.countP_eq_length_filter,
            List.countP_eq_length_filter] at counts
          exact counts.trans once
        obtain ⟨x, only⟩ := List.length_eq_one_iff.mp count
        have p_in : p ∈ [x] := only ▸ List.mem_filter.mpr ⟨member, by simpa using text⟩
        have r_in : r ∈ [x] := only ▸ List.mem_filter.mpr ⟨member', by simpa using r_text⟩
        rw [List.mem_singleton] at p_in r_in
        rw [r_in, ← p_in, odd] at spelled
        cases spelled

/-- Named pairs at one price each are sorted into one list, however they came. -/
theorem settled_entries (settled : Settled f sender submissions items)
    (same : (others.map digestEntry).Perm (items.map digestEntry)) :
    ((others.map digestEntry).insertionSort fun a b => byPair a b = true) =
      (items.map digestEntry).insertionSort fun a b => byPair a b = true := by
  have left := List.perm_insertionSort (fun a b => byPair a b = true) (others.map digestEntry)
  have right := List.perm_insertionSort (fun a b => byPair a b = true) (items.map digestEntry)
  refine ((left.trans same).trans right.symm).eq_of_pairwise ?_ (by_pair_sorted _)
    (by_pair_sorted _)
  intro a b member member' first second
  obtain ⟨p, p_in, rfl⟩ := List.mem_map.mp ((left.trans same).mem_iff.mp member)
  obtain ⟨q, q_in, rfl⟩ := List.mem_map.mp (right.mem_iff.mp member')
  rw [byPair, Bool.not_eq_true'] at first second
  have pair := text_order_antisymm second first
  exact Prod.ext pair (settled.single p p_in q q_in pair)

end Sufficient

section Respelled
variable {f : Follower} {sender : String} {submissions : Submissions} {items front back : List Value}
  {p q : Value} {js : Builtins}

theorem join_length (parts : List (List Char)) :
    (joinComma parts).length = (parts.map List.length).sum + (parts.length - 1) := by
  induction parts with
  | nil => rfl
  | cons a parts ih =>
    cases parts with
    | nil => simp [joinComma]
    | cons b parts =>
      rw [join_cons a (by simp), List.length_append, List.length_cons, ih]
      simp only [List.map_cons, List.sum_cons, List.length_cons]
      omega

def textSize (p : Value) : ℕ := (json (signedValue (signedEntry p))).length

/-- The size of the signed pairs does not see how they are sorted. -/
theorem pair_texts_size (js : Builtins) (items : List Value) :
    (joinComma (pairTexts js items)).length = (items.map textSize).sum + (items.length - 1) := by
  have sorted := List.perm_insertionSort
    (fun a b : Value × String => b.1.less js a.1 = false) (items.map signedEntry)
  have sizes := (sorted.map fun e => (json (signedValue e)).length).sum_eq
  have count := sorted.length_eq
  rw [List.map_map] at sizes
  rw [List.length_map] at count
  rw [join_length, pairTexts, signedEntries, List.map_map, List.map_map, List.length_map,
    List.length_map, count]
  exact congrArg (· + (items.length - 1)) sizes

/- The entry with its pair spelled otherwise, and another pair in the second field. -/
def respelled (p pair second : Value) : Value :=
  .object [("coinPair", pair), ("price", p.field "price"), ("pair", second)]

theorem respelled_fields (p pair second : Value) :
    (respelled p pair second).field "coinPair" = pair ∧
      (respelled p pair second).field "price" = p.field "price" ∧
      (respelled p pair second).field "pair" = second :=
  ⟨rfl, rfl, rfl⟩

theorem price_rejected_respelled {pair second : Value}
    (passes : priceRejected f sender submissions p = false)
    (accepted : ∀ price, pairRejected f sender submissions (p.field "coinPair") price = false →
      pairRejected f sender submissions pair price = false) :
    priceRejected f sender submissions (respelled p pair second) = false := by
  obtain ⟨coin, price, _⟩ := respelled_fields p pair second
  rw [priceRejected, price, coin]
  rw [priceRejected] at passes
  split at passes
  · cases passes
  · rename_i canon found
    simp only [Bool.or_eq_false_iff] at passes ⊢
    exact ⟨passes.1, accepted _ passes.2⟩

/-- One entry exchanged for another that passes, where coverage does not miss it. -/
theorem gate_passes_exchanged
    (passes : coSignGateRejects f sender submissions (.array (front ++ p :: back)) = false)
    (accepted : priceRejected f sender submissions q = false)
    (kept : ∀ pair ∈ demanded f sender submissions, (p.field "coinPair").textOf = some pair →
      (q.field "coinPair").textOf = some pair ∨
        ∃ r ∈ front ++ back, (r.field "coinPair").textOf = some pair) :
    coSignGateRejects f sender submissions (.array (front ++ q :: back)) = false := by
  rw [gate_passes_iff] at passes ⊢
  obtain ⟨each, _, covered⟩ := passes
  refine ⟨?_, by simp, ?_⟩
  · intro r member
    rw [List.mem_append, List.mem_cons] at member
    rcases member with left | rfl | right
    · exact each r (by simp [left])
    · exact accepted
    · exact each r (by simp [right])
  · intro pair needed
    obtain ⟨r, member, text⟩ := covered pair needed
    rw [List.mem_append, List.mem_cons] at member
    rcases member with left | rfl | right
    · exact ⟨r, by simp [left], text⟩
    · rcases kept pair needed text with again | ⟨r, other, text⟩
      · exact ⟨q, by simp, again⟩
      · rcases List.mem_append.mp other with left | right
        · exact ⟨r, by simp [left], text⟩
        · exact ⟨r, by simp [right], text⟩
    · exact ⟨r, by simp [right], text⟩

theorem array_text (s : String) : (Value.array [.text s]).asText = s ∧
    (Value.array [.array [.text s]]).asText = s := by
  have once : String.intercalate "," [s] = s := rfl
  constructor
  · simp [Value.asText, itemTexts, Value.isNullish, once]
  · simp [Value.asText, itemTexts, Value.isNullish, once]

theorem signed_size (v : Value) (price : String) (defined : Defined v = true) :
    (json (signedValue (v, price))).length =
      (json v).length + (quote "pair" ++ quote "price" ++ quote price).length + 5 := by
  simp [signedValue, json, jsonFields, jsonField, joinComma, defined,
    show Defined (.text price) = true from rfl]
  omega

end Respelled

section Necessary
variable {f : Follower} {sender : String} {submissions : Submissions} {items front back : List Value}
  {p q : Value} {js : Builtins} {g : RoundGates} {sha256 : String → String} {round : Value}

/- Whatever passes the gate under the digest of these prices is signed as they are. -/
def BindsBytes (js : Builtins) (g : RoundGates) (sha256 : String → String) (f : Follower)
    (sender : String) (submissions : Submissions) (round : Value) (items : List Value) : Prop :=
  ∀ q, coSignGateRejects f sender submissions q = false →
    digest sha256 round q = digest sha256 round (.array items) →
    ∀ t h m, buildPriceV0Payload js g round t q h m =
      buildPriceV0Payload js g round t (.array items) h m

theorem digest_of_entries {others : List Value}
    (same : (others.map digestEntry).Perm (items.map digestEntry)) :
    digest sha256 round (.array others) = digest sha256 round (.array items) := by
  rw [digest, digest, canonicalDigestPrices, canonicalDigestPrices, digest_entries_iff.mpr same]

theorem binds_texts {others : List Value}
    (binds : BindsBytes js g sha256 f sender submissions round items)
    (passes : coSignGateRejects f sender submissions (.array items) = false)
    (again : coSignGateRejects f sender submissions (.array others) = false)
    (same : (others.map digestEntry).Perm (items.map digestEntry)) :
    joinComma (pairTexts js others) = joinComma (pairTexts js items) :=
  (payload_eq_iff (passing_not_nullish (gate_passes_iff.mp again).1)
    (passing_not_nullish (gate_passes_iff.mp passes).1)).mp
      (binds _ again (digest_of_entries same))

theorem exchanged_size
    (binds : BindsBytes js g sha256 f sender submissions round (front ++ p :: back))
    (passes : coSignGateRejects f sender submissions (.array (front ++ p :: back)) = false)
    (again : coSignGateRejects f sender submissions (.array (front ++ q :: back)) = false)
    (same : digestEntry q = digestEntry p) : textSize q = textSize p := by
  have entries : ((front ++ q :: back).map digestEntry).Perm
      ((front ++ p :: back).map digestEntry) := by
    rw [List.map_append, List.map_append, List.map_cons, List.map_cons, same]
  have sizes := congrArg List.length (binds_texts binds passes again entries)
  rw [pair_texts_size, pair_texts_size] at sizes
  simp only [List.map_append, List.map_cons, List.sum_append, List.sum_cons, List.length_append,
    List.length_cons] at sizes
  omega

/-- An entry whose pair can stand in the second field, or in arrays, is not settled. -/
theorem not_respelled
    (binds : BindsBytes js g sha256 f sender submissions round (front ++ p :: back))
    (passes : coSignGateRejects f sender submissions (.array (front ++ p :: back)) = false) :
    (p.field "coinPair").isFalsy = false ∧
      ¬(f.canonicalPairs = [] ∧ f.allowUnverifiedPairs = true ∧
        ∀ pair ∈ demanded f sender submissions, (p.field "coinPair").textOf = some pair →
          ∃ r ∈ front ++ back, (r.field "coinPair").textOf = some pair) := by
  have own : priceRejected f sender submissions p = false :=
    (gate_passes_iff.mp passes).1 p (by simp)
  have truthy : (p.field "coinPair").isFalsy = false := by
    by_contra falsy
    rw [Bool.not_eq_false] at falsy
    have size (x : String) : textSize (respelled p (p.field "coinPair") (.text x)) = textSize p := by
      apply exchanged_size binds passes
      · apply gate_passes_exchanged passes
        · exact price_rejected_respelled own fun _ accepted => accepted
        · exact fun pair _ text => Or.inl text
      · rfl
    have short (x : String) : textSize (respelled p (p.field "coinPair") (.text x)) =
        (quote x).length + (quote "pair" ++ quote "price" ++
          quote (p.field "price").asText).length + 5 := by
      obtain ⟨coin, price, second⟩ := respelled_fields p (p.field "coinPair") (.text x)
      rw [textSize, signedEntry, coin, price, second, Value.orElse, falsy, if_pos rfl,
        signed_size _ _ rfl, json]
    have one := (short "a").symm.trans (size "a")
    have two := (short "aa").symm.trans (size "aa")
    have lengths : (quote "a").length = 3 ∧ (quote "aa").length = 4 := by decide
    omega
  refine ⟨truthy, ?_⟩
  rintro ⟨unlisted, lenient, covered⟩
  obtain ⟨s, text⟩ : ∃ s, s = (digestEntry p).1 := ⟨_, rfl⟩
  have size (items : List Value) (spelled : (Value.array items).asText = s) :
      textSize (respelled p (.array items) .null) = textSize p := by
    apply exchanged_size binds passes
    · apply gate_passes_exchanged passes
      · apply price_rejected_respelled own
        intro price _
        exact (odd_pair_passes_iff rfl).mpr ⟨unlisted, lenient⟩
      · exact fun pair needed named => Or.inr (covered pair needed named)
    · apply Prod.ext
      · rw [← text, ← spelled]
        rfl
      · rfl
  have short (items : List Value) : textSize (respelled p (.array items) .null) =
      (json (.array items)).length + (quote "pair" ++ quote "price" ++
        quote (p.field "price").asText).length + 5 := by
    obtain ⟨coin, price, second⟩ := respelled_fields p (.array items) .null
    have kept : (Value.array items).orElse .null = .array items := rfl
    rw [textSize, signedEntry, coin, price, second, kept, signed_size _ _ rfl]
  have one := (short _).symm.trans (size [.text s] (array_text s).1)
  have two := (short _).symm.trans (size [.array [.text s]] (array_text s).2)
  have nested : (json (.array [.array [.text s]])).length = (json (.array [.text s])).length + 2 := by
    simp [json, jsonItems, joinComma]
  omega

/- By pair, and then by price downwards. -/
def reversedOrder (a b : String × String) : Bool := digestOrder (a.1, b.2) (b.1, a.2)

theorem sorted_by (order : String × String → String × String → Bool)
    (total : ∀ a b, order a b = true ∨ order b a = true)
    (trans : ∀ a b c, order a b = true → order b c = true → order a c = true)
    (items : List Value) : ∃ others : List Value, others.Perm items ∧
      (others.map digestEntry).Pairwise fun a b => order a b = true := by
  have total : Std.Total fun p q : Value => order (digestEntry p) (digestEntry q) = true :=
    ⟨fun p q => total _ _⟩
  have trans : IsTrans Value fun p q => order (digestEntry p) (digestEntry q) = true :=
    ⟨fun p q r => trans _ _ _⟩
  refine ⟨items.insertionSort fun p q => order (digestEntry p) (digestEntry q) = true,
    List.perm_insertionSort _ _, ?_⟩
  rw [List.pairwise_map]
  exact List.pairwise_insertionSort _ _

theorem reversed_order_trans (a b c : String × String) (first : reversedOrder a b = true)
    (second : reversedOrder b c = true) : reversedOrder a c = true := by
  have lex (p q : String × String) : reversedOrder p q = true ↔
      toLex (codeUnits p.1, OrderDual.toDual (codeUnits p.2)) ≤
        toLex (codeUnits q.1, OrderDual.toDual (codeUnits q.2)) := by
    rw [reversedOrder, digest_order_iff, Prod.Lex.toLex_le_toLex, OrderDual.toDual_le_toDual]
  rw [lex] at *
  exact first.trans second

theorem digest_order_pair {a b : String × String} (order : digestOrder a b = true) :
    byPair a b = true := by
  rw [digest_order_iff] at order
  simp only [byPair, textLess, Bool.not_eq_true', decide_eq_false_iff_not, not_lt]
  rcases order with less | ⟨same, _⟩
  · exact less.le
  · exact same.le

/-- Named pairs in an order by pair are signed in that order. -/
theorem signed_as_sorted {others : List Value} {order : String × String → String × String → Bool}
    (sorted : (others.map digestEntry).Pairwise fun a b => order a b = true)
    (finer : ∀ a b, order a b = true → byPair a b = true)
    (passes : ∀ p ∈ others, priceRejected f sender submissions p = false)
    (named : ∀ p ∈ others, ∃ s, PairName p s) :
    signedEntries js others = (others.map digestEntry).map lift := by
  rw [signed_entries_named passes named, (sorted.imp fun {a b} => finer a b).insertionSort_eq]

theorem named_texts_inj {xs ys : List (String × String)}
    (same : joinComma (((xs.map lift).map signedValue).map json) =
      joinComma (((ys.map lift).map signedValue).map json)) : xs = ys := by
  have plain (zs : List (String × String)) : Plain (.array ((zs.map lift).map signedValue)) := by
    rw [Plain]
    induction zs with
    | nil => trivial
    | cons e zs ih =>
      have names : Enumerated ["pair", "price"] := by decide
      refine ⟨?_, ih⟩
      rw [signedValue, Plain]
      exact ⟨names, trivial, trivial, trivial⟩
  have arrays := array_text_inj (plain xs) (plain ys) (by
    rw [json, json, json_items_map, json_items_map, same])
  rw [List.map_map, List.map_map] at arrays
  apply List.map_injective_iff.mpr _ arrays
  rintro ⟨a, b⟩ ⟨c, d⟩ equal
  simp only [Function.comp, lift, signedValue, Value.object.injEq, List.cons.injEq, Prod.mk.injEq,
    Value.text.injEq, true_and, and_true] at equal
  rw [equal.1, equal.2]

/-- Two prices of one pair can be signed in either order. -/
theorem single_of_binds (binds : BindsBytes js g sha256 f sender submissions round items)
    (passes : coSignGateRejects f sender submissions (.array items) = false)
    (named : ∀ p ∈ items, ∃ s, PairName p s) :
    ∀ p ∈ items, ∀ q ∈ items,
      (digestEntry p).1 = (digestEntry q).1 → (digestEntry p).2 = (digestEntry q).2 := by
  obtain ⟨ups, up_perm, up⟩ := sorted_by digestOrder digest_order_total
    (fun _ _ _ => digest_order_trans) items
  obtain ⟨downs, down_perm, down⟩ := sorted_by reversedOrder
    (fun a b => digest_order_total (a.1, b.2) (b.1, a.2)) reversed_order_trans items
  have texts {others : List Value} (same : others.Perm items) :
      joinComma (pairTexts js others) = joinComma (pairTexts js items) :=
    binds_texts binds passes (gate_passes_perm same passes) (same.map digestEntry)
  have each {others : List Value} (same : others.Perm items) :
      (∀ p ∈ others, priceRejected f sender submissions p = false) ∧
        ∀ p ∈ others, ∃ s, PairName p s :=
    ⟨(gate_passes_iff.mp (gate_passes_perm same passes)).1,
      fun p member => named p (same.mem_iff.mp member)⟩
  have equal := (texts up_perm).trans (texts down_perm).symm
  rw [pairTexts, pairTexts,
    signed_as_sorted up (fun _ _ => digest_order_pair) (each up_perm).1 (each up_perm).2,
    signed_as_sorted down
      (fun x y order => digest_order_pair (a := (x.1, y.2)) (b := (y.1, x.2)) order)
      (each down_perm).1 (each down_perm).2] at equal
  have lists := named_texts_inj equal
  rw [← lists] at down
  have both : (ups.map digestEntry).Pairwise fun a b => a.1 = b.1 → a.2 = b.2 := by
    refine (up.and down).imp ?_
    rintro a b ⟨rise, fall⟩ pair
    rw [digest_order_iff] at rise
    rw [reversedOrder, digest_order_iff] at fall
    rw [pair] at rise fall
    rcases rise with less | ⟨_, le⟩
    · exact absurd less (lt_irrefl _)
    · rcases fall with less | ⟨_, le'⟩
      · exact absurd less (lt_irrefl _)
      · exact code_units_inj (le_antisymm le le')
  have symm : Std.Symm fun a b : String × String => a.1 = b.1 → a.2 = b.2 :=
    ⟨fun _ _ same pair => (same pair.symm).symm⟩
  intro p p_in q q_in pair
  exact both.forall_of_forall (fun _ _ _ => rfl)
    (List.mem_map_of_mem (up_perm.mem_iff.mpr p_in))
    (List.mem_map_of_mem (up_perm.mem_iff.mpr q_in)) pair

end Necessary

section Binding
variable {f : Follower} {sender : String} {submissions : Submissions} {items : List Value}
  {js : Builtins} {g : RoundGates} {sha256 : String → String} {round : Value}

theorem name_of_binds (binds : BindsBytes js g sha256 f sender submissions round items)
    (passes : coSignGateRejects f sender submissions (.array items) = false) :
    ∀ p ∈ items, ∃ s, PairName p s := by
  intro p member
  obtain ⟨front, back, rfl⟩ := List.append_of_mem member
  obtain ⟨truthy, settled⟩ := not_respelled binds passes
  have own := (gate_passes_iff.mp passes).1 p member
  cases odd : (p.field "coinPair").textOf with
  | some s =>
    have shape := text_of_some odd
    refine ⟨s, shape, ?_⟩
    rintro rfl
    rw [shape] at truthy
    cases truthy
  | none =>
    rw [priceRejected] at own
    split at own
    · cases own
    · simp only [Bool.or_eq_false_iff] at own
      obtain ⟨unlisted, lenient⟩ := (odd_pair_passes_iff odd).mp own.2
      refine absurd ⟨unlisted, lenient, ?_⟩ settled
      intro pair _ text
      rw [odd] at text
      cases text

/-- The digest of a proposal that passes the gate settles its signed bytes exactly where no
    pair comes at two prices, every pair is named, and no other spelling would pass. -/
theorem digest_binds_iff (collisionFree : ∀ a b, sha256 a = sha256 b → a = b)
    (passes : coSignGateRejects f sender submissions (.array items) = false) :
    (∀ q, coSignGateRejects f sender submissions q = false →
      digest sha256 round q = digest sha256 round (.array items) →
      ∀ t h m, buildPriceV0Payload js g round t q h m =
        buildPriceV0Payload js g round t (.array items) h m) ↔
      Settled f sender submissions items := by
  have filled := (gate_passes_iff.mp passes).1
  constructor
  · intro binds
    have named := name_of_binds binds passes
    refine ⟨single_of_binds binds passes named, named, ?_⟩
    by_contra unknown
    simp only [not_or, Bool.not_eq_false, not_not, not_forall] at unknown
    obtain ⟨unlisted, lenient, p, member, loose⟩ := unknown
    obtain ⟨front, back, rfl⟩ := List.append_of_mem member
    obtain ⟨s, name⟩ := named p member
    refine (not_respelled binds passes).2 ⟨unlisted, lenient, ?_⟩
    intro pair needed text
    rw [name.1, Value.textOf, Option.some.injEq] at text
    subst text
    rw [name_text name] at loose
    -- The pair is demanded, so another entry names it too.
    by_contra alone
    apply loose
    refine ⟨needed, ?_⟩
    have others : ∀ r ∈ front ++ back, (digestEntry r).1 ≠ s := by
      intro r other same
      have r_in : r ∈ front ++ p :: back := by
        rcases List.mem_append.mp other with left | right
        · simp [left]
        · simp [right]
      obtain ⟨s', name'⟩ := named r r_in
      rw [name_text name'] at same
      exact alone ⟨r, other, by rw [name'.1, same]; rfl⟩
    have none_front : front.filter (fun q => (digestEntry q).1 = s) = [] := by
      rw [List.filter_eq_nil_iff]
      intro r left
      simpa using others r (by simp [left])
    have none_back : back.filter (fun q => (digestEntry q).1 = s) = [] := by
      rw [List.filter_eq_nil_iff]
      intro r right
      simpa using others r (by simp [right])
    rw [List.filter_append, none_front, List.filter_cons, if_pos (by simp [name_text name]),
      none_back]
    rfl
  · intro settled q again same
    obtain ⟨others, rfl⟩ := gate_passes_array again
    have entries := (digest_eq_iff collisionFree).mp same
    have each := (gate_passes_iff.mp again).1
    rw [payload_eq_iff (passing_not_nullish each) (passing_not_nullish filled), pairTexts, pairTexts,
      signed_entries_named each (settled_named settled again entries),
      signed_entries_named filled settled.named, settled_entries settled entries]

end Binding

section Samples

def btcAt (price : String) : Value :=
  .object [("coinPair", .text "BTC/USD"), ("price", .text price)]

/- A follower with its whitelist, the last price of the pair and no submissions yet. -/
def watcher : Follower where
  canonicalPairs := ["BTC/USD"]
  allowUnverifiedPairs := false
  lastFinalized pair := if pair = "BTC/USD" then some 100 else none
  resolveSenderPubkey _ := none
  submissionKey _ := none

def noSubmissions : Submissions where
  entries := []
  nodup := by decide

def openGates : RoundGates where
  network := "mainnet"
  admissionEra _ := false
  equivActivation _ := none

theorem one_pair_binds :
    Settled watcher "leader" noSubmissions [btcAt "101.00000000"] ∧
      ∀ q, coSignGateRejects watcher "leader" noSubmissions q = false →
        digest id (.number (.ofNat 7)) q =
          digest id (.number (.ofNat 7)) (.array [btcAt "101.00000000"]) →
        ∀ t h m, buildPriceV0Payload decimalBuiltins openGates (.number (.ofNat 7)) t q h m =
          buildPriceV0Payload decimalBuiltins openGates (.number (.ofNat 7)) t
            (.array [btcAt "101.00000000"]) h m := by
  have known : watcher.canonicalPairs ≠ [] := by decide
  have settled : Settled watcher "leader" noSubmissions [btcAt "101.00000000"] := by
    refine ⟨?_, ?_, Or.inl known⟩
    · intro p left q right _
      rw [List.mem_singleton.mp left, List.mem_singleton.mp right]
    · intro p member
      rw [List.mem_singleton.mp member]
      exact ⟨"BTC/USD", rfl, by decide⟩
  exact ⟨settled, (digest_binds_iff (fun _ _ same => same) (by decide +kernel)).mpr settled⟩

/- One pair at two prices, in both orders: one digest, two payloads. -/
theorem repeated_pair_unbound :
    let up := Value.array [btcAt "100.00000000", btcAt "101.00000000"]
    let down := Value.array [btcAt "101.00000000", btcAt "100.00000000"]
    coSignGateRejects watcher "leader" noSubmissions up = false ∧
      coSignGateRejects watcher "leader" noSubmissions down = false ∧
      (∀ sha256 round, digest sha256 round up = digest sha256 round down) ∧
      buildPriceV0Payload decimalBuiltins openGates (.number (.ofNat 7))
          (.number (.ofNat 1700000000)) up (.number (.ofNat 850000)) none ≠
        buildPriceV0Payload decimalBuiltins openGates (.number (.ofNat 7))
          (.number (.ofNat 1700000000)) down (.number (.ofNat 850000)) none := by
  refine ⟨by decide +kernel, by decide +kernel, ?_, ?_⟩
  · intro sha256 round
    exact digest_of_entries (List.Perm.swap _ _ _)
  · decide +kernel

end Samples
end XChainHub.Oracle.Consensus
