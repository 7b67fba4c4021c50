import XChainHub.Consensus.Gates.MirrorAdmissionGate
import XChainHub.Library.DelimitedText
import XChainHub.Library.KeyedEntries

/-!
The decoder of the signed admission map, consensus/gates/mirror_admission_gate.js, against its
encoder.
-/
namespace XChainHub.MirrorAdmissionGate
open DecimalText DelimitedText KeyedEntries

section Decoder

/- Number() of a whole number past the safe range is past it too. -/
def decodeEntry (cell : List Char) : Option (String × ℕ) :=
  match cell.splitOn ':' with
  | [code, digits] =>
    if isChainCode (String.ofList code) && isCanonicalHeight (String.ofList digits) &&
        digitsValue digits ≤ maxSafeInteger.toNat then
      some (String.ofList code, digitsValue digits)
    else none
  | _ => none

def decodeEntries (prev : Option String) : List (List Char) → Option AdmissionMap
  | [] => some []
  | cell :: rest =>
    match decodeEntry cell with
    | none => none
    | some (code, h) =>
      if prev.all (· < code) then
        (decodeEntries (some code) rest).map ((code, .number (h : ℚ)) :: ·)
      else none

def decodeAdmitBlocks (field : String) : Option AdmissionMap :=
  if field = "" then none else decodeEntries none (field.toList.splitOn ',')

end Decoder

section Heights

theorem digit_value {c : Char} (digit : c.isDigit = true) :
    digitValue c = c.toNat - 48 ∧ 48 ≤ c.toNat ∧ c.toNat ≤ 57 :=
  ⟨rfl, Char.isDigit_iff_toNat.mp digit⟩

theorem digit_char_value {c : Char} (digit : c.isDigit = true) : Nat.digitChar (digitValue c) = c := by
  obtain ⟨value, low, high⟩ := digit_value digit
  apply Char.toNat_inj.mp
  rw [Nat.toNat_digitChar_of_lt_ten (by omega)]
  omega

/-- Digits behind a positive number are the last digits of one number. -/
theorem digits_behind {cs : List Char} (digits : ∀ c ∈ cs, c.isDigit = true) {n : ℕ}
    (positive : 0 < n) :
    Nat.toDigits 10 n ++ cs = Nat.toDigits 10 (cs.foldl (fun n c => 10 * n + digitValue c) n) := by
  induction cs generalizing n with
  | nil => simp
  | cons c cs ih =>
    have digit := digits c List.mem_cons_self
    obtain ⟨value, low, high⟩ := digit_value digit
    have small : digitValue c < 10 := by omega
    have step := Nat.toDigits_append_toDigits (b := 10) (by decide) positive small
    rw [Nat.toDigits_of_lt_base small, digit_char_value digit] at step
    calc Nat.toDigits 10 n ++ c :: cs = (Nat.toDigits 10 n ++ [c]) ++ cs := by simp
      _ = Nat.toDigits 10 (10 * n + digitValue c) ++ cs := by rw [step]
      _ = _ := ih (fun d member => digits d (List.mem_cons_of_mem c member)) (by omega)

/-- A canonical spelling is the one its value has. -/
theorem canonical_height_digits {cs : List Char} (canonical : isCanonicalHeight (String.ofList cs) = true) :
    cs = Nat.toDigits 10 (digitsValue cs) := by
  unfold isCanonicalHeight at canonical
  rw [String.toList_ofList] at canonical
  split at canonical
  · cases canonical
  · rename_i rest
    rw [List.isEmpty_iff] at canonical
    rw [canonical]
    decide
  · rename_i c rest notZero
    rw [Bool.and_eq_true, List.all_eq_true] at canonical
    have digit := canonical.1
    obtain ⟨value, low, high⟩ := digit_value digit
    have filled : c.toNat ≠ 48 := fun same => notZero (Char.toNat_inj.mp same)
    have positive : 0 < digitValue c := by omega
    have small : digitValue c < 10 := by omega
    have rest_digits := digits_behind canonical.2 positive
    rw [Nat.toDigits_of_lt_base small, digit_char_value digit] at rest_digits
    simpa [digitsValue] using rest_digits

/-- A positive number is not spelled with a zero in front. -/
theorem leading_digit_filled {n : ℕ} (positive : 0 < n) :
    ∃ c rest, Nat.toDigits 10 n = c :: rest ∧ c ≠ '0' := by
  induction n using Nat.strong_induction_on with
  | _ n ih =>
    by_cases small : n < 10
    · refine ⟨n.digitChar, [], Nat.toDigits_of_lt_base small, ?_⟩
      intro zero
      have value := Nat.toNat_digitChar_of_lt_ten small
      rw [zero] at value
      have code : '0'.toNat = 48 := by decide
      omega
    · have digits := Nat.toDigits_of_base_le (b := 10) (by decide) (show 10 ≤ n by omega)
      obtain ⟨c, rest, shape, filled⟩ := ih (n / 10) (by omega) (by omega)
      rw [shape, List.cons_append] at digits
      exact ⟨c, _, digits, filled⟩

theorem canonical_height_natural (n : ℕ) :
    isCanonicalHeight (String.ofList (Nat.toDigits 10 n)) = true := by
  rcases Nat.eq_zero_or_pos n with rfl | positive
  · decide
  · obtain ⟨c, rest, shape, filled⟩ := leading_digit_filled positive
    have digit : ∀ d ∈ c :: rest, d.isDigit = true := by
      intro d member
      rw [← shape] at member
      exact Nat.isDigit_of_mem_toDigits (by decide) (by decide) member
    unfold isCanonicalHeight
    rw [String.toList_ofList, shape]
    split
    · rename_i empty
      cases empty
    · rename_i tail same
      exact absurd (List.cons.inj same).1 filled
    · rename_i d tail _ same
      rw [← (List.cons.inj same).1, ← (List.cons.inj same).2, digit c List.mem_cons_self,
        Bool.true_and, List.all_eq_true]
      exact fun e member => digit e (List.mem_cons_of_mem c member)

theorem natural_spelling (n : ℕ) : (toString (n : ℤ)).toList = Nat.toDigits 10 n :=
  Nat.toList_repr

theorem negative_not_canonical (n : ℕ) :
    isCanonicalHeight (toString (Int.negSucc n)) = false := by
  have shape : (toString (Int.negSucc n)).toList = '-' :: (Nat.repr (n + 1)).toList := by
    show ("-" ++ Nat.repr (n + 1)).toList = _
    rw [String.toList_append]
    rfl
  unfold isCanonicalHeight
  rw [shape]
  rfl

end Heights

section Entries

theorem chain_code_plain {code : String} (chain : isChainCode code = true) :
    ':' ∉ code.toList ∧ ',' ∉ code.toList := by
  unfold isChainCode at chain
  rw [Bool.and_eq_true, List.all_eq_true] at chain
  constructor <;>
  · intro member
    have letter := chain.2 _ member
    revert letter
    decide

theorem digits_plain {cs : List Char} (digits : ∀ c ∈ cs, c.isDigit = true) :
    ':' ∉ cs ∧ ',' ∉ cs := by
  constructor <;>
  · intro member
    have digit := digits _ member
    revert digit
    decide

/- What the two sides spell an entry as. -/
def entryCell (code : String) (n : ℕ) : List Char := code.toList ++ ':' :: Nat.toDigits 10 n

theorem encode_natural {code : String} {q : ℚ} {spelled : String} :
    encodeEntry (code, .number q) = some spelled ↔
      ∃ n : ℕ, q = n ∧ isChainCode code = true ∧ n ≤ maxSafeInteger.toNat ∧
        spelled.toList = entryCell code n := by
  constructor
  · intro encoded
    unfold encodeEntry at encoded
    cases chain : isChainCode code with
    | false => simp [chain] at encoded
    | true =>
      cases safe : isSafeInteger q with
      | false => simp [chain, heightSpelling, safe] at encoded
      | true =>
        simp only [chain, heightSpelling, safe, Bool.not_true, Bool.false_eq_true, if_false,
          if_true] at encoded
        split at encoded
        · rename_i canonical
          rw [Option.some.injEq] at encoded
          unfold isSafeInteger at safe
          rw [Bool.and_eq_true, decide_eq_true_eq, decide_eq_true_eq] at safe
          cases size : q.num with
          | ofNat n =>
            rw [size] at safe
            have whole : q = n := by
              rw [← Rat.num_div_den q, safe.1, size]
              simp
            refine ⟨n, whole, rfl, safe.2, ?_⟩
            rw [← encoded, size, String.toList_append, String.toList_append]
            show _ ++ (toString (n : ℤ)).toList = _
            rw [natural_spelling, entryCell, List.append_assoc]
            rfl
          | negSucc n =>
            rw [size, negative_not_canonical] at canonical
            cases canonical
        · cases encoded
  · rintro ⟨n, rfl, chain, bounded, cell⟩
    have safe : isSafeInteger (n : ℚ) = true := by
      unfold isSafeInteger
      rw [Bool.and_eq_true, decide_eq_true_eq, decide_eq_true_eq]
      exact ⟨by simp, by simpa using bounded⟩
    have canonical : isCanonicalHeight (toString (n : ℤ)) = true := by
      rw [← String.ofList_toList (s := toString (n : ℤ)), natural_spelling]
      exact canonical_height_natural n
    unfold encodeEntry
    simp only [chain, heightSpelling, safe, Rat.num_natCast, canonical, Bool.not_true,
      Bool.false_eq_true, if_false, if_true]
    rw [Option.some.injEq]
    apply String.toList_inj.mp
    rw [cell, String.toList_append, String.toList_append, natural_spelling, entryCell,
      List.append_assoc]
    rfl

/-- A cell is read as an entry just when the entry is spelled as the cell. -/
theorem decode_entry_iff {cell : List Char} {code : String} {n : ℕ} :
    decodeEntry cell = some (code, n) ↔
      encodeEntry (code, .number n) = some (String.ofList cell) := by
  rw [encode_natural]
  constructor
  · intro decoded
    unfold decodeEntry at decoded
    split at decoded
    · rename_i codeText digits shape
      split at decoded
      · rename_i sound
        rw [Bool.and_eq_true, Bool.and_eq_true, decide_eq_true_eq] at sound
        rw [Option.some.injEq, Prod.mk.injEq] at decoded
        obtain ⟨rfl, rfl⟩ := decoded
        refine ⟨_, rfl, sound.1.1, sound.2, ?_⟩
        have joined : [':'].intercalate (cell.splitOn ':') = cell := List.intercalate_splitOn ':'
        rw [shape] at joined
        rw [String.toList_ofList, ← joined, entryCell, String.toList_ofList,
          ← canonical_height_digits sound.1.2]
        simp
      · cases decoded
    · cases decoded
  · rintro ⟨m, same, chain, bounded, shape⟩
    have equal : m = n := by exact_mod_cast same.symm
    subst equal
    rw [String.toList_ofList] at shape
    have digit : ∀ c ∈ Nat.toDigits 10 m, c.isDigit = true := fun c member =>
      Nat.isDigit_of_mem_toDigits (by decide) (by decide) member
    have cut : cell.splitOn ':' = [code.toList, Nat.toDigits 10 m] := by
      rw [shape, entryCell, List.splitOn_append_cons_self,
        List.splitOn_eq_singleton (chain_code_plain chain).1,
        List.splitOn_eq_singleton (digits_plain digit).1]
      rfl
    unfold decodeEntry
    rw [cut]
    simp only [String.ofList_toList, chain, canonical_height_natural, digits_value_to_digits,
      bounded, Bool.true_and, decide_true, if_true]

end Entries

section Fields

/- Codes that strictly ascend, past an earlier one where there is one. -/
def Ascending (prev : Option String) (map : AdmissionMap) : Prop :=
  (prev.toList ++ map.map Prod.fst).IsChain (· < ·)

theorem ascending_cons {prev : Option String} {entry : String × AdmitHeight} {map : AdmissionMap} :
    Ascending prev (entry :: map) ↔
      prev.all (fun code => code < entry.1) = true ∧ Ascending (some entry.1) map := by
  cases prev with
  | none => simp [Ascending]
  | some code => simp [Ascending]

theorem encoded_length {map : AdmissionMap} {texts : List String}
    (spelled : map.mapM encodeEntry = some texts) : texts.length = map.length := by
  induction map generalizing texts with
  | nil =>
    obtain rfl : texts = [] := by simpa using spelled.symm
    rfl
  | cons entry map ih =>
    rw [List.mapM_cons] at spelled
    obtain ⟨text, _, later⟩ := Option.bind_eq_some_iff.mp spelled
    obtain ⟨rest, others, joined⟩ := Option.bind_eq_some_iff.mp later
    obtain rfl := Option.some.inj joined
    rw [List.length_cons, List.length_cons, ih others]

/-- Cells are read as a map just when its entries ascend and are spelled as the cells. -/
theorem decode_entries_iff {prev : Option String} {texts : List (List Char)} {map : AdmissionMap} :
    decodeEntries prev texts = some map ↔
      map.mapM encodeEntry = some (texts.map String.ofList) ∧
        (∀ e ∈ map, ∃ n : ℕ, e.2 = .number n) ∧ Ascending prev map := by
  induction texts generalizing prev map with
  | nil =>
    cases map with
    | nil => cases prev <;> simp [decodeEntries, Ascending]
    | cons entry map =>
      constructor
      · intro decoded
        cases decoded
      · rintro ⟨spelled, _⟩
        cases encoded_length spelled
  | cons cell rest ih =>
    constructor
    · intro decoded
      unfold decodeEntries at decoded
      split at decoded
      · cases decoded
      · rename_i code n read
        split at decoded
        · rename_i later
          obtain ⟨tail, decoded_tail, rfl⟩ := Option.map_eq_some_iff.mp decoded
          obtain ⟨spelled, natural, ascending⟩ := ih.mp decoded_tail
          refine ⟨?_, ?_, ascending_cons.mpr ⟨later, ascending⟩⟩
          · rw [List.mapM_cons, decode_entry_iff.mp read, spelled]
            rfl
          · intro e member
            rcases List.mem_cons.mp member with rfl | inside
            · exact ⟨n, rfl⟩
            · exact natural e inside
        · cases decoded
    · rintro ⟨spelled, natural, ascending⟩
      cases map with
      | nil => simp at spelled
      | cons entry map =>
        obtain ⟨later, ascending_tail⟩ := ascending_cons.mp ascending
        obtain ⟨code, height⟩ := entry
        obtain ⟨n, rfl⟩ : ∃ n : ℕ, height = .number n := natural _ List.mem_cons_self
        rw [List.mapM_cons] at spelled
        obtain ⟨text, own, later_spelled⟩ := Option.bind_eq_some_iff.mp spelled
        obtain ⟨texts, others, joined⟩ := Option.bind_eq_some_iff.mp later_spelled
        obtain ⟨rfl, rfl⟩ := List.cons.inj (Option.some.inj joined)
        have read := decode_entry_iff.mpr own
        have tail := ih.mpr ⟨others,
          fun e member => natural e (List.mem_cons_of_mem _ member), ascending_tail⟩
        unfold decodeEntries
        rw [read]
        simp only [later, if_true, tail, Option.map_some]

theorem encoded_cells {map : AdmissionMap} {texts : List String}
    (natural : ∀ e ∈ map, ∃ n : ℕ, e.2 = .number n)
    (spelled : map.mapM encodeEntry = some texts) : ∀ t ∈ texts, ',' ∉ t.toList := by
  induction map generalizing texts with
  | nil =>
    obtain rfl : texts = [] := by simpa using spelled.symm
    simp
  | cons entry map ih =>
    rw [List.mapM_cons] at spelled
    obtain ⟨text, own, later⟩ := Option.bind_eq_some_iff.mp spelled
    obtain ⟨rest, others, joined⟩ := Option.bind_eq_some_iff.mp later
    obtain rfl := Option.some.inj joined
    obtain ⟨code, height⟩ := entry
    obtain ⟨n, rfl⟩ : ∃ n : ℕ, height = .number n := natural _ List.mem_cons_self
    obtain ⟨m, _, chain, _, shape⟩ := encode_natural.mp own
    intro t member
    rcases List.mem_cons.mp member with rfl | inside
    · rw [shape, entryCell, List.mem_append, List.mem_cons]
      rintro (code_comma | colon | digit_comma)
      · exact (chain_code_plain chain).2 code_comma
      · cases colon
      · refine (digits_plain (fun c inside => ?_)).2 digit_comma
        exact Nat.isDigit_of_mem_toDigits (by decide) (by decide) inside
    · exact ih (fun e inside => natural e (List.mem_cons_of_mem _ inside)) others t inside

theorem join_split {texts : List String} (filled : texts ≠ []) (plain : ∀ t ∈ texts, ',' ∉ t.toList) :
    (String.intercalate "," texts).toList.splitOn ',' = texts.map String.toList := by
  have some_field : texts.map String.toList ≠ [] := by simpa using filled
  have each : ∀ t ∈ texts, t.toList.splitOn ',' = [t.toList] := fun t member =>
    List.splitOn_eq_singleton (plain t member)
  rw [String.toList_intercalate, show ",".toList = [','] from rfl, splitOn_joined ',' some_field,
    cells, List.flatMap_map]
  clear filled some_field plain
  induction texts with
  | nil => rfl
  | cons t rest ih =>
    rw [List.flatMap_cons, each t List.mem_cons_self, List.map_cons, List.singleton_append,
      ih (fun u member => each u (List.mem_cons_of_mem t member))]

theorem split_join {field : String} :
    String.intercalate "," ((field.toList.splitOn ',').map String.ofList) = field := by
  apply String.toList_inj.mp
  rw [String.toList_intercalate, List.map_map]
  have same : (String.toList ∘ String.ofList) = id := by
    funext cs
    exact String.toList_ofList
  rw [same, List.map_id]
  exact List.intercalate_splitOn ','

theorem ascending_sorted {map : AdmissionMap} (ascending : Ascending none map) :
    map.insertionSort (fun a b => a.1 ≤ b.1) = map := by
  apply List.Pairwise.insertionSort_eq
  have pairs := List.isChain_iff_pairwise.mp ascending
  rw [Option.toList_none, List.nil_append, List.pairwise_map] at pairs
  exact pairs.imp (fun less => le_of_lt less)

theorem encode_ascending {map : AdmissionMap} (filled : map ≠ []) (ascending : Ascending none map) :
    encodeAdmitBlocks map = (map.mapM encodeEntry).map (String.intercalate ",") := by
  unfold encodeAdmitBlocks
  rw [if_neg (by simpa using filled), ascending_sorted ascending]

/-- A text is decoded to a map just when the map ascends, holds natural heights and is encoded
as the text. -/
theorem decode_iff {field : String} {map : AdmissionMap} :
    decodeAdmitBlocks field = some map ↔
      encodeAdmitBlocks map = some field ∧ (∀ e ∈ map, ∃ n : ℕ, e.2 = .number n) ∧
        Ascending none map := by
  constructor
  · intro decoded
    unfold decodeAdmitBlocks at decoded
    split at decoded
    · cases decoded
    · obtain ⟨spelled, natural, ascending⟩ := decode_entries_iff.mp decoded
      refine ⟨?_, natural, ascending⟩
      have filled : map ≠ [] := by
        rintro rfl
        have sizes := encoded_length spelled
        rw [List.length_map, List.length_nil, List.length_eq_zero_iff] at sizes
        exact List.splitOn_ne_nil _ _ sizes
      rw [encode_ascending filled ascending, spelled, Option.map_some, split_join]
  · rintro ⟨encoded, natural, ascending⟩
    have filled : map ≠ [] := by
      rintro rfl
      cases encoded
    rw [encode_ascending filled ascending] at encoded
    obtain ⟨texts, spelled, joined⟩ := Option.map_eq_some_iff.mp encoded
    have sizes := encoded_length spelled
    have some_text : texts ≠ [] := by
      rintro rfl
      exact filled (List.length_eq_zero_iff.mp sizes.symm)
    have cut := join_split some_text (encoded_cells natural spelled)
    rw [joined] at cut
    have back : (texts.map String.toList).map String.ofList = texts := by
      rw [List.map_map]
      have same : String.ofList ∘ String.toList = id := by
        funext t
        exact String.ofList_toList
      rw [same, List.map_id]
    have read : decodeEntries none (field.toList.splitOn ',') = some map := by
      rw [cut]
      exact decode_entries_iff.mpr ⟨by rw [back]; exact spelled, natural, ascending⟩
    unfold decodeAdmitBlocks
    split
    · rename_i empty
      -- The empty text splits into the empty cell, which is no entry.
      rw [empty] at read
      cases read
    · exact read

theorem encoded_natural {map : AdmissionMap} {texts : List String}
    (safe : ∀ e ∈ map, ∃ q : ℚ, e.2 = .number q) (spelled : map.mapM encodeEntry = some texts) :
    ∀ e ∈ map, ∃ n : ℕ, e.2 = .number n := by
  induction map generalizing texts with
  | nil => simp
  | cons entry map ih =>
    rw [List.mapM_cons] at spelled
    obtain ⟨text, own, later⟩ := Option.bind_eq_some_iff.mp spelled
    obtain ⟨rest, others, joined⟩ := Option.bind_eq_some_iff.mp later
    obtain ⟨code, height⟩ := entry
    obtain ⟨q, rfl⟩ : ∃ q : ℚ, height = .number q := safe _ List.mem_cons_self
    obtain ⟨n, rfl, _⟩ := encode_natural.mp own
    intro e member
    rcases List.mem_cons.mp member with rfl | inside
    · exact ⟨n, rfl⟩
    · exact ih (fun d later => safe d (List.mem_cons_of_mem _ later)) others e inside

theorem sorted_ascending {map : AdmissionMap} (distinct : (map.map Prod.fst).Nodup) :
    Ascending none (byKey map) := by
  have keys : ((byKey map).map Prod.fst).Nodup :=
    ((by_key_perm map).map Prod.fst).nodup_iff.mpr distinct
  have ordered : (byKey map).Pairwise (fun a b => a.1 ≤ b.1) :=
    by_key_ordered map
  have pairs : ((byKey map).map Prod.fst).Pairwise (· ≤ ·) := List.pairwise_map.mpr ordered
  unfold Ascending
  rw [Option.toList_none, List.nil_append]
  apply List.Pairwise.isChain
  exact (pairs.and keys).imp (fun both => lt_of_le_of_ne both.1 both.2)

theorem encode_sorted (map : AdmissionMap) :
    encodeAdmitBlocks (byKey map) = encodeAdmitBlocks map := by
  have again : byKey (byKey map) = byKey map :=
    List.Pairwise.insertionSort_eq (by_key_ordered map)
  have empty : (byKey map).isEmpty = map.isEmpty := by
    have sizes := (by_key_perm map).length_eq
    cases front : byKey map with
    | nil =>
      rw [front] at sizes
      rw [List.length_eq_zero_iff.mp sizes.symm]
    | cons entry rest =>
      cases map with
      | nil => cases front
      | cons first others => rfl
  unfold encodeAdmitBlocks
  rw [empty]
  change (if map.isEmpty then none else ((byKey (byKey map)).mapM encodeEntry).map _) = _
  rw [again]

/-- What is encoded from whole numbers is decoded to the same entries, in key order. -/
theorem decode_encoded {map : AdmissionMap} {field : String}
    (distinct : (map.map Prod.fst).Nodup) (numbers : ∀ e ∈ map, ∃ q : ℚ, e.2 = .number q)
    (encoded : encodeAdmitBlocks map = some field) :
    decodeAdmitBlocks field = some (byKey map) := by
  have ascending := sorted_ascending distinct
  rw [← encode_sorted] at encoded
  have filled : byKey map ≠ [] := by
    intro empty
    rw [empty] at encoded
    cases encoded
  rw [encode_ascending filled ascending] at encoded
  obtain ⟨texts, spelled, _⟩ := Option.map_eq_some_iff.mp encoded
  refine decode_iff.mpr ⟨?_, ?_, ascending⟩
  · rw [encode_ascending filled ascending, encoded]
  · apply encoded_natural _ spelled
    intro e member
    exact numbers e ((by_key_perm map).mem_iff.mp member)

end Fields

end XChainHub.MirrorAdmissionGate
