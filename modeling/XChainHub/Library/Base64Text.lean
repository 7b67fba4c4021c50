import Mathlib

/-!
Base64 text of byte sequences: in the alphabet that is safe in an address, without
padding, and in the standard alphabet with padding, which reads back.
-/
namespace Base64Text

def alphabet : List Char :=
  "ABCDEFGHIJKLMNOPQRSTUVWXYZabcdefghijklmnopqrstuvwxyz0123456789-_".toList

def sextet (n : ℕ) : Char := alphabet.getD n 'A'

def base64url : List ℕ → List Char
  | a :: b :: c :: rest =>
    sextet (a / 4) :: sextet (a % 4 * 16 + b / 16) :: sextet (b % 16 * 4 + c / 64) ::
      sextet (c % 64) :: base64url rest
  | [a, b] => [sextet (a / 4), sextet (a % 4 * 16 + b / 16), sextet (b % 16 * 4)]
  | [a] => [sextet (a / 4), sextet (a % 4 * 16)]
  | [] => []

theorem sextet_ascii (n : ℕ) : (sextet n).toNat < 128 := by
  have letters : alphabet.all (fun c => decide (c.toNat < 128)) = true := by decide
  unfold sextet
  rw [List.getD_eq_getElem?_getD]
  cases found : alphabet[n]? with
  | none => decide
  | some c => exact of_decide_eq_true (List.all_eq_true.mp letters c (List.mem_of_getElem? found))

theorem base64_ascii (bytes : List ℕ) : ∀ c ∈ base64url bytes, c.toNat < 128 := by
  induction bytes using base64url.induct with
  | case1 a b c rest ih =>
    intro d member
    simp only [base64url, List.mem_cons] at member
    rcases member with rfl | rfl | rfl | rfl | later
    · exact sextet_ascii _
    · exact sextet_ascii _
    · exact sextet_ascii _
    · exact sextet_ascii _
    · exact ih d later
  | case2 a b =>
    intro d member
    simp only [base64url, List.mem_cons, List.not_mem_nil, or_false] at member
    rcases member with rfl | rfl | rfl <;> exact sextet_ascii _
  | case3 a =>
    intro d member
    simp only [base64url, List.mem_cons, List.not_mem_nil, or_false] at member
    rcases member with rfl | rfl <;> exact sextet_ascii _
  | case4 => exact fun d member => absurd member (List.not_mem_nil)

section Padded

def standardAlphabet : List Char :=
  "ABCDEFGHIJKLMNOPQRSTUVWXYZabcdefghijklmnopqrstuvwxyz0123456789+/".toList

def symbol (n : ℕ) : Char := standardAlphabet.getD n 'A'

def symbolValue (c : Char) : ℕ := standardAlphabet.idxOf c

def symbols : List UInt8 → List Char
  | a :: b :: c :: rest =>
    symbol (a.toNat / 4) :: symbol (a.toNat % 4 * 16 + b.toNat / 16) ::
      symbol (b.toNat % 16 * 4 + c.toNat / 64) :: symbol (c.toNat % 64) :: symbols rest
  | [a, b] =>
    [symbol (a.toNat / 4), symbol (a.toNat % 4 * 16 + b.toNat / 16), symbol (b.toNat % 16 * 4)]
  | [a] => [symbol (a.toNat / 4), symbol (a.toNat % 4 * 16)]
  | [] => []

def padding (bytes : List UInt8) : ℕ := (3 - bytes.length % 3) % 3

def base64 (bytes : List UInt8) : List Char :=
  symbols bytes ++ List.replicate (padding bytes) '='

/- Groups of four symbols, the last one perhaps short; one symbol alone is no byte. -/
def symbolBytes : List ℕ → List UInt8
  | a :: b :: c :: d :: rest =>
    UInt8.ofNat (a * 4 + b / 16) :: UInt8.ofNat (b % 16 * 16 + c / 4) ::
      UInt8.ofNat (c % 4 * 64 + d) :: symbolBytes rest
  | [a, b, c] => [UInt8.ofNat (a * 4 + b / 16), UInt8.ofNat (b % 16 * 16 + c / 4)]
  | [a, b] => [UInt8.ofNat (a * 4 + b / 16)]
  | _ => []

def fromBase64 (text : List Char) : List UInt8 :=
  symbolBytes ((text.takeWhile (· ≠ '=')).map symbolValue)

/- At least one symbol, and at most two signs that fill up the last group. -/
def Padded (text : List Char) : Prop :=
  ∃ body fill, text = body ++ List.replicate fill '=' ∧ fill ≤ 2 ∧ body ≠ [] ∧
    ∀ c ∈ body, c ∈ standardAlphabet

instance (text : List Char) : Decidable (Padded text) :=
  decidable_of_iff
    ((text.dropWhile (· ≠ '=')).length ≤ 2 ∧ (∀ c ∈ text.dropWhile (· ≠ '='), c = '=') ∧
      text.takeWhile (· ≠ '=') ≠ [] ∧ ∀ c ∈ text.takeWhile (· ≠ '='), c ∈ standardAlphabet) (by
    have noSign : '=' ∉ standardAlphabet := by decide
    constructor
    · rintro ⟨short, signs, filled, plain⟩
      refine ⟨_, _, ?_, short, filled, plain⟩
      rw [← List.eq_replicate_of_mem signs, List.takeWhile_append_dropWhile]
    · rintro ⟨body, fill, rfl, short, filled, plain⟩
      have front : ∀ c ∈ body, decide (c ≠ '=') = true := by
        intro c member
        rw [decide_eq_true_eq]
        rintro rfl
        exact noSign (plain _ member)
      have signs : (List.replicate fill '=').takeWhile (· ≠ '=') = [] := by
        cases fill <;> rfl
      have rest : (List.replicate fill '=').dropWhile (· ≠ '=') = List.replicate fill '=' := by
        cases fill <;> rfl
      rw [List.takeWhile_append_of_pos front, List.dropWhile_append_of_pos front, signs, rest,
        List.append_nil, List.length_replicate]
      exact ⟨short, fun c member => List.eq_of_mem_replicate member, filled, plain⟩)

theorem symbol_value {n : ℕ} (small : n < 64) : symbolValue (symbol n) = n := by
  have all : (List.range 64).all (fun n => symbolValue (symbol n) == n) = true := by decide
  exact eq_of_beq (List.all_eq_true.mp all n (List.mem_range.mpr small))

theorem symbol_mem (n : ℕ) : symbol n ∈ standardAlphabet := by
  unfold symbol
  rw [List.getD_eq_getElem?_getD]
  cases found : standardAlphabet[n]? with
  | none => decide
  | some c => exact List.mem_of_getElem? found

theorem symbols_mem (bytes : List UInt8) : ∀ c ∈ symbols bytes, c ∈ standardAlphabet := by
  induction bytes using symbols.induct with
  | case1 a b c rest ih =>
    intro d member
    simp only [symbols, List.mem_cons] at member
    rcases member with rfl | rfl | rfl | rfl | later
    · exact symbol_mem _
    · exact symbol_mem _
    · exact symbol_mem _
    · exact symbol_mem _
    · exact ih d later
  | case2 a b =>
    intro d member
    simp only [symbols, List.mem_cons, List.not_mem_nil, or_false] at member
    rcases member with rfl | rfl | rfl <;> exact symbol_mem _
  | case3 a =>
    intro d member
    simp only [symbols, List.mem_cons, List.not_mem_nil, or_false] at member
    rcases member with rfl | rfl <;> exact symbol_mem _
  | case4 => exact fun d member => absurd member (List.not_mem_nil)

/-- The bytes read back from their symbols. -/
theorem symbols_bytes (bytes : List UInt8) :
    symbolBytes ((symbols bytes).map symbolValue) = bytes := by
  have byte (a : UInt8) {n : ℕ} (same : n = a.toNat) : UInt8.ofNat n = a := by
    rw [same, UInt8.ofNat_toNat]
  induction bytes using symbols.induct with
  | case1 a b c rest ih =>
    have ha := a.toNat_lt
    have hb := b.toNat_lt
    have hc := c.toNat_lt
    simp only [symbols, List.map_cons, symbolBytes]
    rw [symbol_value (by omega), symbol_value (by omega), symbol_value (by omega),
      symbol_value (by omega), ih, byte a (by omega), byte b (by omega), byte c (by omega)]
  | case2 a b =>
    have ha := a.toNat_lt
    have hb := b.toNat_lt
    simp only [symbols, List.map_cons, List.map_nil, symbolBytes]
    rw [symbol_value (by omega), symbol_value (by omega), symbol_value (by omega),
      byte a (by omega), byte b (by omega)]
  | case3 a =>
    have ha := a.toNat_lt
    simp only [symbols, List.map_cons, List.map_nil, symbolBytes]
    rw [symbol_value (by omega), symbol_value (by omega), byte a (by omega)]
  | case4 => rfl

theorem symbols_length (bytes : List UInt8) :
    (symbols bytes).length + padding bytes = (bytes.length + 2) / 3 * 4 := by
  induction bytes using symbols.induct with
  | case1 a b c rest ih =>
    simp only [symbols, padding, List.length_cons] at ih ⊢
    omega
  | case2 a b => simp [symbols, padding]
  | case3 a => simp [symbols, padding]
  | case4 => rfl

theorem base64_length (bytes : List UInt8) :
    (base64 bytes).length = (bytes.length + 2) / 3 * 4 := by
  rw [base64, List.length_append, List.length_replicate, symbols_length]

theorem padded_base64 {bytes : List UInt8} (filled : bytes ≠ []) : Padded (base64 bytes) := by
  refine ⟨symbols bytes, padding bytes, rfl, ?_, ?_, symbols_mem bytes⟩
  · unfold padding
    omega
  · intro empty
    have some_ := List.length_pos_iff.mpr filled
    have size := symbols_length bytes
    rw [empty, List.length_nil] at size
    unfold padding at size
    omega

theorem from_base64 (bytes : List UInt8) : fromBase64 (base64 bytes) = bytes := by
  have noSign : '=' ∉ standardAlphabet := by decide
  have front : ∀ c ∈ symbols bytes, decide (c ≠ '=') = true := by
    intro c member
    rw [decide_eq_true_eq]
    rintro rfl
    exact noSign (symbols_mem bytes _ member)
  have signs : (List.replicate (padding bytes) '=').takeWhile (· ≠ '=') = [] := by
    cases padding bytes <;> rfl
  rw [fromBase64, base64, List.takeWhile_append_of_pos front, signs, List.append_nil,
    symbols_bytes]

end Padded

end Base64Text
