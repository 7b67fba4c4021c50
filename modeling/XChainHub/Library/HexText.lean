import Mathlib.Algebra.Order.Ring.Int
import Mathlib.Data.List.Basic

/-!
Bytes as hexadecimal text. Reading stops at the first pair that is not two
hexadecimal digits, so a text may decode to the bytes of a proper prefix.
-/
namespace HexText

def isHexDigit (c : Char) : Bool :=
  c.isDigit || ('a' ≤ c && c ≤ 'f') || ('A' ≤ c && c ≤ 'F')

def hexValue (c : Char) : ℕ :=
  if c.isDigit then c.toNat - '0'.toNat
  else if 'a' ≤ c then c.toNat - 'a'.toNat + 10
  else c.toNat - 'A'.toNat + 10

/- Buffer.from(text, 'hex'). -/
def hexBytes : List Char → List ℕ
  | high :: low :: rest =>
    if isHexDigit high && isHexDigit low then (16 * hexValue high + hexValue low) :: hexBytes rest
    else []
  | _ => []

def hexDigit (n : ℕ) : Char := if n < 10 then Char.ofNat (48 + n) else Char.ofNat (87 + n)

/- buffer.toString('hex'). -/
def hexText (bytes : List ℕ) : List Char :=
  bytes.flatMap (fun b => [hexDigit (b / 16 % 16), hexDigit (b % 16)])

def isLowerHex (c : Char) : Bool := c.isDigit || ('a' ≤ c && c ≤ 'f')

/-- Every decoded byte takes two digits off the front. -/
theorem hex_bytes_leading (cs : List Char) :
    2 * (hexBytes cs).length ≤ cs.length ∧
      ∀ c ∈ cs.take (2 * (hexBytes cs).length), isHexDigit c = true := by
  fun_induction hexBytes cs with
  | case1 high low rest digits ih =>
    rw [Bool.and_eq_true] at digits
    obtain ⟨short, taken⟩ := ih
    rw [List.length_cons]
    constructor
    · simp only [List.length_cons]
      omega
    · intro c member
      rw [show 2 * ((hexBytes rest).length + 1) = 2 * (hexBytes rest).length + 1 + 1 by omega,
        List.take_succ_cons, List.take_succ_cons, List.mem_cons, List.mem_cons] at member
      rcases member with rfl | rfl | later
      · exact digits.1
      · exact digits.2
      · exact taken c later
  | case2 high low rest other => simp
  | case3 cs short => simp

/-- A text of twice as many characters as it has bytes is all digits. -/
theorem hex_of_full {cs : List Char} (full : cs.length = 2 * (hexBytes cs).length) :
    ∀ c ∈ cs, isHexDigit c = true := by
  have taken := (hex_bytes_leading cs).2
  rw [← full, List.take_length] at taken
  exact taken

theorem hex_digit_lower : ∀ n < 16, isLowerHex (hexDigit n) = true := by decide

theorem hex_text_length (bytes : List ℕ) : (hexText bytes).length = 2 * bytes.length := by
  induction bytes with
  | nil => rfl
  | cons b bytes ih =>
    have tail : (hexText (b :: bytes)).length = 2 + (hexText bytes).length := by
      simp [hexText]
      omega
    rw [tail, ih, List.length_cons]
    omega

theorem hex_text_lower (bytes : List ℕ) : ∀ c ∈ hexText bytes, isLowerHex c = true := by
  intro c member
  unfold hexText at member
  rw [List.mem_flatMap] at member
  obtain ⟨b, -, digit⟩ := member
  simp only [List.mem_cons, List.not_mem_nil, or_false] at digit
  rcases digit with rfl | rfl
  · exact hex_digit_lower _ (Nat.mod_lt _ (by decide))
  · exact hex_digit_lower _ (Nat.mod_lt _ (by decide))

theorem lower_digit_is_hex : ∀ n < 16, isHexDigit (hexDigit n) = true := by decide

theorem hex_bytes_text (bytes : List ℕ) : (hexBytes (hexText bytes)).length = bytes.length := by
  induction bytes with
  | nil => rfl
  | cons b bytes ih =>
    have shape : hexText (b :: bytes) =
        hexDigit (b / 16 % 16) :: hexDigit (b % 16) :: hexText bytes := rfl
    rw [shape, hexBytes, lower_digit_is_hex _ (Nat.mod_lt _ (by decide)),
      lower_digit_is_hex _ (Nat.mod_lt _ (by decide)), Bool.and_self, if_pos rfl,
      List.length_cons, List.length_cons, ih]

theorem hex_value_digit : ∀ n < 16, hexValue (hexDigit n) = n := by decide

/-- Bytes are read back from their text. -/
theorem hex_text_bytes {bytes : List ℕ} (small : ∀ b ∈ bytes, b < 256) :
    hexBytes (hexText bytes) = bytes := by
  induction bytes with
  | nil => rfl
  | cons b bytes ih =>
    have shape : hexText (b :: bytes) =
        hexDigit (b / 16 % 16) :: hexDigit (b % 16) :: hexText bytes := rfl
    have byte := small b List.mem_cons_self
    rw [shape, hexBytes, lower_digit_is_hex _ (Nat.mod_lt _ (by decide)),
      lower_digit_is_hex _ (Nat.mod_lt _ (by decide)), Bool.and_self, if_pos rfl,
      hex_value_digit _ (Nat.mod_lt _ (by decide)), hex_value_digit _ (Nat.mod_lt _ (by decide)),
      ih (fun x member => small x (List.mem_cons_of_mem b member)), List.cons.injEq]
    exact ⟨by omega, rfl⟩

theorem lower_hex_digit {c : Char} (lower : isLowerHex c = true) : isHexDigit c = true := by
  unfold isLowerHex at lower
  unfold isHexDigit
  rw [lower]
  rfl

theorem lower_hex_range {c : Char} (lower : isLowerHex c = true) :
    (48 ≤ c.toNat ∧ c.toNat ≤ 57) ∨ (97 ≤ c.toNat ∧ c.toNat ≤ 102) := by
  have nine : '9'.toNat = 57 := by decide
  have zero : '0'.toNat = 48 := by decide
  have a : 'a'.toNat = 97 := by decide
  have f : 'f'.toNat = 102 := by decide
  simp only [isLowerHex, Bool.or_eq_true, Bool.and_eq_true, decide_eq_true_eq, Char.le_def,
    UInt32.le_iff_toNat_le] at lower
  rcases lower with digit | ⟨low, high⟩
  · obtain ⟨low, high⟩ := Char.isDigit_iff_toNat.mp digit
    left
    omega
  · right
    constructor
    · rw [← a]
      exact low
    · rw [← f]
      exact high

theorem hex_ascii {c : Char} (digit : isHexDigit c = true) : c.toNat < 128 := by
  have nine : '9'.toNat = 57 := by decide
  have f : 'f'.toNat = 102 := by decide
  have F : 'F'.toNat = 70 := by decide
  simp only [isHexDigit, Bool.or_eq_true, Bool.and_eq_true, decide_eq_true_eq, Char.le_def,
    UInt32.le_iff_toNat_le] at digit
  rcases digit with (number | ⟨-, high⟩) | ⟨-, high⟩
  · have upper := (Char.isDigit_iff_toNat.mp number).2
    omega
  · have bound : c.toNat ≤ 'f'.toNat := high
    omega
  · have bound : c.toNat ≤ 'F'.toNat := high
    omega

/-- The lower case of a hexadecimal digit is one. -/
theorem hex_to_lower {c : Char} (digit : isHexDigit c = true) : isLowerHex c.toLower = true := by
  have table : ∀ n < 128, isHexDigit (Char.ofNat n) = true →
      isLowerHex (Char.ofNat n).toLower = true := by
    decide
  have shown := table c.toNat (hex_ascii digit)
  rw [Char.ofNat_toNat] at shown
  exact shown digit

/- Text of n lower-case hexadecimal characters. -/
def LowerHex (n : ℕ) (s : String) : Prop :=
  s.toList.length = n ∧ ∀ c ∈ s.toList, isLowerHex c = true

instance (n : ℕ) (s : String) : Decidable (LowerHex n s) :=
  decidable_of_iff (s.toList.length = n ∧ s.toList.all isLowerHex = true) (by
    rw [LowerHex, List.all_eq_true])

theorem LowerHex.ascii {n : ℕ} {s : String} (hex : LowerHex n s) :
    ∀ c ∈ s.toList, c.toNat < 128 :=
  fun c member => hex_ascii (lower_hex_digit (hex.2 c member))

theorem LowerHex.plain {n : ℕ} {s : String} (hex : LowerHex n s) : '|' ∉ s.toList := by
  intro bar
  exact absurd (hex.2 '|' bar) (by decide)

end HexText
