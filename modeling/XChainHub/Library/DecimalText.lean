import Mathlib.Tactic.Positivity
import Mathlib.Data.Nat.Log
import Mathlib.Data.List.TakeWhile
import Mathlib.Data.Rat.Floor

/-!
Plain decimal text over characters: trimming, the optional sign, and the exact
rational value. Exponents are not part of the grammar. Arithmetic on the values
is exact rational arithmetic.
-/
namespace DecimalText

/- The white space and line terminator code points that String.prototype.trim strips. -/
def isSpace (c : Char) : Bool :=
  (9 ≤ c.toNat && c.toNat ≤ 13) || c.toNat = 32 || c.toNat = 0xA0 || c.toNat = 0x1680 ||
    (0x2000 ≤ c.toNat && c.toNat ≤ 0x200A) || c.toNat = 0x2028 || c.toNat = 0x2029 ||
    c.toNat = 0x202F || c.toNat = 0x205F || c.toNat = 0x3000 || c.toNat = 0xFEFF

def trim (cs : List Char) : List Char :=
  ((cs.dropWhile isSpace).reverse.dropWhile isSpace).reverse

def digitValue (c : Char) : ℕ := c.toNat - '0'.toNat

def digitsValue (cs : List Char) : ℕ := cs.foldl (fun n c => 10 * n + digitValue c) 0

/- Digits, then optionally a point and more digits; one of the two runs is nonempty. -/
def unsignedValue (cs : List Char) : Option ℚ :=
  let whole := cs.takeWhile Char.isDigit
  match cs.dropWhile Char.isDigit with
  | [] => if whole = [] then none else some (digitsValue whole)
  | '.' :: frac =>
    if frac.all Char.isDigit && !(whole.isEmpty && frac.isEmpty) then
      some (digitsValue whole + digitsValue frac / 10 ^ frac.length)
    else none
  | _ => none

def signedValue : List Char → Option ℚ
  | '+' :: cs => unsignedValue cs
  | '-' :: cs => (unsignedValue cs).map (fun q => -q)
  | cs => unsignedValue cs

/- The least number of places, from k and within the fuel, that the denominator allows. -/
def placesFrom (den : ℕ) : ℕ → ℕ → ℕ
  | 0, k => k
  | fuel + 1, k => if 10 ^ k % den = 0 then k else placesFrom den fuel (k + 1)

def places (q : ℚ) : ℕ := placesFrom q.den (Nat.log 2 q.den) 0

def padLeft (width : ℕ) (cs : List Char) : List Char :=
  List.replicate (width - cs.length) '0' ++ cs

def unsignedText (q : ℚ) : List Char :=
  let k := places q
  let digits := padLeft (k + 1) (Nat.toDigits 10 ⌊q * 10 ^ k⌋.toNat)
  let whole := digits.take (digits.length - k)
  if k = 0 then whole else whole ++ '.' :: digits.drop (digits.length - k)

/- A decimal in full, without an exponent or trailing zeros. -/
def plainText (q : ℚ) : String :=
  String.ofList (if q < 0 then '-' :: unsignedText (-q) else unsignedText q)

section Values

theorem digits_value_append (xs ys : List Char) :
    digitsValue (xs ++ ys) = digitsValue xs * 10 ^ ys.length + digitsValue ys := by
  induction ys using List.reverseRecOn with
  | nil => simp [digitsValue]
  | append_singleton ys c ih =>
    have step : ∀ zs : List Char, digitsValue (zs ++ [c]) = 10 * digitsValue zs + digitValue c := by
      intro zs
      simp [digitsValue]
    rw [← List.append_assoc, step, ih, step, List.length_append, List.length_singleton, pow_succ]
    ring

theorem digits_value_zeros (n : ℕ) : digitsValue (List.replicate n '0') = 0 := by
  induction n with
  | zero => rfl
  | succ n ih =>
    rw [List.replicate_succ', digits_value_append, ih]
    decide

theorem digits_value_to_digits (m : ℕ) : digitsValue (Nat.toDigits 10 m) = m :=
  Nat.ofDigitChars_toDigits (by decide) (by decide)

theorem digits_value_pad (width m : ℕ) :
    digitsValue (padLeft width (Nat.toDigits 10 m)) = m := by
  rw [padLeft, digits_value_append, digits_value_zeros, digits_value_to_digits]
  omega

theorem pad_digits (width m : ℕ) : ∀ c ∈ padLeft width (Nat.toDigits 10 m), c.isDigit = true := by
  intro c member
  rcases List.mem_append.mp member with zero | digit
  · rw [List.eq_of_mem_replicate zero]
    decide
  · exact Nat.isDigit_of_mem_toDigits (by decide) (by decide) digit

theorem le_length_pad (width : ℕ) (cs : List Char) : width ≤ (padLeft width cs).length := by
  rw [padLeft, List.length_append, List.length_replicate]
  omega

/-- A divisor of a power of ten divides an early one. -/
theorem dvd_pow_log {den k : ℕ} (divides : den ∣ 10 ^ k) : den ∣ 10 ^ Nat.log 2 den := by
  induction den using Nat.strong_induction_on with
  | _ den ih =>
    have nonzero : den ≠ 0 := by
      rintro rfl
      exact absurd (Nat.eq_zero_of_zero_dvd divides) (by positivity)
    by_cases one : den = 1
    · rw [one]
      exact one_dvd _
    · have shared : Nat.gcd den 10 ≠ 1 := by
        intro coprime
        exact one (Nat.Coprime.eq_one_of_dvd (Nat.Coprime.pow_right k coprime) divides)
      obtain ⟨rest, split⟩ := Nat.gcd_dvd_left den 10
      have gcd_pos : Nat.gcd den 10 ≠ 0 := by
        intro zero
        rw [zero, zero_mul] at split
        exact nonzero split
      have rest_pos : rest ≠ 0 := by
        rintro rfl
        exact nonzero (by rw [split, mul_zero])
      have double : 2 * rest ≤ den := by
        have two : 2 ≤ Nat.gcd den 10 := by omega
        calc 2 * rest ≤ Nat.gcd den 10 * rest := Nat.mul_le_mul_right rest two
          _ = den := split.symm
      have early : rest ∣ 10 ^ Nat.log 2 rest := by
        apply ih rest (by omega)
        exact (Dvd.intro_left _ split.symm).trans divides
      have logs : Nat.log 2 rest + 1 ≤ Nat.log 2 den := by
        rw [← Nat.log_mul_base (by decide) rest_pos]
        exact Nat.log_mono_right (by omega)
      have next : den ∣ 10 ^ (Nat.log 2 rest + 1) := by
        rw [pow_succ, mul_comm]
        conv_lhs => rw [split]
        exact Nat.mul_dvd_mul (Nat.gcd_dvd_right den 10) early
      exact next.trans (pow_dvd_pow 10 logs)

theorem places_from_divides {den : ℕ} :
    ∀ {fuel k : ℕ}, den ∣ 10 ^ (k + fuel) → den ∣ 10 ^ placesFrom den fuel k := by
  intro fuel
  induction fuel with
  | zero =>
    intro k divides
    exact divides
  | succ fuel ih =>
    intro k divides
    unfold placesFrom
    split
    · rename_i enough
      exact Nat.dvd_of_mod_eq_zero enough
    · apply ih
      rw [Nat.add_right_comm]
      exact divides

/-- A decimal is a whole number of units in its last place. -/
theorem places_exact {q : ℚ} {n : ℤ} {k : ℕ} (decimal : q = n / 10 ^ k) :
    ((⌊q * 10 ^ places q⌋ : ℤ) : ℚ) = q * 10 ^ places q := by
  have bounded : q.den ∣ 10 ^ k := by
    have shape : q = Rat.divInt n ((10 ^ k : ℕ) : ℤ) := by
      rw [decimal, Rat.divInt_eq_div]
      push_cast
      rfl
    rw [shape]
    exact_mod_cast Rat.den_dvd n ((10 ^ k : ℕ) : ℤ)
  have divides : q.den ∣ 10 ^ places q := by
    apply places_from_divides
    rw [Nat.zero_add]
    exact dvd_pow_log bounded
  obtain ⟨m, split⟩ := divides
  have whole : q * 10 ^ places q = ((q.num * m : ℤ) : ℚ) := by
    have cast : (10 : ℚ) ^ places q = q.den * m := by exact_mod_cast split
    rw [cast, ← mul_assoc, Rat.mul_den_eq_num]
    push_cast
    rfl
  rw [whole, Int.floor_intCast]

theorem unsigned_value_whole {cs : List Char} (digits : ∀ c ∈ cs, c.isDigit = true)
    (filled : cs ≠ []) : unsignedValue cs = some (digitsValue cs : ℚ) := by
  have all : cs.takeWhile Char.isDigit = cs := List.takeWhile_eq_self_iff.mpr digits
  have none_left : cs.dropWhile Char.isDigit = [] := List.dropWhile_eq_nil_iff.mpr digits
  simp only [unsignedValue, all, none_left, if_neg filled]

theorem unsigned_value_point {whole frac : List Char} (digits : ∀ c ∈ whole, c.isDigit = true)
    (rest : ∀ c ∈ frac, c.isDigit = true) (filled : whole ≠ []) :
    unsignedValue (whole ++ '.' :: frac) =
      some ((digitsValue whole : ℚ) + digitsValue frac / 10 ^ frac.length) := by
  have front : (whole ++ '.' :: frac).takeWhile Char.isDigit = whole := by
    rw [List.takeWhile_append_of_pos digits, List.takeWhile_cons_of_neg (by decide),
      List.append_nil]
  have back : (whole ++ '.' :: frac).dropWhile Char.isDigit = '.' :: frac := by
    rw [List.dropWhile_append_of_pos digits, List.dropWhile_cons_of_neg (by decide)]
  have tail : frac.all Char.isDigit = true := List.all_eq_true.mpr rest
  have start : whole.isEmpty = false := by
    rw [List.isEmpty_eq_false_iff]
    exact filled
  simp only [unsignedValue, front, back, tail, start, Bool.false_and, Bool.not_false,
    Bool.and_true, if_true]

/-- The text of a decimal reads back as the decimal. -/
theorem unsigned_text_value {q : ℚ} {n : ℤ} {k : ℕ} (decimal : q = n / 10 ^ k) (nonneg : 0 ≤ q) :
    unsignedValue (unsignedText q) = some q := by
  have exact_units := places_exact decimal
  have scaled : 0 ≤ q * 10 ^ places q := by positivity
  have count : ((⌊q * 10 ^ places q⌋.toNat : ℕ) : ℚ) = q * 10 ^ places q := by
    rw [← exact_units]
    exact_mod_cast Int.toNat_of_nonneg (Int.floor_nonneg.mpr scaled)
  have digit := pad_digits (places q + 1) ⌊q * 10 ^ places q⌋.toNat
  have value := digits_value_pad (places q + 1) ⌊q * 10 ^ places q⌋.toNat
  have long := le_length_pad (places q + 1) (Nat.toDigits 10 ⌊q * 10 ^ places q⌋.toNat)
  unfold unsignedText
  simp only
  generalize padLeft (places q + 1) (Nat.toDigits 10 ⌊q * 10 ^ places q⌋.toNat) = ds at *
  have cut : ds.take (ds.length - places q) ++ ds.drop (ds.length - places q) = ds :=
    List.take_append_drop _ _
  have kept : ds.take (ds.length - places q) ≠ [] := by
    intro empty
    have lengths := congrArg List.length empty
    simp only [List.length_take, List.length_nil] at lengths
    omega
  have front : ∀ c ∈ ds.take (ds.length - places q), c.isDigit = true :=
    fun c member => digit c (List.mem_of_mem_take member)
  have back : ∀ c ∈ ds.drop (ds.length - places q), c.isDigit = true :=
    fun c member => digit c (List.mem_of_mem_drop member)
  split
  · rename_i whole
    rw [whole] at count
    have full : ds.take (ds.length - places q) = ds := by
      rw [whole, Nat.sub_zero, List.take_length]
    rw [unsigned_value_whole front kept, full, value, whole, count, pow_zero, mul_one]
  · have size : (ds.drop (ds.length - places q)).length = places q := by
      rw [List.length_drop]
      omega
    have parts := digits_value_append (ds.take (ds.length - places q))
      (ds.drop (ds.length - places q))
    rw [cut, value, size] at parts
    have unit : (0 : ℚ) < 10 ^ places q := by positivity
    rw [unsigned_value_point front back kept, size, Option.some.injEq]
    have cast : q * 10 ^ places q =
        (digitsValue (ds.take (ds.length - places q)) : ℚ) * 10 ^ places q +
          digitsValue (ds.drop (ds.length - places q)) := by
      rw [← count]
      exact_mod_cast parts
    field_simp
    rw [← cast, mul_comm]

theorem unsigned_text_chars (q : ℚ) : ∀ c ∈ unsignedText q, c.isDigit = true ∨ c = '.' := by
  intro c member
  have digit := pad_digits (places q + 1) ⌊q * 10 ^ places q⌋.toNat
  unfold unsignedText at member
  simp only at member
  split at member
  · exact Or.inl (digit c (List.mem_of_mem_take member))
  · rcases List.mem_append.mp member with front | back
    · exact Or.inl (digit c (List.mem_of_mem_take front))
    · rcases List.mem_cons.mp back with point | frac
      · exact Or.inr point
      · exact Or.inl (digit c (List.mem_of_mem_drop frac))

theorem digit_not_space {c : Char} (digit : c.isDigit = true) : isSpace c = false := by
  obtain ⟨low, high⟩ := Char.isDigit_iff_toNat.mp digit
  have zero : '0'.toNat = 48 := by decide
  have nine : '9'.toNat = 57 := by decide
  simp only [isSpace, Bool.or_eq_false_iff, Bool.and_eq_false_iff, decide_eq_false_iff_not]
  omega

theorem trim_of_no_space {cs : List Char} (solid : ∀ c ∈ cs, isSpace c = false) : trim cs = cs := by
  have front : cs.dropWhile isSpace = cs := by
    cases cs with
    | nil => rfl
    | cons c cs => exact List.dropWhile_cons_of_neg (by rw [solid c List.mem_cons_self]; decide)
  have back : cs.reverse.dropWhile isSpace = cs.reverse := by
    cases shape : cs.reverse with
    | nil => rfl
    | cons c rest =>
      have member : c ∈ cs := by
        rw [← List.mem_reverse, shape]
        exact List.mem_cons_self
      exact List.dropWhile_cons_of_neg (by rw [solid c member]; decide)
  rw [trim, front, back, List.reverse_reverse]

/-- Trimmed and read back, the text of a decimal is the decimal. -/
theorem plain_text_value {q : ℚ} {n : ℤ} {k : ℕ} (decimal : q = n / 10 ^ k) (nonneg : 0 ≤ q) :
    signedValue (trim (plainText q).toList) = some q := by
  have solid : ∀ c ∈ unsignedText q, isSpace c = false := by
    intro c member
    rcases unsigned_text_chars q c member with digit | rfl
    · exact digit_not_space digit
    · decide
  rw [plainText, String.toList_ofList, if_neg (not_lt.mpr nonneg), trim_of_no_space solid]
  have value := unsigned_text_value decimal nonneg
  cases shape : unsignedText q with
  | nil => rw [shape] at value; exact absurd value (by simp [unsignedValue])
  | cons c rest =>
    rw [shape] at value
    have plain := unsigned_text_chars q c (by rw [shape]; exact List.mem_cons_self)
    unfold signedValue
    split
    · rename_i heads
      rw [(List.cons.inj heads).1] at plain
      exact absurd plain (by decide)
    · rename_i heads
      rw [(List.cons.inj heads).1] at plain
      exact absurd plain (by decide)
    · exact value

end Values

end DecimalText
