import XChainHub.Library.DecimalText

/-!
Numbers by their shortest decimal text. A finite number is kept as the digits
that Number::toString prints and the place of the point before which they
stand, which determine it; both zeros print alike and are one value.
-/
namespace NumberText
open DecimalText

/- 0.d1d2d3... times ten to the point, without zeros at either end. -/
structure Decimal where
  negative : Bool
  digits : List Char
  point : ℤ
  plain : ∀ c ∈ digits, c.isDigit = true
  leading : digits.head? ≠ some '0'
  trailing : digits.getLast? ≠ some '0'
  filled : digits ≠ []
  deriving DecidableEq

inductive Number where
  | nan
  | infinite (negative : Bool)
  | zero
  | finite (value : Decimal)
  deriving DecidableEq

def signText (negative : Bool) : List Char := if negative then ['-'] else []

def exponentText (e : ℤ) : List Char :=
  (if 0 ≤ e then '+' else '-') :: Nat.toDigits 10 e.natAbs

def Decimal.magnitude (d : Decimal) : List Char :=
  if d.digits.length ≤ d.point ∧ d.point ≤ 21 then
    d.digits ++ List.replicate (d.point.toNat - d.digits.length) '0'
  else if 0 < d.point ∧ d.point ≤ 21 then
    d.digits.take d.point.toNat ++ '.' :: d.digits.drop d.point.toNat
  else if -6 < d.point ∧ d.point ≤ 0 then
    '0' :: '.' :: (List.replicate (-d.point).toNat '0' ++ d.digits)
  else
    d.digits.take 1 ++ (if d.digits.length = 1 then [] else '.' :: d.digits.drop 1) ++
      'e' :: exponentText (d.point - 1)

def Number.chars : Number → List Char
  | .nan => "NaN".toList
  | .infinite negative => signText negative ++ "Infinity".toList
  | .zero => ['0']
  | .finite d => signText d.negative ++ d.magnitude

def Number.text (n : Number) : String := String.ofList n.chars

/- a === b: a NaN equals nothing. -/
def strictEquals (a b : Number) : Bool := a ≠ .nan && a = b

section Reading

def dropTail (p : Char → Bool) (cs : List Char) : List Char := (cs.reverse.dropWhile p).reverse

def significand (cs : List Char) : List Char := dropTail (· = '0') (cs.dropWhile (· = '0'))

theorem dropTail_sublist (p : Char → Bool) (cs : List Char) : (dropTail p cs).Sublist cs := by
  rw [dropTail, ← List.reverse_sublist, List.reverse_reverse]
  exact List.dropWhile_sublist p

theorem significand_sublist (cs : List Char) : (significand cs).Sublist cs :=
  (dropTail_sublist _ _).trans (List.dropWhile_sublist _)

theorem significand_trailing (cs : List Char) : (significand cs).getLast? ≠ some '0' := by
  intro last
  rw [significand, dropTail, List.getLast?_reverse] at last
  have stop := List.head?_dropWhile_not (fun c : Char => decide (c = '0'))
    (cs.dropWhile (· = '0')).reverse
  rw [last] at stop
  simp at stop

theorem significand_leading (cs : List Char) : (significand cs).head? ≠ some '0' := by
  intro first
  have stop := List.head?_dropWhile_not (fun c : Char => decide (c = '0')) cs
  have part : (significand cs).IsPrefix (cs.dropWhile (· = '0')) := by
    rw [significand, dropTail, ← List.reverse_suffix, List.reverse_reverse]
    exact List.dropWhile_suffix _
  obtain ⟨rest, split⟩ := part
  cases shape : significand cs with
  | nil => rw [shape] at first; exact absurd first (by simp)
  | cons c tail =>
    rw [shape] at first split
    rw [List.head?_cons, Option.some.injEq] at first
    rw [← split, List.cons_append, List.head?_cons, first] at stop
    simp at stop

/- The number whose significant digits stand before the given place. -/
def normalized (negative : Bool) (cs : List Char) (point : ℤ) : Number :=
  if digits : cs.all Char.isDigit = true then
    if filled : significand cs = [] then .zero
    else .finite
      { negative
        digits := significand cs
        point := point - (cs.takeWhile (· = '0')).length
        plain := fun c member =>
          List.all_eq_true.mp digits c ((significand_sublist cs).mem member)
        leading := significand_leading cs
        trailing := significand_trailing cs
        filled }
  else .nan

def cut (mark : Char) (cs : List Char) : List Char × List Char :=
  (cs.takeWhile (· ≠ mark), (cs.dropWhile (· ≠ mark)).drop 1)

def readExponent : List Char → ℤ
  | '+' :: cs => digitsValue cs
  | '-' :: cs => -digitsValue cs
  | cs => digitsValue cs

/- Decimal text of any length, read exactly. -/
def readUnsigned (negative : Bool) (cs : List Char) : Number :=
  if cs = "Infinity".toList then .infinite negative
  else
    let scaled := cut 'e' cs
    let parts := cut '.' scaled.1
    normalized negative (parts.1 ++ parts.2) (parts.1.length + readExponent scaled.2)

def readNumber : List Char → Number
  | '-' :: cs => readUnsigned true cs
  | cs => readUnsigned false cs

theorem cut_at {mark : Char} {front : List Char} (plain : mark ∉ front) (back : List Char) :
    cut mark (front ++ mark :: back) = (front, back) := by
  have other : ∀ c ∈ front, decide (c ≠ mark) = true := by
    intro c member
    rw [decide_eq_true_iff]
    intro same
    exact plain (same ▸ member)
  rw [cut, List.takeWhile_append_of_pos other, List.dropWhile_append_of_pos other,
    List.takeWhile_cons_of_neg (by simp), List.dropWhile_cons_of_neg (by simp)]
  simp

theorem cut_absent {mark : Char} {cs : List Char} (plain : mark ∉ cs) : cut mark cs = (cs, []) := by
  have other : ∀ c ∈ cs, decide (c ≠ mark) = true := by
    intro c member
    rw [decide_eq_true_iff]
    intro same
    exact plain (same ▸ member)
  rw [cut, List.takeWhile_eq_self_iff.mpr other, List.dropWhile_eq_nil_iff.mpr other]
  rfl

theorem read_exponent (e : ℤ) : readExponent (exponentText e) = e := by
  unfold exponentText
  split
  · rename_i nonneg
    rw [readExponent, digits_value_to_digits]
    omega
  · rename_i below
    rw [readExponent, digits_value_to_digits]
    omega

/- Zeros around the digits only move the point. -/
theorem normalized_digits (d : Decimal) (before after : ℕ) (point : ℤ)
    (place : point = d.point + before) :
    normalized d.negative
      (List.replicate before '0' ++ (d.digits ++ List.replicate after '0')) point = .finite d := by
  obtain ⟨negative, digits, at_point, plain, leading, trailing, filled⟩ := d
  simp only at place
  have zeros : ∀ n, ∀ c ∈ List.replicate n '0', decide (c = '0') = true := by
    intro n c member
    rw [List.eq_of_mem_replicate member]
    rfl
  have front : ∀ rest, (digits ++ rest).dropWhile (fun c => decide (c = '0')) = digits ++ rest ∧
      (digits ++ rest).takeWhile (fun c => decide (c = '0')) = [] := by
    intro rest
    cases digits with
    | nil => exact absurd rfl filled
    | cons c tail =>
      have nonzero : ¬ decide (c = '0') = true := by
        intro zero
        rw [decide_eq_true_iff] at zero
        exact leading (by rw [zero]; rfl)
      constructor
      · exact List.dropWhile_cons_of_neg nonzero
      · exact List.takeWhile_cons_of_neg nonzero
  have back : digits.reverse.dropWhile (fun c => decide (c = '0')) = digits.reverse := by
    cases shape : digits.reverse with
    | nil => rfl
    | cons c tail =>
      have nonzero : ¬ decide (c = '0') = true := by
        intro zero
        rw [decide_eq_true_iff] at zero
        apply trailing
        rw [← List.head?_reverse, shape, zero]
        rfl
      exact List.dropWhile_cons_of_neg nonzero
  have core : significand
      (List.replicate before '0' ++ (digits ++ List.replicate after '0')) = digits := by
    rw [significand, List.dropWhile_append_of_pos (zeros before), (front _).1, dropTail,
      List.reverse_append, List.reverse_replicate, List.dropWhile_append_of_pos (zeros after), back,
      List.reverse_reverse]
  have lead : ((List.replicate before '0' ++ (digits ++ List.replicate after '0')).takeWhile
      (fun c => decide (c = '0'))).length = before := by
    rw [List.takeWhile_append_of_pos (zeros before), (front _).2, List.append_nil,
      List.length_replicate]
  have all : (List.replicate before '0' ++ (digits ++ List.replicate after '0')).all
      Char.isDigit = true := by
    rw [List.all_eq_true]
    intro c member
    simp only [List.mem_append, List.mem_replicate] at member
    rcases member with ⟨-, rfl⟩ | digit | ⟨-, rfl⟩
    · rfl
    · exact plain c digit
    · rfl
  rw [normalized, dif_pos all, dif_neg (by rw [core]; exact filled)]
  congr 2
  rw [lead, place]
  omega

theorem digit_free {mark : Char} (other : mark.isDigit = false) {cs : List Char}
    (digits : ∀ c ∈ cs, c.isDigit = true) : mark ∉ cs := by
  intro member
  rw [digits mark member] at other
  exact Bool.noConfusion other

theorem magnitude_digit (d : Decimal) : ∃ c rest, d.magnitude = c :: rest ∧ c.isDigit = true := by
  cases shape : d.digits with
  | nil => exact absurd shape d.filled
  | cons c tail =>
    have digit : c.isDigit = true := d.plain c (by rw [shape]; exact List.mem_cons_self)
    unfold Decimal.magnitude
    rw [shape]
    split
    · exact ⟨c, _, rfl, digit⟩
    · split
      · rename_i inside
        obtain ⟨n, place⟩ : ∃ n : ℕ, d.point.toNat = n + 1 := ⟨d.point.toNat - 1, by omega⟩
        rw [place, List.take_succ_cons]
        exact ⟨c, _, rfl, digit⟩
      · split
        · exact ⟨'0', _, rfl, rfl⟩
        · exact ⟨c, _, rfl, digit⟩

/-- The text of a finite number reads back as the number. -/
theorem read_magnitude (d : Decimal) : readUnsigned d.negative d.magnitude = .finite d := by
  have no_point : '.' ∉ d.digits := digit_free rfl d.plain
  have no_exp : 'e' ∉ d.digits := digit_free rfl d.plain
  have finite_text : d.magnitude ≠ "Infinity".toList := by
    obtain ⟨c, rest, shape, digit⟩ := magnitude_digit d
    rw [shape]
    intro same
    rw [(List.cons.inj same).1] at digit
    exact absurd digit (by decide)
  have zeros : ∀ n, ∀ c ∈ List.replicate n '0', c.isDigit = true := by
    intro n c member
    rw [List.eq_of_mem_replicate member]
    rfl
  rw [readUnsigned, if_neg finite_text]
  simp only
  unfold Decimal.magnitude
  split
  · rename_i whole
    have digits : ∀ c ∈ d.digits ++ List.replicate (d.point.toNat - d.digits.length) '0',
        c.isDigit = true := by
      intro c member
      rcases List.mem_append.mp member with digit | zero
      · exact d.plain c digit
      · exact zeros _ c zero
    rw [cut_absent (digit_free rfl digits), cut_absent (digit_free rfl digits), List.append_nil]
    have exact_digits := normalized_digits d 0 (d.point.toNat - d.digits.length) d.point (by simp)
    rw [List.replicate_zero, List.nil_append] at exact_digits
    rw [← exact_digits]
    congr 1
    simp only [List.length_append, List.length_replicate, readExponent, digitsValue,
      List.foldl_nil]
    omega
  · split
    · rename_i inside
      have front : ∀ c ∈ d.digits.take d.point.toNat, c.isDigit = true :=
        fun c member => d.plain c (List.mem_of_mem_take member)
      have back : ∀ c ∈ d.digits.drop d.point.toNat, c.isDigit = true :=
        fun c member => d.plain c (List.mem_of_mem_drop member)
      have no_e : 'e' ∉ d.digits.take d.point.toNat ++ '.' :: d.digits.drop d.point.toNat := by
        simp only [List.mem_append, List.mem_cons, not_or]
        exact ⟨digit_free rfl front, by decide, digit_free rfl back⟩
      rw [cut_absent no_e, cut_at (digit_free rfl front), List.take_append_drop]
      have exact_digits := normalized_digits d 0 0 d.point (by simp)
      rw [List.replicate_zero, List.nil_append, List.append_nil] at exact_digits
      rw [← exact_digits]
      congr 1
      simp only [List.length_take, readExponent, digitsValue, List.foldl_nil]
      omega
    · split
      · rename_i inside
        have tail : ∀ c ∈ List.replicate (-d.point).toNat '0' ++ d.digits, c.isDigit = true := by
          intro c member
          rcases List.mem_append.mp member with zero | digit
          · exact zeros _ c zero
          · exact d.plain c digit
        have no_e : 'e' ∉ '0' :: '.' :: (List.replicate (-d.point).toNat '0' ++ d.digits) := by
          simp only [List.mem_cons, not_or]
          exact ⟨by decide, by decide, digit_free rfl tail⟩
        rw [cut_absent no_e]
        have zero_plain : '.' ∉ ['0'] := by decide
        have split_point := cut_at zero_plain (List.replicate (-d.point).toNat '0' ++ d.digits)
        rw [List.singleton_append] at split_point
        rw [split_point]
        have exact_digits := normalized_digits d ((-d.point).toNat + 1) 0 1 (by omega)
        rw [List.replicate_zero, List.append_nil, List.replicate_succ] at exact_digits
        rw [← exact_digits]
        congr 1
      · have head : ∀ c ∈ d.digits.take 1, c.isDigit = true :=
          fun c member => d.plain c (List.mem_of_mem_take member)
        have rest : ∀ c ∈ d.digits.drop 1, c.isDigit = true :=
          fun c member => d.plain c (List.mem_of_mem_drop member)
        have one : (d.digits.take 1).length = 1 := by
          cases shape : d.digits with
          | nil => exact absurd shape d.filled
          | cons c tail => rfl
        have exact_digits := normalized_digits d 0 0 d.point (by simp)
        rw [List.replicate_zero, List.nil_append, List.append_nil] at exact_digits
        split
        · rename_i single
          have same : d.digits.take 1 = d.digits := List.take_of_length_le (by omega)
          rw [List.append_nil, cut_at (digit_free rfl head), cut_absent (digit_free rfl head)]
          simp only
          rw [List.append_nil, one, read_exponent, same, ← exact_digits]
          congr 1
          omega
        · have no_e : 'e' ∉ d.digits.take 1 ++ '.' :: d.digits.drop 1 := by
            simp only [List.mem_append, List.mem_cons, not_or]
            exact ⟨digit_free rfl head, by decide, digit_free rfl rest⟩
          rw [cut_at no_e, cut_at (digit_free rfl head)]
          simp only
          rw [List.take_append_drop, one, read_exponent, ← exact_digits]
          congr 1
          omega

theorem read_chars (n : Number) : readNumber n.chars = n := by
  cases n with
  | nan => decide
  | infinite negative => cases negative <;> decide
  | zero => decide
  | finite d =>
    obtain ⟨c, rest, shape, digit⟩ := magnitude_digit d
    have value := read_magnitude d
    cases negative : d.negative with
    | true =>
      rw [negative] at value
      rw [Number.chars, negative, signText, if_pos rfl, List.singleton_append, readNumber, value]
    | false =>
      rw [negative] at value
      rw [Number.chars, negative, signText, if_neg (by decide), List.nil_append, ← value, shape]
      unfold readNumber
      split
      · rename_i heads
        rw [(List.cons.inj heads).1] at digit
        exact absurd digit (by decide)
      · rfl

end Reading

section Alphabet

theorem to_digits_plain (m : ℕ) : ∀ c ∈ Nat.toDigits 10 m, c.isDigit = true :=
  fun _ member => Nat.isDigit_of_mem_toDigits (by decide) (by decide) member

theorem magnitude_chars (d : Decimal) :
    ∀ c ∈ d.magnitude, c.isDigit = true ∨ c ∈ ['.', 'e', '+', '-'] := by
  intro c member
  unfold Decimal.magnitude at member
  split at member
  · rcases List.mem_append.mp member with digit | zero
    · exact Or.inl (d.plain c digit)
    · rw [List.eq_of_mem_replicate zero]
      exact Or.inl rfl
  · split at member
    · simp only [List.mem_append, List.mem_cons] at member
      rcases member with front | rfl | back
      · exact Or.inl (d.plain c (List.mem_of_mem_take front))
      · exact Or.inr (by decide)
      · exact Or.inl (d.plain c (List.mem_of_mem_drop back))
    · split at member
      · simp only [List.mem_append, List.mem_cons, List.mem_replicate] at member
        rcases member with rfl | rfl | ⟨-, rfl⟩ | digit
        · exact Or.inl rfl
        · exact Or.inr (by decide)
        · exact Or.inl rfl
        · exact Or.inl (d.plain c digit)
      · simp only [List.mem_append, List.mem_cons, exponentText] at member
        rcases member with (front | back) | rfl | sign | exponent
        · exact Or.inl (d.plain c (List.mem_of_mem_take front))
        · split at back
          · exact absurd back (by simp)
          · rcases List.mem_cons.mp back with rfl | digit
            · exact Or.inr (by decide)
            · exact Or.inl (d.plain c (List.mem_of_mem_drop digit))
        · exact Or.inr (by decide)
        · rw [sign]
          split <;> exact Or.inr (by decide)
        · exact Or.inl (to_digits_plain _ c exponent)

theorem number_chars (n : Number) :
    ∀ c ∈ n.chars, c.isDigit = true ∨ c ∈ ".e+-NaInfity".toList := by
  intro c member
  cases n with
  | nan =>
    have closed : Number.nan.chars.all (fun c => c ∈ ".e+-NaInfity".toList) = true := by decide
    exact Or.inr (by simpa using List.all_eq_true.mp closed c member)
  | infinite negative =>
    have closed : (Number.infinite negative).chars.all (fun c => c ∈ ".e+-NaInfity".toList) =
        true := by
      cases negative <;> decide
    exact Or.inr (by simpa using List.all_eq_true.mp closed c member)
  | zero => exact Or.inl (by rw [List.mem_singleton.mp member]; rfl)
  | finite d =>
    rcases List.mem_append.mp member with sign | digit
    · unfold signText at sign
      split at sign
      · rw [List.mem_singleton.mp sign]
        exact Or.inr (by decide)
      · exact absurd sign (by simp)
    · rcases magnitude_chars d c digit with plain | mark
      · exact Or.inl plain
      · right
        simp only [List.mem_cons, List.not_mem_nil, or_false] at mark
        rcases mark with rfl | rfl | rfl | rfl <;> decide

/-- A delimiter outside the number alphabet does not occur in a number. -/
theorem number_plain {mark : Char} (other : mark.isDigit = false)
    (foreign : mark ∉ ".e+-NaInfity".toList) (n : Number) : mark ∉ n.chars := by
  intro member
  rcases number_chars n mark member with digit | letter
  · rw [digit] at other
    exact Bool.noConfusion other
  · exact foreign letter

/-- Beyond 21 characters a number shows a point or a sign. -/
theorem long_number_marked (n : Number) (long : 21 < n.chars.length) :
    '.' ∈ n.chars ∨ '+' ∈ n.chars ∨ '-' ∈ n.chars := by
  cases n with
  | nan => exact absurd long (by decide)
  | infinite negative => cases negative <;> exact absurd long (by decide)
  | zero => exact absurd long (by decide)
  | finite d =>
    cases negative : d.negative with
    | true =>
      right
      right
      simp [Number.chars, signText, negative]
    | false =>
      simp only [Number.chars, signText, negative, Bool.false_eq_true, if_false,
        List.nil_append] at long ⊢
      unfold Decimal.magnitude at long ⊢
      split
      · rename_i whole
        rw [if_pos whole, List.length_append, List.length_replicate] at long
        omega
      · split
        · left
          simp
        · split
          · left
            simp
          · simp only [exponentText, List.mem_append, List.mem_cons]
            by_cases up : 0 ≤ d.point - 1
            · rw [if_pos up]
              exact Or.inr (Or.inl (Or.inr (Or.inr (Or.inl rfl))))
            · rw [if_neg up]
              exact Or.inr (Or.inr (Or.inr (Or.inr (Or.inl rfl))))

end Alphabet

section Integers

/- The whole number of zero or more that a number is, if it is one. -/
def Number.natural : Number → Option ℕ
  | .zero => some 0
  | .finite d =>
    if d.negative = false ∧ d.digits.length ≤ d.point then
      some (digitsValue d.digits * 10 ^ (d.point.toNat - d.digits.length))
    else none
  | _ => none

/- parseInt: the sign and the digits in front of the text. -/
def Number.parseInt (n : Number) : Option ℤ :=
  let digits (cs : List Char) : Option ℤ :=
    if cs.takeWhile Char.isDigit = [] then none else some (digitsValue (cs.takeWhile Char.isDigit))
  match n.chars with
  | '-' :: cs => (digits cs).map (fun v => -v)
  | cs => digits cs

def Number.ofNat (n : ℕ) : Number :=
  normalized false (Nat.toDigits 10 n) (Nat.toDigits 10 n).length

end Integers

section Naturals

theorem digits_value_leading (n : ℕ) (cs : List Char) :
    digitsValue (List.replicate n '0' ++ cs) = digitsValue cs := by
  rw [digits_value_append, digits_value_zeros]
  omega

/-- Digits are their significant part between zeros. -/
theorem significand_between (cs : List Char) :
    cs = List.replicate (cs.takeWhile (· = '0')).length '0' ++ (significand cs ++
      List.replicate (cs.length - (cs.takeWhile (· = '0')).length - (significand cs).length) '0') := by
  have front := List.eq_replicate_of_mem (l := cs.takeWhile (· = '0')) (a := '0') (by
    intro c member
    simpa using List.mem_takeWhile_imp member)
  have tail : cs.dropWhile (· = '0') = significand cs ++
      ((cs.dropWhile (· = '0')).reverse.takeWhile (· = '0')).reverse := by
    rw [significand, dropTail, ← List.reverse_append, List.takeWhile_append_dropWhile,
      List.reverse_reverse]
  have back := List.eq_replicate_of_mem (a := '0')
    (l := ((cs.dropWhile (· = '0')).reverse.takeWhile (· = '0')).reverse) (by
    intro c member
    rw [List.mem_reverse] at member
    simpa using List.mem_takeWhile_imp member)
  have whole := List.takeWhile_append_dropWhile (p := (· = '0')) (l := cs)
  have lengths : cs.length = (cs.takeWhile (· = '0')).length + ((significand cs).length +
      ((cs.dropWhile (· = '0')).reverse.takeWhile (· = '0')).reverse.length) := by
    conv_lhs => rw [← whole, tail]
    simp only [List.length_append]
  rw [show cs.length - (cs.takeWhile (· = '0')).length - (significand cs).length =
    ((cs.dropWhile (· = '0')).reverse.takeWhile (· = '0')).reverse.length by omega, ← back, ← tail,
    ← front]
  exact whole.symm

/- The whole number a nonnegative number stands for, read off its digits. -/
def Number.whole : Number → ℕ
  | .finite d => digitsValue (d.digits ++ List.replicate (d.point.toNat - d.digits.length) '0')
  | _ => 0

theorem whole_of_nat (n : ℕ) : (Number.ofNat n).whole = n := by
  have digits : (Nat.toDigits 10 n).all Char.isDigit = true :=
    List.all_eq_true.mpr (to_digits_plain n)
  have value : digitsValue (Nat.toDigits 10 n) = n := digits_value_to_digits n
  have between := significand_between (Nat.toDigits 10 n)
  rw [Number.ofNat, normalized, dif_pos digits]
  split
  · rename_i empty
    rw [empty, List.nil_append, ← List.replicate_add] at between
    rw [← value, between, digits_value_zeros]
    rfl
  · rw [Number.whole]
    conv_rhs => rw [← value, between, digits_value_leading]
    congr 3
    simp only
    omega

theorem of_nat_inj {a b : ℕ} (same : Number.ofNat a = Number.ofNat b) : a = b := by
  rw [← whole_of_nat a, same, whole_of_nat]

/- The exact value of a finite number. -/
def Decimal.rational (d : Decimal) : ℚ :=
  let magnitude : ℚ :=
    if d.digits.length ≤ d.point then
      (digitsValue (d.digits ++ List.replicate (d.point.toNat - d.digits.length) '0') : ℚ)
    else (digitsValue d.digits : ℚ) / (10 ^ (d.digits.length - d.point).toNat : ℕ)
  if d.negative then -magnitude else magnitude

def Number.rational : Number → Option ℚ
  | .zero => some 0
  | .finite d => some d.rational
  | _ => none

theorem rational_of_nat (n : ℕ) : (Number.ofNat n).rational = some (n : ℚ) := by
  have digits : (Nat.toDigits 10 n).all Char.isDigit = true :=
    List.all_eq_true.mpr (to_digits_plain n)
  have between := congrArg List.length (significand_between (Nat.toDigits 10 n))
  simp only [List.length_append, List.length_replicate] at between
  have whole := whole_of_nat n
  rw [Number.ofNat, normalized, dif_pos digits] at whole ⊢
  by_cases empty : significand (Nat.toDigits 10 n) = []
  · rw [dif_pos empty] at whole ⊢
    have zero : n = 0 := whole.symm
    rw [zero]
    rfl
  · rw [dif_neg empty, Number.whole] at whole
    have fits : ((significand (Nat.toDigits 10 n)).length : ℤ) ≤ (Nat.toDigits 10 n).length -
        ((Nat.toDigits 10 n).takeWhile (· = '0')).length := by
      omega
    rw [dif_neg empty]
    simp only [Number.rational, Decimal.rational, if_pos fits, Bool.false_eq_true, if_false]
    rw [whole]

theorem natural_of_nat (n : ℕ) : (Number.ofNat n).natural = some n := by
  have digits : (Nat.toDigits 10 n).all Char.isDigit = true :=
    List.all_eq_true.mpr (to_digits_plain n)
  have between := congrArg List.length (significand_between (Nat.toDigits 10 n))
  simp only [List.length_append, List.length_replicate] at between
  have whole := whole_of_nat n
  rw [Number.ofNat, normalized, dif_pos digits] at whole ⊢
  by_cases empty : significand (Nat.toDigits 10 n) = []
  · rw [dif_pos empty] at whole ⊢
    have zero : n = 0 := whole.symm
    rw [zero]
    rfl
  · rw [dif_neg empty, Number.whole, digits_value_append, digits_value_zeros, List.length_replicate,
      Nat.add_zero] at whole
    have fits : ((significand (Nat.toDigits 10 n)).length : ℤ) ≤ (Nat.toDigits 10 n).length -
        ((Nat.toDigits 10 n).takeWhile (· = '0')).length := by
      omega
    rw [dif_neg empty]
    simp only [Number.natural, fits, and_self, if_true]
    rw [whole]

end Naturals

/-- Different numbers have different texts. -/
theorem chars_inj {a b : Number} (same : a.chars = b.chars) : a = b := by
  rw [← read_chars a, same, read_chars]

end NumberText
