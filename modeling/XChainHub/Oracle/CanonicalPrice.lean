import XChainHub.Lib.Bcmath
import XChainHub.Library.ScriptValue

/-!
The canonical decimal spelling of a price (oracle/canonical_price.js), and its reading by
parseFloat and by bcnum, which agree on it.
-/
namespace XChainHub.Oracle
open Bcmath DecimalText DecimalRounding ScriptValue

def PRICE_MAX_CHARS : ℕ := 40

/- Digits, and perhaps a point with digits behind it. -/
def canonicalSpelling (s : String) : Bool :=
  !(s.toList.takeWhile Char.isDigit).isEmpty &&
    match s.toList.dropWhile Char.isDigit with
    | [] => true
    | '.' :: frac => !frac.isEmpty && frac.all Char.isDigit
    | _ => false

def isCanonicalText (s : String) : Bool := s.toList.length ≤ PRICE_MAX_CHARS && canonicalSpelling s

def canonicalPrice (v : Value) : Option String :=
  match v with
  | .number n =>
    if n.rational.isNone then none else if isCanonicalText n.text then some n.text else none
  | .text s => if isCanonicalText s then some s else none
  | _ => none

section Floats

def signOf : List Char → ℚ × List Char
  | '-' :: cs => (-1, cs)
  | '+' :: cs => (1, cs)
  | cs => (1, cs)

def exponentOf : List Char → ℤ
  | [] => 0
  | e :: cs =>
    if e ≠ 'e' ∧ e ≠ 'E' then 0
    else match cs with
      | '-' :: ds => -(digitsValue (ds.takeWhile Char.isDigit) : ℤ)
      | '+' :: ds => digitsValue (ds.takeWhile Char.isDigit)
      | ds => digitsValue (ds.takeWhile Char.isDigit)

/- The number that parseFloat reads off the front of a text, before it is made a double;
   none for NaN and for the infinities. -/
def parseFloat (s : String) : Option ℚ :=
  let (sign, cs) := signOf (s.toList.dropWhile isSpace)
  let whole := cs.takeWhile Char.isDigit
  let rest := cs.dropWhile Char.isDigit
  let frac := match rest with
    | '.' :: ds => ds.takeWhile Char.isDigit
    | _ => []
  let tail := match rest with
    | '.' :: ds => ds.dropWhile Char.isDigit
    | ds => ds
  if whole = [] ∧ frac = [] then none
  else some (sign * (digitsValue whole + digitsValue frac / 10 ^ frac.length) * 10 ^ exponentOf tail)

end Floats

section Canonical
variable {s : String}

/- What a canonical spelling is made of. -/
inductive Spelled (cs : List Char) : Prop where
  | whole (digits : ∀ c ∈ cs, c.isDigit = true) (filled : cs ≠ []) : Spelled cs
  | point (whole frac : List Char) (digits : ∀ c ∈ whole, c.isDigit = true) (filled : whole ≠ [])
      (rest : ∀ c ∈ frac, c.isDigit = true) (shape : cs = whole ++ '.' :: frac) : Spelled cs

theorem spelled_of_canonical (canonical : isCanonicalText s = true) :
    s.toList.length ≤ 40 ∧ Spelled s.toList := by
  simp only [isCanonicalText, canonicalSpelling, PRICE_MAX_CHARS, Bool.and_eq_true,
    Bool.not_eq_true', List.isEmpty_eq_false_iff] at canonical
  obtain ⟨length, filled, rest⟩ := canonical
  refine ⟨of_decide_eq_true length, ?_⟩
  have split := List.takeWhile_append_dropWhile (p := Char.isDigit) (l := s.toList)
  have digits : ∀ c ∈ s.toList.takeWhile Char.isDigit, c.isDigit = true :=
    fun c member => List.mem_takeWhile_imp member
  split at rest
  · rename_i none
    rw [none, List.append_nil] at split
    rw [split] at digits filled
    exact .whole digits filled
  · rename_i frac point
    simp only [Bool.and_eq_true, List.all_eq_true] at rest
    rw [point] at split
    exact .point _ frac digits filled rest.2 split.symm
  · cases rest

theorem digit_head {cs : List Char} (digits : ∀ c ∈ cs, c.isDigit = true) (filled : cs ≠ [])
    (more : List Char) :
    signOf (cs ++ more) = (1, cs ++ more) ∧ signedValue (cs ++ more) = unsignedValue (cs ++ more) := by
  cases cs with
  | nil => exact absurd rfl filled
  | cons c cs =>
    have digit := digits c (by simp)
    have plus : c ≠ '+' := by
      rintro rfl
      exact absurd digit (by decide)
    have minus : c ≠ '-' := by
      rintro rfl
      exact absurd digit (by decide)
    constructor
    · simp [signOf, plus, minus]
    · simp [signedValue, plus, minus]

section Reading
variable {whole frac : List Char}

theorem start_of_solid (solid : ∀ c ∈ s.toList, isSpace c = false) :
    s.toList.dropWhile isSpace = s.toList := by
  cases shape : s.toList with
  | nil => rfl
  | cons c cs => exact List.dropWhile_cons_of_neg (by simp [solid c (by simp [shape])])

/-- Digits alone are one number to parseFloat and to bcnum. -/
theorem whole_value (digits : ∀ c ∈ s.toList, c.isDigit = true) (filled : s.toList ≠ []) :
    parseFloat s = some (digitsValue s.toList : ℚ) ∧ bcnum s = digitsValue s.toList := by
  have solid : ∀ c ∈ s.toList, isSpace c = false := fun c member => digit_not_space (digits c member)
  have heads := digit_head digits filled []
  rw [List.append_nil] at heads
  have start := start_of_solid solid
  have all : s.toList.takeWhile Char.isDigit = s.toList := List.takeWhile_eq_self_iff.mpr digits
  have none : s.toList.dropWhile Char.isDigit = [] := List.dropWhile_eq_nil_iff.mpr digits
  constructor
  · simp [parseFloat, start, heads.1, all, none, filled, exponentOf, digitsValue]
  · rw [bcnum, trim_of_no_space solid, heads.2, unsigned_value_whole digits filled,
      Option.getD_some]

/-- Digits with a point and digits behind it are one number to both. -/
theorem point_value (shape : s.toList = whole ++ '.' :: frac)
    (digits : ∀ c ∈ whole, c.isDigit = true) (filled : whole ≠ [])
    (rest : ∀ c ∈ frac, c.isDigit = true) :
    parseFloat s = some (digitsValue whole + digitsValue frac / 10 ^ frac.length : ℚ) ∧
      bcnum s = digitsValue whole + digitsValue frac / 10 ^ frac.length := by
  have solid : ∀ c ∈ s.toList, isSpace c = false := by
    intro c member
    rw [shape] at member
    rcases List.mem_append.mp member with front | back
    · exact digit_not_space (digits c front)
    · rcases List.mem_cons.mp back with rfl | tail
      · decide
      · exact digit_not_space (rest c tail)
  have heads := digit_head digits filled ('.' :: frac)
  have start := start_of_solid solid
  have front : (whole ++ '.' :: frac).takeWhile Char.isDigit = whole := by
    rw [List.takeWhile_append_of_pos digits, List.takeWhile_cons_of_neg (by decide),
      List.append_nil]
  have back : (whole ++ '.' :: frac).dropWhile Char.isDigit = '.' :: frac := by
    rw [List.dropWhile_append_of_pos digits, List.dropWhile_cons_of_neg (by decide)]
  have all : frac.takeWhile Char.isDigit = frac := List.takeWhile_eq_self_iff.mpr rest
  have none : frac.dropWhile Char.isDigit = [] := List.dropWhile_eq_nil_iff.mpr rest
  constructor
  · rw [shape] at start
    rw [parseFloat, shape, start, heads.1]
    simp only [front, back, all, none, filled, false_and, if_false, exponentOf, one_mul, zpow_zero,
      mul_one]
  · rw [bcnum, trim_of_no_space solid, shape, heads.2, unsigned_value_point digits rest filled,
      Option.getD_some]

end Reading

/-- A canonical spelling is one number to parseFloat and to bcnum, of at most 38 decimals. -/
theorem canonical_value (canonical : isCanonicalText s = true) :
    parseFloat s = some (bcnum s) ∧ OnGrid 38 (bcnum s) ∧ 0 ≤ bcnum s := by
  obtain ⟨length, spelled⟩ := spelled_of_canonical canonical
  cases spelled with
  | whole digits filled =>
    obtain ⟨parsed, value⟩ := whole_value digits filled
    refine ⟨?_, ?_, ?_⟩
    · rw [value]
      exact parsed
    · rw [value]
      exact OnGrid.finer ⟨digitsValue s.toList, by push_cast; simp⟩ (Nat.zero_le 38)
    · rw [value]
      positivity
  | point whole frac digits filled rest shape =>
    obtain ⟨parsed, value⟩ := point_value shape digits filled rest
    have short : frac.length ≤ 38 := by
      have size := congrArg List.length shape
      have one : 1 ≤ whole.length := List.length_pos_iff.mpr filled
      rw [List.length_append, List.length_cons] at size
      omega
    refine ⟨?_, ?_, ?_⟩
    · rw [value]
      exact parsed
    · rw [value]
      refine OnGrid.finer ⟨digitsValue whole * 10 ^ frac.length + digitsValue frac, ?_⟩ short
      have unit := pow_pos_ten frac.length
      push_cast
      field_simp
    · rw [value]
      positivity

end Canonical
end XChainHub.Oracle
