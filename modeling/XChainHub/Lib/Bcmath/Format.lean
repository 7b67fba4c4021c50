import XChainHub.Oracle.CanonicalPrice

/-!
The fixed format of bcmath.js, and the number it reads back as.
-/
namespace XChainHub.Bcmath
open DecimalRounding DecimalText Oracle

def bcformat (q : ℚ) (decimals : ℕ) : String :=
  let digits := padLeft (decimals + 1) (Nat.toDigits 10 (halfUp (|q| * 10 ^ decimals)).toNat)
  let whole := digits.take (digits.length - decimals)
  let text := if decimals = 0 then whole else whole ++ '.' :: digits.drop (digits.length - decimals)
  String.ofList (if q < 0 then '-' :: text else text)

/-- A decimal of no more places than are written reads back as itself. -/
theorem format_value {q : ℚ} {decimals : ℕ} (nonneg : 0 ≤ q) (grid : OnGrid decimals q)
    (point : 0 < decimals) :
    parseFloat (bcformat q decimals) = some q ∧ bcnum (bcformat q decimals) = q := by
  obtain ⟨n, rfl⟩ := grid
  have unit := pow_pos_ten decimals
  have whole : (n : ℚ) / 10 ^ decimals * 10 ^ decimals = n := by field_simp
  have count : 0 ≤ n := by
    by_contra below
    have negative : (n : ℚ) < 0 := by exact_mod_cast not_le.mp below
    exact absurd nonneg (not_le.mpr (div_neg_of_neg_of_pos negative unit))
  obtain ⟨k, rfl⟩ := Int.eq_ofNat_of_zero_le count
  have units : (halfUp (|((k : ℤ) : ℚ) / 10 ^ decimals| * 10 ^ decimals)).toNat = k := by
    rw [abs_of_nonneg nonneg, whole, half_up_int]
    rfl
  have digit := pad_digits (decimals + 1) k
  have value := digits_value_pad (decimals + 1) k
  have long := le_length_pad (decimals + 1) (Nat.toDigits 10 k)
  obtain ⟨ds, same⟩ : ∃ ds, ds = padLeft (decimals + 1) (Nat.toDigits 10 k) := ⟨_, rfl⟩
  rw [← same] at digit value long
  have shape : (bcformat (((k : ℤ) : ℚ) / 10 ^ decimals) decimals).toList =
      ds.take (ds.length - decimals) ++ '.' :: ds.drop (ds.length - decimals) := by
    simp only [bcformat, units, ← same, not_lt.mpr nonneg, if_false, point.ne',
      String.toList_ofList]
  have kept : ds.take (ds.length - decimals) ≠ [] := by
    intro empty
    have lengths := congrArg List.length empty
    simp only [List.length_take, List.length_nil] at lengths
    omega
  have size : (ds.drop (ds.length - decimals)).length = decimals := by
    rw [List.length_drop]
    omega
  have parts := digits_value_append (ds.take (ds.length - decimals))
    (ds.drop (ds.length - decimals))
  rw [List.take_append_drop, value, size] at parts
  have read := point_value shape (fun c member => digit c (List.mem_of_mem_take member)) kept
    (fun c member => digit c (List.mem_of_mem_drop member))
  have back : (digitsValue (ds.take (ds.length - decimals)) : ℚ) +
      digitsValue (ds.drop (ds.length - decimals)) / 10 ^ decimals =
      ((k : ℤ) : ℚ) / 10 ^ decimals := by
    rw [parts]
    push_cast
    field_simp
  rw [size, back] at read
  exact read

end XChainHub.Bcmath
