import XChainHub.Library.DecimalText

/-!
Integer spellings of wire fields, lib/canonical_int.js, over the values a JSON
field can hold. Numbers are exact; a number that is no safe integer is refused.
-/
namespace XChainHub.CanonicalInt
open DecimalText

/- other is any value that is neither null, a number nor a string. -/
inductive Scalar where
  | null
  | number (q : ℚ)
  | text (s : String)
  | other
  deriving DecidableEq

def maxSafeInteger : ℕ := 2 ^ 53 - 1

abbrev SafeNat := { n : ℕ // n ≤ maxSafeInteger }

def isSafeInteger (q : ℚ) : Bool := q.den = 1 && q.num.natAbs ≤ maxSafeInteger

/- [0-9]+ without a leading zero before another digit. -/
def canonicalDigits : List Char → Bool
  | [] => false
  | ['0'] => true
  | '0' :: _ => false
  | cs => cs.all Char.isDigit

def isCanonicalInt : Scalar → Bool
  | .number q => isSafeInteger q
  | .text s =>
    match s.toList with
    | '-' :: cs => canonicalDigits cs && cs != ['0']
    | cs => canonicalDigits cs
  | _ => false

/- Number(v), none where that is NaN or infinite. -/
def Scalar.toNumber : Scalar → Option ℚ
  | .null => some 0
  | .number q => some q
  | .text s => if trim s.toList = [] then some 0 else signedValue (trim s.toList)
  | .other => none

theorem safe_nat_canonical (n : SafeNat) : isCanonicalInt (.number n.val) = true := by
  simp [isCanonicalInt, isSafeInteger, n.property]

end XChainHub.CanonicalInt
