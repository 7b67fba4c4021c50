import Mathlib.Data.List.Sort
import Mathlib.Data.String.Basic
import XChainHub.Library.DecimalText

/-!
The signed admission map: consensus/gates/mirror_admission_gate.js and the row
readers of lib/admission_height.js. A function that throws returns none.
-/
namespace XChainHub.MirrorAdmissionGate
open DecimalText

/- A height as a row or a message carries it. -/
inductive AdmitHeight where
  | number (value : ℚ)
  | text (spelling : String)
  | unusable
  deriving DecidableEq

abbrev AdmissionMap := List (String × AdmitHeight)

/- The stored columns, in the order of ADMIT_COLUMN_CHAINS; null is none. -/
structure AdmitColumns where
  btc : Option AdmitHeight
  ltc : Option AdmitHeight
  doge : Option AdmitHeight
  deriving DecidableEq

def maxSafeInteger : ℤ := 2 ^ 53 - 1

def isSafeInteger (q : ℚ) : Bool := q.den = 1 && q.num.natAbs ≤ maxSafeInteger.toNat

def isChainCode (code : String) : Bool :=
  1 ≤ code.length && code.length ≤ 10 && code.toList.all (fun c => c.isUpper || c.isDigit)

def isCanonicalHeight (s : String) : Bool :=
  match s.toList with
  | [] => false
  | '0' :: rest => rest.isEmpty
  | c :: rest => c.isDigit && rest.all Char.isDigit

def heightSpelling : AdmitHeight → Option String
  | .number q => if isSafeInteger q then some (toString q.num) else none
  | .text s => some s
  | .unusable => none

def encodeEntry (entry : String × AdmitHeight) : Option String :=
  if !isChainCode entry.1 then none
  else
    match heightSpelling entry.2 with
    | none => none
    | some s => if isCanonicalHeight s then some (entry.1 ++ ":" ++ s) else none

def encodeAdmitBlocks (map : AdmissionMap) : Option String :=
  if map.isEmpty then none
  else ((map.insertionSort (fun a b => a.1 ≤ b.1)).mapM encodeEntry).map (String.intercalate ",")

/- Number(v) of a stored column. -/
def columnNumber : AdmitHeight → Option ℚ
  | .number q => some q
  | .text s => signedValue (trim s.toList)
  | .unusable => none

def readColumn (code : String) (column : Option AdmitHeight) (map : Option AdmissionMap) :
    Option (Option AdmissionMap) :=
  match column with
  | none => some map
  | some v =>
    match columnNumber v with
    | none => none
    | some h =>
      if isSafeInteger h && 0 ≤ h then some (some (map.getD [] ++ [(code, .number h)])) else none

def columnsAdmitBlocks (columns : AdmitColumns) : Option (Option AdmissionMap) :=
  (readColumn "BTC" columns.btc none).bind (fun map =>
    (readColumn "LTC" columns.ltc map).bind (readColumn "DOGE" columns.doge))

/- A row that carries both shapes must spell the same bytes in both. -/
def rowAdmitBlocks (columns : AdmitColumns) (inMemory : Option AdmissionMap) :
    Option (Option AdmissionMap) :=
  match columnsAdmitBlocks columns, inMemory with
  | none, _ => none
  | some fromCols, none => some fromCols
  | some none, some map => some (some map)
  | some (some cols), some map =>
    match encodeAdmitBlocks map, encodeAdmitBlocks cols with
    | some spelled, some stored => if spelled = stored then some (some map) else none
    | _, _ => none

def admissionCanonicalField (era : Bool) (map : Option AdmissionMap) : Option String :=
  if !era then some ""
  else
    match map with
    | none => some ""
    | some m => (encodeAdmitBlocks m).map (fun s => "|" ++ s)

end XChainHub.MirrorAdmissionGate
