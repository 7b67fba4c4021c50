import XChainHub.Library.HexText
import XChainHub.Library.NumberText

/-!
Dynamic values as parsed JSON delivers them, with the coercions String(v),
Number(v) and truthiness. Reading a number out of a string and the case mapping
of strings are the language's and stay abstract.
-/
namespace ScriptValue
open NumberText HexText

inductive Value where
  | undefined
  | null
  | bool (b : Bool)
  | number (n : Number)
  | text (s : String)
  | array (items : List Value)
  | object (fields : List (String × Value))

structure Builtins where
  readNumber : String → Number
  toLowerCase : String → String
  toUpperCase : String → String
  lower_twice : ∀ s, toLowerCase (toLowerCase s) = toLowerCase s
  lower_ascii : ∀ s, (∀ c ∈ s.toList, c.toNat < 128) → toLowerCase s = s.map Char.toLower
  lower_grows : ∀ s, s.toList.length ≤ (toLowerCase s).toList.length

/- v == null. -/
def Value.isNullish : Value → Bool
  | .undefined => true
  | .null => true
  | _ => false

def Value.isFalsy : Value → Bool
  | .undefined => true
  | .null => true
  | .bool b => !b
  | .number n => n = .nan || n = .zero
  | .text s => s.isEmpty
  | _ => false

def Value.isText : Value → Bool
  | .text _ => true
  | _ => false

mutual

def Value.asText : Value → String
  | .undefined => "undefined"
  | .null => "null"
  | .bool b => if b then "true" else "false"
  | .number n => n.text
  | .text s => s
  | .array items => String.intercalate "," (itemTexts items)
  | .object _ => "[object Object]"

/- Missing elements are empty in a joined array. -/
def itemTexts : List Value → List String
  | [] => []
  | item :: items => (if item.isNullish then "" else item.asText) :: itemTexts items

end

def Value.asNumber (js : Builtins) : Value → Number
  | .undefined => .nan
  | .null => .zero
  | .bool b => if b then Number.ofNat 1 else .zero
  | .number n => n
  | .text s => js.readNumber s
  | .array items => js.readNumber (Value.array items).asText
  | .object _ => .nan

/- v || other. -/
def Value.orElse (v other : Value) : Value := if v.isFalsy then other else v

/- v.name: the last of equal keys counts, and a value without the field has it undefined. -/
def Value.field (v : Value) (name : String) : Value :=
  match v with
  | .object fields =>
    match fields.reverse.find? (fun f => f.1 = name) with
    | some f => f.2
    | none => .undefined
  | _ => .undefined

/- Object.prototype.hasOwnProperty.call(v, name). -/
def Value.has (v : Value) (name : String) : Bool :=
  match v with
  | .object fields => fields.any (fun f => f.1 = name)
  | _ => false

/- The string that v is, if it is one. -/
def Value.textOf : Value → Option String
  | .text s => some s
  | _ => none

/- Number.isSafeInteger(v) for a v of zero or more. -/
def Value.safeNatural : Value → Option ℕ
  | .number n => n.natural.filter (· ≤ 9007199254740991)
  | _ => none

/- The digits behind a sign, in the base that their front announces. -/
def readInteger : List Char → Option ℕ
  | '0' :: 'x' :: cs => hexadecimal cs
  | '0' :: 'X' :: cs => hexadecimal cs
  | cs => if cs.takeWhile Char.isDigit = [] then none
    else some (DecimalText.digitsValue (cs.takeWhile Char.isDigit))
where
  hexadecimal (cs : List Char) : Option ℕ :=
    if cs.takeWhile isHexDigit = [] then none
    else some ((cs.takeWhile isHexDigit).foldl (fun n c => 16 * n + hexValue c) 0)

/- parseInt(s), none for NaN; what follows the number is not read. -/
def parseInt (s : String) : Option ℤ :=
  match s.toList.dropWhile DecimalText.isSpace with
  | '-' :: cs => (readInteger cs).map (fun n => -(n : ℤ))
  | '+' :: cs => (readInteger cs).map (fun n => (n : ℤ))
  | cs => (readInteger cs).map (fun n => (n : ℤ))

/- An optional number or text as a value. -/
def Value.ofOption {α : Type} (wrap : α → Value) : Option α → Value
  | some a => wrap a
  | none => .null

theorem is_upper_eq (c : Char) :
    c.isUpper = decide (c.val ≥ 'A'.val ∧ c.val ≤ 'Z'.val) := rfl

theorem lower_of_not_upper {c : Char} (lower : c.isUpper = false) : c.toLower = c := by
  delta Char.toLower
  exact dif_neg (by simpa [is_upper_eq] using lower)

theorem to_lower_not_upper (c : Char) : c.toLower.isUpper = false := by
  delta Char.toLower
  split
  · rename_i upper
    obtain ⟨low, high⟩ := upper
    have a : 'A'.val.toNat = 65 := by decide
    have z : 'Z'.val.toNat = 90 := by decide
    have gap : ('a'.val - 'A'.val).toNat = 32 := by decide
    rw [ge_iff_le, UInt32.le_iff_toNat_le] at low
    rw [UInt32.le_iff_toNat_le] at high
    simp only [is_upper_eq, decide_eq_false_iff_not, ge_iff_le, UInt32.le_iff_toNat_le,
      UInt32.toNat_add, gap]
    omega
  · rename_i other
    simpa [is_upper_eq] using other

/- The coercions on plain decimal text and ASCII letters. -/
def decimalBuiltins : Builtins where
  readNumber s :=
    if DecimalText.trim s.toList = [] then .zero else readNumber (DecimalText.trim s.toList)
  toLowerCase s := String.ofList (s.toList.map Char.toLower)
  toUpperCase s := String.ofList (s.toList.map Char.toUpper)
  lower_twice s := by
    rw [String.toList_ofList, List.map_map]
    congr 1
    apply List.map_congr_left
    intro c _
    exact lower_of_not_upper (to_lower_not_upper c)
  lower_ascii s _ := by
    rw [← String.toList_inj, String.toList_ofList, String.toList_map]
  lower_grows s := by
    rw [String.toList_ofList, List.length_map]

theorem lower_fixed (js : Builtins) {s : String}
    (plain : ∀ c ∈ s.toList, c.toNat < 128 ∧ c.isUpper = false) : js.toLowerCase s = s := by
  rw [js.lower_ascii s (fun c member => (plain c member).1), ← String.toList_inj,
    String.toList_map]
  conv_rhs => rw [← List.map_id s.toList]
  apply List.map_congr_left
  intro c member
  exact lower_of_not_upper (plain c member).2

section Equality

mutual

def Value.same : Value → Value → Bool
  | .undefined, .undefined => true
  | .null, .null => true
  | .bool a, .bool b => a = b
  | .number a, .number b => a = b
  | .text a, .text b => a = b
  | .array a, .array b => sameItems a b
  | .object a, .object b => sameFields a b
  | _, _ => false

def sameItems : List Value → List Value → Bool
  | [], [] => true
  | a :: as, b :: bs => a.same b && sameItems as bs
  | _, _ => false

def sameFields : List (String × Value) → List (String × Value) → Bool
  | [], [] => true
  | a :: as, b :: bs => sameField a b && sameFields as bs
  | _, _ => false

def sameField : String × Value → String × Value → Bool
  | (k, v), (l, w) => k = l && v.same w

end

mutual

theorem same_iff : ∀ (a b : Value), a.same b = true ↔ a = b
  | .undefined, b => by cases b <;> simp [Value.same]
  | .null, b => by cases b <;> simp [Value.same]
  | .bool a, b => by cases b <;> simp [Value.same]
  | .number a, b => by cases b <;> simp [Value.same]
  | .text a, b => by cases b <;> simp [Value.same]
  | .array a, b => by cases b <;> simp [Value.same, same_items_iff a]
  | .object a, b => by cases b <;> simp [Value.same, same_fields_iff a]

theorem same_items_iff : ∀ (as bs : List Value), sameItems as bs = true ↔ as = bs
  | [], bs => by cases bs <;> simp [sameItems]
  | a :: as, bs => by cases bs <;> simp [sameItems, same_iff a, same_items_iff as]

theorem same_fields_iff : ∀ (as bs : List (String × Value)), sameFields as bs = true ↔ as = bs
  | [], bs => by cases bs <;> simp [sameFields]
  | a :: as, bs => by cases bs <;> simp [sameFields, same_field_iff a, same_fields_iff as]

theorem same_field_iff : ∀ (a b : String × Value), sameField a b = true ↔ a = b
  | (k, v), (l, w) => by simp [sameField, same_iff v]

end

instance : DecidableEq Value := fun a b => decidable_of_iff _ (same_iff a b)

mutual

/- util.isDeepStrictEqual, for which the order of an object's fields does not count. -/
def Value.deepEqual : Value → Value → Bool
  | .undefined, .undefined => true
  | .null, .null => true
  | .bool a, .bool b => a = b
  | .number a, .number b => a = b
  | .text a, .text b => a = b
  | .array a, .array b => deepItems a b
  | .object a, .object b => a.length = b.length && deepFields a b
  | _, _ => false

def deepItems : List Value → List Value → Bool
  | [], [] => true
  | a :: as, b :: bs => a.deepEqual b && deepItems as bs
  | _, _ => false

def deepFields : List (String × Value) → List (String × Value) → Bool
  | [], _ => true
  | f :: fs, gs => deepField f gs && deepFields fs gs

def deepField : String × Value → List (String × Value) → Bool
  | (k, v), gs =>
    match gs.find? (fun g => g.1 = k) with
    | some g => v.deepEqual g.2
    | none => false

end

end Equality

section Hexadecimal
variable (js : Builtins)

theorem lower_hex_fixed {n : ℕ} {s : String} (hex : LowerHex n s) : js.toLowerCase s = s := by
  apply lower_fixed
  intro c member
  have range := lower_hex_range (hex.2 c member)
  have a : 'A'.val.toNat = 65 := by decide
  have z : 'Z'.val.toNat = 90 := by decide
  have same : c.val.toNat = c.toNat := rfl
  constructor
  · omega
  · simp only [is_upper_eq, decide_eq_false_iff_not, ge_iff_le, UInt32.le_iff_toNat_le]
    omega

theorem lower_of_hex {n : ℕ} {s : String} (sized : s.toList.length = n)
    (hex : ∀ c ∈ s.toList, isHexDigit c = true) : LowerHex n (js.toLowerCase s) := by
  rw [LowerHex, js.lower_ascii s (fun c member => hex_ascii (hex c member)), String.toList_map,
    List.length_map]
  refine ⟨sized, ?_⟩
  intro c member
  obtain ⟨d, within, rfl⟩ := List.mem_map.mp member
  exact hex_to_lower (hex d within)

end Hexadecimal

end ScriptValue
