import XChainHub.Library.ScriptValue

/-!
The order < of dynamic values: two strings by their UTF-16 units, anything else by the
numbers it converts to.
-/
namespace ScriptValue
open NumberText

section Units

def units (c : Char) : List ℕ :=
  if c.toNat < 0x10000 then [c.toNat]
  else [0xD800 + (c.toNat - 0x10000) / 1024, 0xDC00 + (c.toNat - 0x10000) % 1024]

def codeUnits (s : String) : List ℕ := s.toList.flatMap units

def textLess (a b : String) : Bool := codeUnits a < codeUnits b

theorem char_range (c : Char) : c.toNat < 0xD800 ∨ 0xDFFF < c.toNat ∧ c.toNat < 0x110000 := c.valid

theorem char_of_nat {c d : Char} (same : c.toNat = d.toNat) : c = d := by
  rw [← Char.ofNat_toNat c, same, Char.ofNat_toNat]

theorem units_split (cs : List Char) : ∀ ds : List Char, cs.flatMap units = ds.flatMap units →
    cs = ds := by
  induction cs with
  | nil =>
    intro ds same
    cases ds with
    | nil => rfl
    | cons d ds =>
      rw [List.flatMap_nil, List.flatMap_cons, units] at same
      split at same <;> cases same
  | cons c cs ih =>
    intro ds same
    cases ds with
    | nil =>
      rw [List.flatMap_nil, List.flatMap_cons, units] at same
      split at same <;> cases same
    | cons d ds =>
      have c_range := char_range c
      have d_range := char_range d
      rw [List.flatMap_cons, List.flatMap_cons, units, units] at same
      by_cases low : c.toNat < 0x10000
      · by_cases low' : d.toNat < 0x10000
        · simp only [low, low', if_true, List.cons_append, List.nil_append, List.cons.injEq] at same
          rw [char_of_nat same.1, ih ds same.2]
        · simp only [low, low', if_true, if_false, List.cons_append, List.nil_append,
            List.cons.injEq] at same
          omega
      · by_cases low' : d.toNat < 0x10000
        · simp only [low, low', if_true, if_false, List.cons_append, List.nil_append,
            List.cons.injEq] at same
          omega
        · simp only [low, low', if_false, List.cons_append, List.nil_append,
            List.cons.injEq] at same
          have whole : c.toNat = d.toNat := by omega
          rw [char_of_nat whole, ih ds same.2.2]

theorem code_units_inj {a b : String} (same : codeUnits a = codeUnits b) : a = b :=
  String.toList_inj.mp (units_split a.toList b.toList same)

theorem text_order_antisymm {a b : String} (first : textLess a b = false)
    (second : textLess b a = false) : a = b := by
  apply code_units_inj
  apply le_antisymm
  · exact not_lt.mp (of_decide_eq_false second)
  · exact not_lt.mp (of_decide_eq_false first)

end Units

section Values

def numberLess : Number → Number → Bool
  | .nan, _ => false
  | _, .nan => false
  | _, .infinite true => false
  | .infinite true, _ => true
  | .infinite false, _ => false
  | _, .infinite false => true
  | a, b => a.rational.getD 0 < b.rational.getD 0

/- What an object or an array is compared as. -/
def Value.primitive : Value → Value
  | .array items => .text (Value.array items).asText
  | .object fields => .text (Value.object fields).asText
  | v => v

/- a < b. -/
def Value.less (js : Builtins) (a b : Value) : Bool :=
  match a.primitive, b.primitive with
  | .text s, .text t => textLess s t
  | v, w => numberLess (v.asNumber js) (w.asNumber js)

end Values
end ScriptValue
