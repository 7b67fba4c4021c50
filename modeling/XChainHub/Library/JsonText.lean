import XChainHub.Library.ScriptValue

/-!
JSON text of dynamic values: what JSON.stringify writes, and a reader of the JSON
grammar that takes it back. A number is written by its shortest decimal text, and
an object's fields are read in the order in which a script enumerates them.
-/
namespace JsonText
open NumberText ScriptValue DecimalText HexText

section Writing

/- JSON.stringify's escapes: short forms where there are any, four digits else. -/
def escapeChar (c : Char) : List Char :=
  if c = '"' then ['\\', '"']
  else if c = '\\' then ['\\', '\\']
  else if c.toNat = 8 then ['\\', 'b']
  else if c.toNat = 9 then ['\\', 't']
  else if c.toNat = 10 then ['\\', 'n']
  else if c.toNat = 12 then ['\\', 'f']
  else if c.toNat = 13 then ['\\', 'r']
  else if c.toNat < 32 then '\\' :: 'u' :: '0' :: '0' :: hexText [c.toNat]
  else [c]

def quote (s : String) : List Char := '"' :: (s.toList.flatMap escapeChar ++ ['"'])

def joinComma : List (List Char) → List Char
  | [] => []
  | [a] => a
  | a :: b :: rest => a ++ ',' :: joinComma (b :: rest)

def Defined : Value → Bool
  | .undefined => false
  | _ => true

mutual

def json : Value → List Char
  | .undefined => "null".toList
  | .null => "null".toList
  | .bool b => if b then "true".toList else "false".toList
  | .number n =>
    match n with
    | .zero => n.chars
    | .finite _ => n.chars
    | _ => "null".toList
  | .text s => quote s
  | .array items => '[' :: (joinComma (jsonItems items) ++ [']'])
  | .object fields => '{' :: (joinComma (jsonFields fields) ++ ['}'])

def jsonItems : List Value → List (List Char)
  | [] => []
  | v :: vs => json v :: jsonItems vs

/- A field without a value is not written. -/
def jsonFields : List (String × Value) → List (List Char)
  | [] => []
  | f :: fs => if Defined f.2 then jsonField f :: jsonFields fs else jsonFields fs

def jsonField : String × Value → List Char
  | (name, v) => quote name ++ ':' :: json v

end

def stringify (v : Value) : String := String.ofList (json v)

end Writing

section Reading

def isJsonSpace (c : Char) : Bool := c = ' ' || c = '\t' || c = '\n' || c = '\r'

def skip (cs : List Char) : List Char := cs.dropWhile isJsonSpace

def hexUnit (a b c d : Char) : Option ℕ :=
  if isHexDigit a && isHexDigit b && isHexDigit c && isHexDigit d then
    some (((hexValue a * 16 + hexValue b) * 16 + hexValue c) * 16 + hexValue d)
  else none

/- The character of a \u escape; two surrogate escapes stand for one character, and
   a surrogate alone for none. -/
def readUnit (unit : ℕ) (rest : List Char) : Option (Char × List Char) :=
  if unit < 0xD800 || 0xDFFF < unit then some (Char.ofNat unit, rest)
  else if unit < 0xDC00 then
    match rest with
    | '\\' :: 'u' :: a :: b :: c :: d :: more =>
      (hexUnit a b c d).bind (fun low =>
        if 0xDC00 ≤ low && low ≤ 0xDFFF then
          some (Char.ofNat (0x10000 + (unit - 0xD800) * 1024 + (low - 0xDC00)), more)
        else none)
    | _ => none
  else none

def readEscape : List Char → Option (Char × List Char)
  | 'u' :: a :: b :: c :: d :: rest => (hexUnit a b c d).bind (fun unit => readUnit unit rest)
  | '"' :: rest => some ('"', rest)
  | '\\' :: rest => some ('\\', rest)
  | '/' :: rest => some ('/', rest)
  | 'b' :: rest => some (Char.ofNat 8, rest)
  | 'f' :: rest => some (Char.ofNat 12, rest)
  | 'n' :: rest => some (Char.ofNat 10, rest)
  | 'r' :: rest => some (Char.ofNat 13, rest)
  | 't' :: rest => some (Char.ofNat 9, rest)
  | _ => none

/- The characters of a string up to its closing quote. -/
def readQuoted : ℕ → List Char → Option (List Char × List Char)
  | fuel + 1, c :: rest =>
    if c = '"' then some ([], rest)
    else if c = '\\' then
      (readEscape rest).bind (fun read =>
        (readQuoted fuel read.2).map (fun tail => (read.1 :: tail.1, tail.2)))
    else if c.toNat < 32 then none
    else (readQuoted fuel rest).map (fun tail => (c :: tail.1, tail.2))
  | _, _ => none

/- One run of digits and what follows it. -/
def digitRun (cs : List Char) : Option (List Char × List Char) :=
  if cs.takeWhile Char.isDigit = [] then none
  else some (cs.takeWhile Char.isDigit, cs.dropWhile Char.isDigit)

def scanWhole (cs : List Char) : Option (List Char × List Char) :=
  (digitRun cs).bind (fun run =>
    if run.1.head? = some '0' && run.1 ≠ ['0'] then none else some run)

def scanFraction : List Char → Option (List Char × List Char)
  | '.' :: cs => (digitRun cs).map (fun run => ('.' :: run.1, run.2))
  | cs => some ([], cs)

def scanSign : List Char → List Char × List Char
  | '+' :: cs => (['+'], cs)
  | '-' :: cs => (['-'], cs)
  | cs => ([], cs)

def scanExponent : List Char → Option (List Char × List Char)
  | c :: cs =>
    if c = 'e' || c = 'E' then
      (digitRun (scanSign cs).2).map (fun run => ('e' :: ((scanSign cs).1 ++ run.1), run.2))
    else some ([], c :: cs)
  | [] => some ([], [])

def scanUnsigned (cs : List Char) : Option (List Char × List Char) :=
  (scanWhole cs).bind (fun whole =>
    (scanFraction whole.2).bind (fun frac =>
      (scanExponent frac.2).map (fun exponent => (whole.1 ++ frac.1 ++ exponent.1, exponent.2))))

def scanNumber : List Char → Option (Number × List Char)
  | '-' :: cs => (scanUnsigned cs).map (fun read => (readNumber ('-' :: read.1), read.2))
  | cs => (scanUnsigned cs).map (fun read => (readNumber read.1, read.2))

def expect (word : List Char) (v : Value) (cs : List Char) : Option (Value × List Char) :=
  if word.isPrefixOf cs then some (v, cs.drop word.length) else none

/- The index that a field name is, if it is one: its canonical decimal text. -/
def arrayIndex (name : String) : Option ℕ :=
  let n := digitsValue name.toList
  if name.toList = Nat.toDigits 10 n ∧ n < 4294967295 then some n else none

/- Whether a field called name is enumerated after one called earlier. -/
def After (earlier name : String) : Bool :=
  match arrayIndex earlier, arrayIndex name with
  | some i, some j => i < j
  | some _, none => true
  | none, some _ => false
  | none, none => true

/- Setting a field keeps the place it has; a new one goes to its place in the order. -/
def insertField (fields : List (String × Value)) (f : String × Value) : List (String × Value) :=
  if fields.any (fun g => g.1 = f.1) then
    fields.map (fun g => if g.1 = f.1 then f else g)
  else
    fields.takeWhile (fun g => After g.1 f.1) ++ f :: fields.dropWhile (fun g => After g.1 f.1)

def objectOf (fields : List (String × Value)) : Value := .object (fields.foldl insertField [])

mutual

def readValue : ℕ → List Char → Option (Value × List Char)
  | 0, _ => none
  | fuel + 1, cs =>
    match skip cs with
    | [] => none
    | c :: rest =>
      if c = '"' then
        (readQuoted (fuel + 1) rest).map (fun read => (.text (String.ofList read.1), read.2))
      else if c = '[' then
        if (skip rest).head? = some ']' then some (.array [], (skip rest).drop 1)
        else (readItems fuel rest).map (fun read => (.array read.1, read.2))
      else if c = '{' then
        if (skip rest).head? = some '}' then some (.object [], (skip rest).drop 1)
        else (readFields fuel rest).map (fun read => (objectOf read.1, read.2))
      else if c = 'n' then expect "null".toList .null (c :: rest)
      else if c = 't' then expect "true".toList (.bool true) (c :: rest)
      else if c = 'f' then expect "false".toList (.bool false) (c :: rest)
      else (scanNumber (c :: rest)).map (fun read => (.number read.1, read.2))

def readItems : ℕ → List Char → Option (List Value × List Char)
  | 0, _ => none
  | fuel + 1, cs =>
    (readValue fuel cs).bind (fun item =>
      match skip item.2 with
      | c :: rest =>
        if c = ']' then some ([item.1], rest)
        else if c = ',' then (readItems fuel rest).map (fun more => (item.1 :: more.1, more.2))
        else none
      | [] => none)

def readFields : ℕ → List Char → Option (List (String × Value) × List Char)
  | 0, _ => none
  | fuel + 1, cs =>
    match skip cs with
    | '"' :: quoted =>
      (readQuoted (fuel + 1) quoted).bind (fun name =>
        match skip name.2 with
        | ':' :: after =>
          (readValue fuel after).bind (fun v =>
            match skip v.2 with
            | c :: rest =>
              if c = '}' then some ([(String.ofList name.1, v.1)], rest)
              else if c = ',' then
                (readFields fuel rest).map (fun more =>
                  ((String.ofList name.1, v.1) :: more.1, more.2))
              else none
            | [] => none)
        | _ => none)
    | _ => none

end

/- JSON.parse, none where it throws. -/
def parse (s : String) : Option Value :=
  match readValue (s.toList.length + 1) s.toList with
  | some (v, rest) => if skip rest = [] then some v else none
  | none => none

end Reading

section Strings

theorem read_low_unit : ∀ n < 32, ∀ rest, hexUnit '0' '0' (hexDigit (n / 16 % 16))
    (hexDigit (n % 16)) = some n ∧ readUnit n rest = some (Char.ofNat n, rest) := by
  intro n low rest
  constructor
  · revert n
    decide
  · unfold readUnit
    rw [if_pos (by simp; omega)]

theorem read_escaped (c : Char) (fuel : ℕ) (rest : List Char) :
    readQuoted (fuel + 1) (escapeChar c ++ rest) =
      (readQuoted fuel rest).map (fun tail => (c :: tail.1, tail.2)) := by
  have named : ∀ n, c.toNat = n → Char.ofNat n = c := by
    intro n same
    rw [← same, Char.ofNat_toNat]
  unfold escapeChar
  split
  · rename_i quote
    subst quote
    rfl
  · rename_i unquoted
    split
    · rename_i back
      subst back
      rfl
    · rename_i straight
      split
      · rename_i n
        rw [← named 8 n]
        rfl
      · split
        · rename_i n
          rw [← named 9 n]
          rfl
        · split
          · rename_i n
            rw [← named 10 n]
            rfl
          · split
            · rename_i n
              rw [← named 12 n]
              rfl
            · split
              · rename_i n
                rw [← named 13 n]
                rfl
              · split
                · rename_i low
                  obtain ⟨unit, char⟩ := read_low_unit c.toNat low rest
                  have cells : hexText [c.toNat] =
                      [hexDigit (c.toNat / 16 % 16), hexDigit (c.toNat % 16)] := rfl
                  rw [cells]
                  simp only [List.cons_append, List.nil_append, readQuoted, readEscape, unit, char,
                    Option.bind_some, Char.ofNat_toNat]
                  rfl
                · rename_i high
                  simp only [List.cons_append, List.nil_append, readQuoted, unquoted, straight,
                    high, if_false]

theorem read_characters (cs : List Char) (rest : List Char) {fuel : ℕ} (enough : cs.length < fuel) :
    readQuoted fuel (cs.flatMap escapeChar ++ '"' :: rest) = some (cs, rest) := by
  induction cs generalizing fuel with
  | nil =>
    obtain ⟨n, rfl⟩ : ∃ n, fuel = n + 1 := ⟨fuel - 1, by simp at enough; omega⟩
    rfl
  | cons c cs ih =>
    rw [List.length_cons] at enough
    obtain ⟨n, rfl⟩ : ∃ n, fuel = n + 1 := ⟨fuel - 1, by omega⟩
    rw [List.flatMap_cons, List.append_assoc, read_escaped, ih (by omega)]
    rfl

theorem escape_nonempty (c : Char) : 1 ≤ (escapeChar c).length := by
  unfold escapeChar
  repeat' split
  all_goals simp [List.length_cons]

theorem escaped_length (cs : List Char) : cs.length ≤ (cs.flatMap escapeChar).length := by
  induction cs with
  | nil => simp
  | cons c cs ih =>
    have here := escape_nonempty c
    rw [List.flatMap_cons, List.length_append, List.length_cons]
    omega

end Strings

section Numbers

/- What may follow a value in a text. -/
def Closes (rest : List Char) : Prop := rest = [] ∨ ∃ c tail, rest = c :: tail ∧ c ∈ [',', ']', '}']

/-- A run of digits in front of something else is read as the run. -/
theorem digit_run {digits rest : List Char} (plain : ∀ c ∈ digits, c.isDigit = true)
    (filled : digits ≠ []) (stops : ∀ c ∈ rest.head?, c.isDigit = false) :
    digitRun (digits ++ rest) = some (digits, rest) := by
  have none : rest.takeWhile Char.isDigit = [] ∧ rest.dropWhile Char.isDigit = rest := by
    cases rest with
    | nil => exact ⟨rfl, rfl⟩
    | cons c tail =>
      have other : ¬ c.isDigit = true := by
        rw [stops c rfl]
        exact Bool.false_ne_true
      exact ⟨List.takeWhile_cons_of_neg other, List.dropWhile_cons_of_neg other⟩
  rw [digitRun, List.takeWhile_append_of_pos plain, List.dropWhile_append_of_pos plain, none.1,
    none.2, List.append_nil, if_neg filled]

/- A part of a number's text that ends where no digit, point or exponent follows. -/
theorem scan_exponent_closed {rest : List Char} (closes : Closes rest) :
    scanExponent rest = some ([], rest) := by
  rcases closes with rfl | ⟨c, tail, rfl, mark⟩
  · rfl
  · simp only [List.mem_cons, List.not_mem_nil, or_false] at mark
    rcases mark with rfl | rfl | rfl <;> rfl

theorem scan_fraction_closed {rest : List Char} (closes : Closes rest) :
    scanFraction rest = some ([], rest) := by
  rcases closes with rfl | ⟨c, tail, rfl, mark⟩
  · rfl
  · simp only [List.mem_cons, List.not_mem_nil, or_false] at mark
    rcases mark with rfl | rfl | rfl <;> rfl

theorem closes_head {rest : List Char} (closes : Closes rest) :
    ∀ c ∈ rest.head?, c.isDigit = false := by
  intro c head
  rcases closes with rfl | ⟨d, tail, rfl, mark⟩
  · exact absurd head (by simp)
  · rw [List.head?_cons, Option.mem_some_iff] at head
    subst head
    simp only [List.mem_cons, List.not_mem_nil, or_false] at mark
    rcases mark with rfl | rfl | rfl <;> rfl

theorem scan_exponent_text (e : ℤ) {rest : List Char} (closes : Closes rest) :
    scanExponent ('e' :: exponentText e ++ rest) = some ('e' :: exponentText e, rest) := by
  have run : digitRun (Nat.toDigits 10 e.natAbs ++ rest) = some (Nat.toDigits 10 e.natAbs, rest) :=
    digit_run (to_digits_plain _) Nat.toDigits_ne_nil (closes_head closes)
  unfold exponentText
  split
  · simp only [List.cons_append, scanExponent, scanSign, run]
    rfl
  · simp only [List.cons_append, scanExponent, scanSign, run]
    rfl

end Numbers

section Magnitudes

theorem scan_unsigned_parts (whole frac exponent : List Char) {rest : List Char}
    (plain : ∀ c ∈ whole, c.isDigit = true) (filled : whole ≠ [])
    (leading : whole.head? ≠ some '0' ∨ whole = ['0'])
    (stops : ∀ c ∈ (frac ++ (exponent ++ rest)).head?, c.isDigit = false)
    (fraction : scanFraction (frac ++ (exponent ++ rest)) = some (frac, exponent ++ rest))
    (scaled : scanExponent (exponent ++ rest) = some (exponent, rest)) :
    scanUnsigned (whole ++ frac ++ exponent ++ rest) =
      some (whole ++ frac ++ exponent, rest) := by
  have first : scanWhole (whole ++ (frac ++ (exponent ++ rest))) =
      some (whole, frac ++ (exponent ++ rest)) := by
    rw [scanWhole, digit_run plain filled stops, Option.bind_some, if_neg]
    rw [Bool.and_eq_true, decide_eq_true_iff, decide_eq_true_iff]
    rintro ⟨zero, more⟩
    rcases leading with other | single
    · exact other zero
    · exact more single
  simp only [List.append_assoc, scanUnsigned, first, Option.bind_some, fraction, scaled,
    Option.map_some]

theorem point_head (rest : List Char) : ∀ c ∈ ('.' :: rest).head?, c.isDigit = false := by
  intro c first
  rw [List.head?_cons, Option.mem_some_iff] at first
  rw [← first]
  rfl

theorem fraction_text {digits rest : List Char} (plain : ∀ c ∈ digits, c.isDigit = true)
    (filled : digits ≠ []) (stops : ∀ c ∈ rest.head?, c.isDigit = false) :
    scanFraction ('.' :: digits ++ rest) = some ('.' :: digits, rest) := by
  rw [List.cons_append, scanFraction, digit_run plain filled stops]
  rfl

/-- A magnitude is scanned as far as it goes. -/
theorem scan_magnitude (d : Decimal) {rest : List Char} (closes : Closes rest) :
    scanUnsigned (d.magnitude ++ rest) = some (d.magnitude, rest) := by
  have zeros : ∀ n, ∀ c ∈ List.replicate n '0', c.isDigit = true := by
    intro n c member
    rw [List.eq_of_mem_replicate member]
    rfl
  have head : ∀ n, 0 < n → (d.digits.take n).head? = d.digits.head? := by
    intro n positive
    cases shape : d.digits with
    | nil => exact absurd shape d.filled
    | cons c tail =>
      obtain ⟨m, rfl⟩ : ∃ m, n = m + 1 := ⟨n - 1, by omega⟩
      rfl
  have front : ∀ n, ∀ c ∈ d.digits.take n, c.isDigit = true :=
    fun n c member => d.plain c (List.mem_of_mem_take member)
  have back : ∀ n, ∀ c ∈ d.digits.drop n, c.isDigit = true :=
    fun n c member => d.plain c (List.mem_of_mem_drop member)
  have front_filled : ∀ n, 0 < n → d.digits.take n ≠ [] := by
    intro n positive empty
    rw [List.take_eq_nil_iff] at empty
    rcases empty with none | none
    · omega
    · exact d.filled none
  have open_end := closes_head closes
  unfold Decimal.magnitude
  split
  · have whole := scan_unsigned_parts
      (d.digits ++ List.replicate (d.point.toNat - d.digits.length) '0') [] []
      (by
        intro c member
        rcases List.mem_append.mp member with digit | zero
        · exact d.plain c digit
        · exact zeros _ c zero)
      (by simp [d.filled])
      (Or.inl (by rw [List.head?_append_of_ne_nil _ d.filled]; exact d.leading))
      open_end (scan_fraction_closed closes) (scan_exponent_closed closes)
    simpa using whole
  · split
    · rename_i inside
      have places : 0 < d.point.toNat := by omega
      have parts := scan_unsigned_parts (d.digits.take d.point.toNat)
        ('.' :: d.digits.drop d.point.toNat) []
        (front _) (front_filled _ places) (Or.inl (by rw [head _ places]; exact d.leading))
        (point_head _)
        (by
          refine fraction_text (back _) ?_ open_end
          intro empty
          rw [List.drop_eq_nil_iff] at empty
          omega)
        (scan_exponent_closed closes)
      simpa using parts
    · split
      · rename_i inside
        have parts := scan_unsigned_parts ['0']
          ('.' :: (List.replicate (-d.point).toNat '0' ++ d.digits)) []
          (by simp) (by simp) (Or.inr rfl)
          (point_head _)
          (by
            refine fraction_text ?_ (by simp [d.filled]) open_end
            intro c member
            rcases List.mem_append.mp member with zero | digit
            · exact zeros _ c zero
            · exact d.plain c digit)
          (scan_exponent_closed closes)
        simpa using parts
      · have exponent := scan_exponent_text (d.point - 1) closes
        have mark : ∀ c ∈ ('e' :: exponentText (d.point - 1) ++ rest).head?, c.isDigit = false := by
          intro c first
          rw [List.cons_append, List.head?_cons, Option.mem_some_iff] at first
          rw [← first]
          rfl
        split
        · have parts := scan_unsigned_parts (d.digits.take 1) []
            ('e' :: exponentText (d.point - 1)) (front _) (front_filled _ (by omega))
            (Or.inl (by rw [head _ (by omega)]; exact d.leading))
            mark rfl exponent
          simpa using parts
        · rename_i several
          have parts := scan_unsigned_parts (d.digits.take 1) ('.' :: d.digits.drop 1)
            ('e' :: exponentText (d.point - 1)) (front _) (front_filled _ (by omega))
            (Or.inl (by rw [head _ (by omega)]; exact d.leading))
            (point_head _)
            (by
              refine fraction_text (back _) ?_ mark
              intro empty
              rw [List.drop_eq_nil_iff] at empty
              have some_digit := List.length_pos_iff.mpr d.filled
              omega)
            exponent
          simpa using parts

/- The numbers that JSON has. -/
def Finite : Number → Bool
  | .zero => true
  | .finite _ => true
  | _ => false

theorem magnitude_unsigned (d : Decimal) (rest : List Char) :
    ∃ c tail, d.magnitude ++ rest = c :: tail ∧ c.isDigit = true := by
  obtain ⟨c, tail, shape, digit⟩ := magnitude_digit d
  exact ⟨c, tail ++ rest, by rw [shape, List.cons_append], digit⟩

theorem scan_positive {cs : List Char} (positive : ∀ tail, cs ≠ '-' :: tail) :
    scanNumber cs = (scanUnsigned cs).map (fun read => (readNumber read.1, read.2)) := by
  unfold scanNumber
  split
  · exact absurd rfl (positive _)
  · rfl

theorem scan_number {n : Number} (finite : Finite n = true) {rest : List Char}
    (closes : Closes rest) : scanNumber (n.chars ++ rest) = some (n, rest) := by
  have value := read_chars n
  cases n with
  | nan => exact absurd finite (by decide)
  | infinite negative => exact absurd finite (by simp [Finite])
  | zero =>
    have scanned := scan_unsigned_parts ['0'] [] [] (by simp) (by simp) (Or.inr rfl)
      (closes_head closes)
      (scan_fraction_closed closes) (scan_exponent_closed closes)
    simp only [List.append_nil, List.cons_append, List.nil_append] at scanned
    rw [Number.chars, List.cons_append, List.nil_append, scan_positive (by simp), scanned]
    rfl
  | finite d =>
    have scanned := scan_magnitude d closes
    cases negative : d.negative with
    | true =>
      rw [Number.chars, negative, signText, if_pos rfl, List.singleton_append] at value ⊢
      rw [List.cons_append, scanNumber, scanned, Option.map_some, value]
    | false =>
      rw [Number.chars, negative, signText, if_neg (by decide), List.nil_append] at value ⊢
      obtain ⟨c, tail, shape, digit⟩ := magnitude_unsigned d rest
      rw [scan_positive, scanned, Option.map_some, value]
      rw [shape]
      intro more same
      rw [(List.cons.inj same).1] at digit
      exact absurd digit (by decide)

end Magnitudes

section Fields

/- Field names in the order in which an object enumerates them, without repetition. -/
def Enumerated (names : List String) : Prop :=
  names.Pairwise (fun earlier name => earlier ≠ name ∧ After earlier name = true)

instance (names : List String) : Decidable (Enumerated names) :=
  inferInstanceAs (Decidable (List.Pairwise _ _))

theorem insert_last {fields : List (String × Value)} {f : String × Value}
    (after : ∀ g ∈ fields, g.1 ≠ f.1 ∧ After g.1 f.1 = true) :
    insertField fields f = fields ++ [f] := by
  have fresh : fields.any (fun g => g.1 = f.1) = false := by
    rw [List.any_eq_false]
    intro g member same
    exact (after g member).1 (by simpa using same)
  have all : ∀ g ∈ fields, After g.1 f.1 = true := fun g member => (after g member).2
  rw [insertField, fresh, if_neg (by decide), List.takeWhile_eq_self_iff.mpr all,
    List.dropWhile_eq_nil_iff.mpr all]

theorem object_enumerated {fields : List (String × Value)}
    (ordered : Enumerated (fields.map Prod.fst)) : objectOf fields = .object fields := by
  have grown : ∀ front, Enumerated ((front ++ fields).map Prod.fst) →
      fields.foldl insertField front = front ++ fields := by
    clear ordered
    induction fields with
    | nil => intro front _; simp
    | cons f fields ih =>
      intro front ordered
      rw [List.foldl_cons, insert_last, ih, List.append_assoc, List.singleton_append]
      · rw [List.append_assoc, List.singleton_append]
        exact ordered
      · intro g member
        rw [Enumerated, List.map_append, List.map_cons, List.pairwise_append] at ordered
        exact ordered.2.2 g.1 (List.mem_map_of_mem member) f.1 List.mem_cons_self
  rw [objectOf, grown [] ordered, List.nil_append]

end Fields

section Values

mutual

/- Values that JSON has a text for: what its reader delivers. -/
def Plain : Value → Prop
  | .undefined => False
  | .null => True
  | .bool _ => True
  | .number n => Finite n = true
  | .text _ => True
  | .array items => PlainItems items
  | .object fields => Enumerated (fields.map Prod.fst) ∧ PlainFields fields

def PlainItems : List Value → Prop
  | [] => True
  | v :: vs => Plain v ∧ PlainItems vs

def PlainFields : List (String × Value) → Prop
  | [] => True
  | f :: fs => PlainField f ∧ PlainFields fs

def PlainField : String × Value → Prop
  | (_, v) => Plain v

end

mutual

def decidePlain : (v : Value) → Decidable (Plain v)
  | .undefined => inferInstanceAs (Decidable False)
  | .null => inferInstanceAs (Decidable True)
  | .bool _ => inferInstanceAs (Decidable True)
  | .number n => inferInstanceAs (Decidable (Finite n = true))
  | .text _ => inferInstanceAs (Decidable True)
  | .array items => decidePlainItems items
  | .object fields =>
    have := decidePlainFields fields
    inferInstanceAs (Decidable (Enumerated (fields.map Prod.fst) ∧ PlainFields fields))

def decidePlainItems : (vs : List Value) → Decidable (PlainItems vs)
  | [] => inferInstanceAs (Decidable True)
  | v :: vs =>
    have := decidePlain v
    have := decidePlainItems vs
    inferInstanceAs (Decidable (Plain v ∧ PlainItems vs))

def decidePlainFields : (fs : List (String × Value)) → Decidable (PlainFields fs)
  | [] => inferInstanceAs (Decidable True)
  | f :: fs =>
    have := decidePlainField f
    have := decidePlainFields fs
    inferInstanceAs (Decidable (PlainField f ∧ PlainFields fs))

def decidePlainField : (f : String × Value) → Decidable (PlainField f)
  | (_, v) => decidePlain v

end

instance : DecidablePred Plain := decidePlain

/- The first characters of values' texts. -/
theorem json_head {v : Value} (plain : Plain v) :
    ∃ c tail, json v = c :: tail ∧ isJsonSpace c = false ∧ c ∉ [',', ']', '}', ':'] := by
  cases v with
  | undefined => exact absurd plain (by simp [Plain])
  | null => exact ⟨'n', _, rfl, rfl, by decide⟩
  | bool b =>
    cases b with
    | true => exact ⟨'t', _, rfl, rfl, by decide⟩
    | false => exact ⟨'f', _, rfl, rfl, by decide⟩
  | number n =>
    have marks : ∀ c, c.isDigit = true ∨ c = '-' →
        isJsonSpace c = false ∧ c ∉ [',', ']', '}', ':'] := by
      intro c shape
      rcases shape with digit | rfl
      · have other : ∀ d : Char, d.isDigit = false → c ≠ d := by
          intro d no same
          rw [← same, digit] at no
          exact Bool.noConfusion no
        constructor
        · simp [isJsonSpace, other ' ' rfl, other '\t' rfl, other '\n' rfl, other '\r' rfl]
        · simp [other ',' rfl, other ']' rfl, other '}' rfl, other ':' rfl]
      · exact ⟨rfl, by decide⟩
    cases n with
    | nan => exact absurd plain (by simp [Plain, Finite])
    | infinite negative => exact absurd plain (by simp [Plain, Finite])
    | zero => exact ⟨'0', [], rfl, rfl, by decide⟩
    | finite d =>
      obtain ⟨c, tail, shape, digit⟩ := magnitude_digit d
      cases negative : d.negative with
      | true =>
        refine ⟨'-', d.magnitude, ?_, marks '-' (Or.inr rfl)⟩
        simp [json, Number.chars, negative, signText]
      | false =>
        refine ⟨c, tail, ?_, marks c (Or.inl digit)⟩
        simp [json, Number.chars, negative, signText, shape]
  | text s => exact ⟨'"', _, rfl, rfl, by decide⟩
  | array items => exact ⟨'[', _, rfl, rfl, by decide⟩
  | object fields => exact ⟨'{', _, rfl, rfl, by decide⟩

theorem skip_mark {c : Char} (mark : isJsonSpace c = false) (rest : List Char) :
    skip (c :: rest) = c :: rest :=
  List.dropWhile_cons_of_neg (by rw [mark]; exact Bool.false_ne_true)

theorem join_cons (a : List Char) {parts : List (List Char)} (more : parts ≠ []) :
    joinComma (a :: parts) = a ++ ',' :: joinComma parts := by
  cases parts with
  | nil => exact absurd rfl more
  | cons b parts => rfl

end Values

section RoundTrip

theorem closes_mark {c : Char} (mark : c ∈ [',', ']', '}']) (rest : List Char) :
    Closes (c :: rest) := Or.inr ⟨c, rest, rfl, mark⟩

theorem json_positive {v : Value} (plain : Plain v) : 1 ≤ (json v).length := by
  obtain ⟨c, tail, shape, -⟩ := json_head plain
  rw [shape, List.length_cons]
  omega

theorem quoted_text (s : String) (rest : List Char) (fuel : ℕ)
    (enough : (quote s).length ≤ fuel + 1) :
    readQuoted fuel (s.toList.flatMap escapeChar ++ '"' :: rest) = some (s.toList, rest) := by
  apply read_characters
  have long := escaped_length s.toList
  rw [quote, List.length_cons, List.length_append, List.length_singleton] at enough
  omega

theorem plain_defined {v : Value} (plain : Plain v) : Defined v = true := by
  cases v with
  | undefined => exact absurd plain (by simp [Plain])
  | _ => rfl

theorem json_fields_cons {f : String × Value} {fs : List (String × Value)}
    (plain : PlainFields (f :: fs)) : jsonFields (f :: fs) = jsonField f :: jsonFields fs := by
  obtain ⟨name, v⟩ := f
  rw [jsonFields, if_pos (plain_defined plain.1)]

/-- A word of the grammar is recognised in front of anything. -/
theorem expect_word (word : List Char) (v : Value) (rest : List Char) :
    expect word v (word ++ rest) = some (v, rest) := by
  rw [expect, if_pos (by simp), List.drop_left]

/-- The reader of values at a text that starts with a mark of its own. -/
theorem read_number_text {n : Number} (finite : Finite n = true) (fuel : ℕ) {rest : List Char}
    (closes : Closes rest) :
    readValue (fuel + 1) (n.chars ++ rest) = some (.number n, rest) := by
  obtain ⟨c, tail, shape, unspaced, -⟩ := json_head (v := .number n) (by simpa [Plain] using finite)
  have chars : json (.number n) = n.chars := by
    cases n with
    | zero => rfl
    | finite d => rfl
    | nan => exact absurd finite (by decide)
    | infinite negative => exact absurd finite (by simp [Finite])
  rw [chars] at shape
  have scanned := scan_number finite closes
  have letters : ∀ d ∈ ['"', '[', '{', 'n', 't', 'f'], c ≠ d := by
    intro d member same
    subst same
    rcases number_chars n c (by rw [shape]; exact List.mem_cons_self) with digit | letter
    · simp only [List.mem_cons, List.not_mem_nil, or_false] at member
      rcases member with rfl | rfl | rfl | rfl | rfl | rfl <;> exact absurd digit (by decide)
    · cases n with
      | nan => exact absurd finite (by decide)
      | infinite negative => exact absurd finite (by simp [Finite])
      | zero =>
        rw [Number.chars, List.cons.injEq] at shape
        rw [← shape.1] at member
        exact absurd member (by decide)
      | finite d =>
        obtain ⟨e, more, first, digit⟩ := magnitude_digit d
        cases negative : d.negative with
        | true =>
          simp only [Number.chars, negative, signText, if_true, List.singleton_append,
            List.cons.injEq] at shape
          rw [← shape.1] at member
          exact absurd member (by decide)
        | false =>
          simp only [Number.chars, negative, signText, Bool.false_eq_true, if_false,
            List.nil_append, first, List.cons.injEq] at shape
          rw [shape.1] at digit
          simp only [List.mem_cons, List.not_mem_nil, or_false] at member
          rcases member with rfl | rfl | rfl | rfl | rfl | rfl <;> exact absurd digit (by decide)
  rw [shape, List.cons_append] at scanned ⊢
  simp only [readValue, skip_mark unspaced, letters _ (List.mem_cons_self),
    letters '[' (by decide), letters '{' (by decide), letters 'n' (by decide),
    letters 't' (by decide), letters 'f' (by decide), if_false, scanned, Option.map_some]

mutual

/-- The reader takes exactly the text of a value off the front. -/
theorem read_json : ∀ (v : Value), Plain v → ∀ (fuel : ℕ) (rest : List Char),
    (json v).length ≤ fuel → Closes rest → readValue fuel (json v ++ rest) = some (v, rest)
  | .undefined, plain, _, _, _, _ => absurd plain (by simp [Plain])
  | .null, _, fuel, rest, enough, _ => by
    obtain ⟨n, rfl⟩ : ∃ n, fuel = n + 1 := ⟨fuel - 1, by simp [json] at enough; omega⟩
    exact expect_word "null".toList .null rest
  | .bool b, _, fuel, rest, enough, _ => by
    obtain ⟨n, rfl⟩ : ∃ n, fuel = n + 1 := ⟨fuel - 1, by
      have positive := json_positive (v := .bool b) (by simp [Plain])
      omega⟩
    cases b with
    | true => exact expect_word "true".toList (.bool true) rest
    | false => exact expect_word "false".toList (.bool false) rest
  | .number n, plain, fuel, rest, enough, closes => by
    have positive := json_positive plain
    obtain ⟨m, rfl⟩ : ∃ m, fuel = m + 1 := ⟨fuel - 1, by omega⟩
    simp only [Plain] at plain
    have text := read_number_text plain m closes
    cases n with
    | zero => exact text
    | finite d => exact text
    | nan => exact absurd plain (by decide)
    | infinite negative => exact absurd plain (by simp [Finite])
  | .text s, _, fuel, rest, enough, _ => by
    obtain ⟨n, rfl⟩ : ∃ n, fuel = n + 1 := ⟨fuel - 1, by simp [json, quote] at enough; omega⟩
    simp only [json] at enough ⊢
    have read := quoted_text s rest (n + 1) (by omega)
    rw [quote, List.cons_append, List.append_assoc, List.singleton_append]
    simp only [readValue, skip_mark (c := '"') rfl, if_true, read, Option.map_some,
      String.ofList_toList]
  | .array items, plain, fuel, rest, enough, _ => by
    simp only [json, List.length_cons, List.length_append, List.length_nil] at enough ⊢
    obtain ⟨n, rfl⟩ : ∃ n, fuel = n + 1 := ⟨fuel - 1, by omega⟩
    rw [List.cons_append, List.append_assoc, List.singleton_append]
    cases items with
    | nil => rfl
    | cons item items =>
      simp only [Plain] at plain
      have read := read_items (item :: items) (by simp) plain n rest (by omega)
      obtain ⟨c, tail, shape, unspaced, marks⟩ := json_head plain.1
      have first : ∃ more, joinComma (jsonItems (item :: items)) = c :: more := by
        cases items with
        | nil => exact ⟨tail, shape⟩
        | cons other items =>
          rw [jsonItems, join_cons _ (by simp [jsonItems]), shape]
          exact ⟨_, rfl⟩
      obtain ⟨more, start⟩ := first
      rw [start, List.cons_append] at read ⊢
      have other : ¬ c = ']' := fun same => marks (by rw [same]; decide)
      simp only [readValue, skip_mark (c := '[') rfl, skip_mark unspaced, List.head?_cons,
        Option.some.injEq, other, if_false, if_true, read, Option.map_some,
        show ¬ '[' = '"' by decide]
  | .object fields, plain, fuel, rest, enough, _ => by
    simp only [json, List.length_cons, List.length_append, List.length_nil] at enough ⊢
    obtain ⟨n, rfl⟩ : ∃ n, fuel = n + 1 := ⟨fuel - 1, by omega⟩
    rw [List.cons_append, List.append_assoc, List.singleton_append]
    simp only [Plain] at plain
    obtain ⟨ordered, plain⟩ := plain
    cases fields with
    | nil => rfl
    | cons f fields =>
      have read := read_fields (f :: fields) (by simp) plain n rest (by omega)
      have first : ∃ more, joinComma (jsonFields (f :: fields)) = '"' :: more := by
        obtain ⟨name, v⟩ := f
        rw [json_fields_cons plain]
        cases fields with
        | nil => exact ⟨_, rfl⟩
        | cons other fields =>
          rw [join_cons _ (by rw [json_fields_cons plain.2]; simp), jsonField, quote]
          exact ⟨_, rfl⟩
      obtain ⟨more, start⟩ := first
      rw [start, List.cons_append] at read ⊢
      simp only [readValue, skip_mark (c := '{') rfl, skip_mark (c := '"') rfl, List.head?_cons,
        Option.some.injEq, if_false, if_true, read, Option.map_some, object_enumerated ordered,
        show ¬ '{' = '"' by decide, show ¬ '{' = '[' by decide, show ¬ '"' = '}' by decide]

theorem read_items : ∀ (items : List Value), items ≠ [] → PlainItems items →
    ∀ (fuel : ℕ) (rest : List Char), (joinComma (jsonItems items)).length + 1 ≤ fuel →
      readItems fuel (joinComma (jsonItems items) ++ ']' :: rest) = some (items, rest)
  | [], filled, _, _, _, _ => absurd rfl filled
  | [item], _, plain, fuel, rest, enough => by
    obtain ⟨n, rfl⟩ : ∃ n, fuel = n + 1 := ⟨fuel - 1, by omega⟩
    have read := read_json item plain.1 n (']' :: rest)
      (by simp only [jsonItems, joinComma] at enough; omega) (closes_mark (by decide) rest)
    simp only [jsonItems, joinComma, readItems, read, Option.bind_some,
      skip_mark (c := ']') rfl, if_true]
  | item :: other :: items, _, plain, fuel, rest, enough => by
    obtain ⟨n, rfl⟩ : ∃ n, fuel = n + 1 := ⟨fuel - 1, by omega⟩
    rw [jsonItems, join_cons _ (by simp [jsonItems])] at enough ⊢
    rw [List.length_append, List.length_cons] at enough
    have positive := json_positive plain.1
    rw [List.append_assoc, List.cons_append]
    have read := read_json item plain.1 n
      (',' :: (joinComma (jsonItems (other :: items)) ++ ']' :: rest))
      (by omega) (closes_mark (by decide) _)
    have more := read_items (other :: items) (by simp) plain.2 n rest (by omega)
    simp only [readItems, read, Option.bind_some, skip_mark (c := ',') rfl, if_true, if_false, more,
      Option.map_some, show ¬ ',' = ']' by decide]

theorem read_fields : ∀ (fields : List (String × Value)), fields ≠ [] → PlainFields fields →
    ∀ (fuel : ℕ) (rest : List Char), (joinComma (jsonFields fields)).length + 1 ≤ fuel →
      readFields fuel (joinComma (jsonFields fields) ++ '}' :: rest) = some (fields, rest)
  | [], filled, _, _, _, _ => absurd rfl filled
  | [(name, v)], _, plain, fuel, rest, enough => by
    obtain ⟨n, rfl⟩ : ∃ n, fuel = n + 1 := ⟨fuel - 1, by omega⟩
    rw [json_fields_cons plain, jsonFields, joinComma, jsonField] at enough ⊢
    rw [List.length_append, List.length_cons] at enough
    have named := quoted_text name (':' :: (json v ++ '}' :: rest)) (n + 1) (by omega)
    have read := read_json v plain.1 n ('}' :: rest) (by omega) (closes_mark (by decide) rest)
    simp only [quote, List.append_assoc, List.cons_append, List.nil_append]
    simp only [readFields, skip_mark (c := '"') rfl, named, Option.bind_some,
      skip_mark (c := ':') rfl, read, skip_mark (c := '}') rfl, if_true, String.ofList_toList]
  | (name, v) :: other :: fields, _, plain, fuel, rest, enough => by
    obtain ⟨n, rfl⟩ : ∃ n, fuel = n + 1 := ⟨fuel - 1, by omega⟩
    have later : jsonFields (other :: fields) ≠ [] := by
      rw [json_fields_cons plain.2]
      simp
    rw [json_fields_cons plain, join_cons _ later, jsonField] at enough ⊢
    simp only [List.length_append, List.length_cons] at enough
    have named := quoted_text name
      (':' :: (json v ++ ',' :: (joinComma (jsonFields (other :: fields)) ++ '}' :: rest)))
      (n + 1) (by omega)
    have read := read_json v plain.1 n
      (',' :: (joinComma (jsonFields (other :: fields)) ++ '}' :: rest)) (by omega)
      (closes_mark (by decide) _)
    have more := read_fields (other :: fields) (by simp) plain.2 n rest (by omega)
    simp only [quote, List.append_assoc, List.cons_append, List.nil_append]
    simp only [readFields, skip_mark (c := '"') rfl, named, Option.bind_some,
      skip_mark (c := ':') rfl, read, skip_mark (c := ',') rfl, if_true, if_false, more,
      Option.map_some, String.ofList_toList, show ¬ ',' = '}' by decide]

end

/-- JSON.parse takes back what JSON.stringify wrote. -/
theorem parse_stringify {v : Value} (plain : Plain v) : parse (stringify v) = some v := by
  have read := read_json v plain ((json v).length + 1) [] (by omega) (Or.inl rfl)
  rw [List.append_nil] at read
  rw [parse, stringify, String.toList_ofList, read]
  rfl

theorem stringify_inj {v w : Value} (plain : Plain v) (other : Plain w)
    (same : stringify v = stringify w) : v = w := by
  have back := parse_stringify plain
  rw [same, parse_stringify other, Option.some.injEq] at back
  exact back.symm

end RoundTrip

end JsonText
