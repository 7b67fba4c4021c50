import XChainHub.CrossChain.Snapshots.Policy

/-!
What the preimages of a policy hash, of a list's members hash and of its metadata hash say of
their inputs. Members are joined at bars and may hold bars themselves; metadata may not.
-/
namespace XChainHub.CrossChain.Membership
open DecimalText DelimitedText HexText JsonText Policy ScriptValue
open ListShare (Sha256 isCanonicalOrder listMembersHash listMetaHash isValidListMetaField
  allowedChains hasValidListMeta)

section Cells

/- The cells of joined fields. -/
abbrev fieldCells (fields : List String) : List Cell := fields.flatMap barCells

theorem bar_cells_inj {a b : String} (same : barCells a = barCells b) : a = b := by
  apply String.toList_inj.mp
  have first : ['|'].intercalate (barCells a) = a.toList := List.intercalate_splitOn '|'
  have second : ['|'].intercalate (barCells b) = b.toList := List.intercalate_splitOn '|'
  rw [← first, ← second, same]

/-- Two joins are one text just when their fields run through the same cells. -/
theorem join_eq_iff {few many : List String} (filled : few ≠ []) (others : many ≠ []) :
    String.intercalate "|" few = String.intercalate "|" many ↔ fieldCells few = fieldCells many := by
  constructor
  · intro same
    have cells := congrArg barCells same
    rwa [bar_cells_join filled, bar_cells_join others] at cells
  · intro same
    apply bar_cells_inj
    rw [bar_cells_join filled, bar_cells_join others]
    exact same

/- Texts that hold no bar. -/
def Plain (fields : List String) : Prop := ∀ f ∈ fields, '|' ∉ f.toList

theorem plain_cells {fields : List String} (plain : Plain fields) :
    fieldCells fields = fields.map String.toList := by
  induction fields with
  | nil => rfl
  | cons field rest ih =>
    have later := ih (fun f member => plain f (List.mem_cons_of_mem field member))
    rw [fieldCells, List.flatMap_cons, bar_cells_plain (plain field List.mem_cons_self),
      List.singleton_append, List.map_cons, ← later]

theorem plain_fields_inj {few many : List String} (plain : Plain few) (others : Plain many)
    (same : fieldCells few = fieldCells many) : few = many := by
  rw [plain_cells plain, plain_cells others] at same
  exact List.map_injective_iff.mpr (fun a b => String.toList_inj.mp) same

theorem natural_text (n : ℕ) : (toString n).toList = Nat.toDigits 10 n := Nat.toList_repr

theorem natural_digits (n : ℕ) : ∀ c ∈ (toString n).toList, c.isDigit = true := by
  rw [natural_text]
  exact fun c member => Nat.isDigit_of_mem_toDigits (by decide) (by decide) member

theorem natural_plain (n : ℕ) : '|' ∉ (toString n).toList := by
  intro bar
  have digit := natural_digits n '|' bar
  cases digit

theorem natural_inj {m n : ℕ} (same : toString m = toString n) : m = n := by
  rw [← digits_value_to_digits m, ← digits_value_to_digits n, ← natural_text, ← natural_text, same]

theorem natural_not_word {n : ℕ} {word : String} (letter : ∃ c ∈ word.toList, c.isDigit = false) :
    toString n ≠ word := by
  rintro rfl
  obtain ⟨c, member, other⟩ := letter
  rw [natural_digits n c member] at other
  cases other

end Cells

section Lists

/- The text under a members hash. -/
def membersFields (members : List String) : List String :=
  "MEMBERS" :: toString members.length :: members

def membersPreimage (members : List String) : String := String.intercalate "|" (membersFields members)

theorem members_cells (members : List String) :
    fieldCells (membersFields members) =
      "MEMBERS".toList :: (toString members.length).toList :: fieldCells members := by
  have label : barCells "MEMBERS" = ["MEMBERS".toList] := bar_cells_plain (by decide)
  have count := bar_cells_plain (natural_plain members.length)
  rw [fieldCells, membersFields, List.flatMap_cons, List.flatMap_cons, label, count]
  rfl

/-- Two lists have one preimage just when they are as long and run through the same cells. -/
theorem members_preimage_iff (few many : List String) :
    membersPreimage few = membersPreimage many ↔
      few.length = many.length ∧ fieldCells few = fieldCells many := by
  rw [membersPreimage, membersPreimage, join_eq_iff (by simp [membersFields])
    (by simp [membersFields]), members_cells, members_cells]
  constructor
  · intro same
    obtain ⟨count, cells⟩ := List.cons.inj (List.cons.inj same).2
    exact ⟨natural_inj (String.toList_inj.mp count), cells⟩
  · rintro ⟨count, cells⟩
    rw [count, cells]

/- Another list that is as long and runs through the same cells. -/
def ListClash (few many : List String) : Prop :=
  few ≠ many ∧ few.length = many.length ∧ fieldCells few = fieldCells many

theorem members_bind_iff (few many : List String) :
    (membersPreimage few = membersPreimage many → few = many) ↔ ¬ ListClash few many := by
  rw [members_preimage_iff]
  constructor
  · rintro binds ⟨other, same⟩
    exact other (binds same)
  · intro apart same
    by_contra other
    exact apart ⟨other, same⟩

theorem plain_lists_apart {few many : List String} (plain : Plain few) (others : Plain many) :
    ¬ ListClash few many := by
  rintro ⟨other, _, cells⟩
  exact other (plain_fields_inj plain others cells)

end Lists

section Policies

/- The text under a policy hash, in fields. -/
def policyFields (allow block : Side) (sleeping : Bool) : List String :=
  allow.hashPart "ALLOW" ++ block.hashPart "BLOCK" ++ ["SLEEP", if sleeping then "1" else "0"]

theorem policy_hash_preimage (allow block : Side) (sleeping : Bool) :
    policyHashText allow block sleeping = String.intercalate "|" (policyFields allow block sleeping) :=
  rfl

theorem policy_fields_filled (allow block : Side) (sleeping : Bool) :
    policyFields allow block sleeping ≠ [] := by
  simp [policyFields]

/- What a shaped policy says. -/
def content (p : Shaped) : Side × Side × Bool := (p.allow, p.block, p.sleeping)

def hashText (p : Shaped) : String := policyHashText p.allow p.block p.sleeping

def policyCells (p : Shaped) : List Cell := fieldCells (policyFields p.allow p.block p.sleeping)

def PolicyClash (p q : Shaped) : Prop := content p ≠ content q ∧ policyCells p = policyCells q

theorem policy_binds_iff (p q : Shaped) :
    (hashText p = hashText q → content p = content q) ↔ ¬ PolicyClash p q := by
  rw [hashText, hashText, policy_hash_preimage, policy_hash_preimage,
    join_eq_iff (policy_fields_filled _ _ _) (policy_fields_filled _ _ _)]
  constructor
  · rintro binds ⟨other, same⟩
    exact other (binds same)
  · intro apart same
    by_contra other
    exact apart ⟨other, same⟩

/- A side whose texts hold no bar. -/
def PlainSide : Side → Prop
  | .absent => True
  | .members ms => Plain ms
  | .ref list => '|' ∉ list.toList

theorem plain_hash_part {side : Side} {label : String} (plain : PlainSide side)
    (name : '|' ∉ label.toList) : Plain (side.hashPart label) := by
  intro f member
  cases side with
  | absent =>
    rcases List.mem_cons.mp member with rfl | second
    · exact name
    · obtain rfl := List.mem_singleton.mp second
      decide
  | members ms =>
    rcases List.mem_cons.mp member with rfl | rest
    · exact name
    · rcases List.mem_cons.mp rest with rfl | inside
      · exact natural_plain ms.length
      · exact plain f inside
  | ref list =>
    rcases List.mem_cons.mp member with rfl | rest
    · exact name
    · rcases List.mem_cons.mp rest with rfl | last
      · decide
      · obtain rfl := List.mem_singleton.mp last
        exact plain

/-- The fields of a side in front of more fields name the side. -/
theorem hash_part_inj {a b : Side} {label : String} {x y : List String}
    (same : a.hashPart label ++ x = b.hashPart label ++ y) : a = b ∧ x = y := by
  have dash (n : ℕ) : toString n ≠ "-" := natural_not_word ⟨'-', by decide, rfl⟩
  have ref (n : ℕ) : toString n ≠ "REF" := natural_not_word ⟨'R', by decide, rfl⟩
  cases a with
  | absent =>
    cases b with
    | absent => exact ⟨rfl, (List.append_right_inj _).mp same⟩
    | members ms => exact absurd (List.cons.inj (List.cons.inj same).2).1.symm (dash ms.length)
    | ref list => exact absurd (List.cons.inj (List.cons.inj same).2).1 (by decide)
  | members ms =>
    cases b with
    | absent => exact absurd (List.cons.inj (List.cons.inj same).2).1 (dash ms.length)
    | members ns =>
      obtain ⟨count, rest⟩ := List.cons.inj (List.cons.inj same).2
      obtain ⟨rfl, tails⟩ := List.append_inj rest (natural_inj count)
      exact ⟨rfl, tails⟩
    | ref list => exact absurd (List.cons.inj (List.cons.inj same).2).1 (ref ms.length)
  | ref list =>
    cases b with
    | absent => exact absurd (List.cons.inj (List.cons.inj same).2).1 (by decide)
    | members ms => exact absurd (List.cons.inj (List.cons.inj same).2).1.symm (ref ms.length)
    | ref other =>
      obtain ⟨name, rest⟩ := List.cons.inj (List.cons.inj (List.cons.inj same).2).2
      rw [name]
      exact ⟨rfl, rest⟩

theorem plain_policies_apart {p q : Shaped} (allow : PlainSide p.allow) (block : PlainSide p.block)
    (allow' : PlainSide q.allow) (block' : PlainSide q.block) : ¬ PolicyClash p q := by
  rintro ⟨other, cells⟩
  have plain {p : Shaped} (allow : PlainSide p.allow) (block : PlainSide p.block) :
      Plain (policyFields p.allow p.block p.sleeping) := by
    intro f member
    rcases List.mem_append.mp member with sides | sleep
    · rcases List.mem_append.mp sides with first | second
      · exact plain_hash_part allow (by decide) f first
      · exact plain_hash_part block (by decide) f second
    · rcases List.mem_cons.mp sleep with rfl | flag
      · decide
      · obtain rfl := List.mem_singleton.mp flag
        cases p.sleeping <;> decide
  have fields := plain_fields_inj (plain allow block) (plain allow' block') cells
  rw [policyFields, policyFields, List.append_assoc, List.append_assoc] at fields
  obtain ⟨first, rest⟩ := hash_part_inj fields
  obtain ⟨second, flags⟩ := hash_part_inj rest
  have third : p.sleeping = q.sleeping := by
    revert flags
    cases p.sleeping <;> cases q.sleeping <;> decide
  exact other (by rw [content, content, first, second, third])

/-- A list reference holds no bar. -/
theorem list_ref_plain {s : String} (isRef : isListRef s = true) : '|' ∉ s.toList := by
  unfold isListRef at isRef
  split at isRef
  · rename_i chain digit digits shape
    simp only [Bool.and_eq_true, List.all_eq_true] at isRef
    have back : [':'].intercalate (s.toList.splitOn ':') = s.toList := List.intercalate_splitOn ':'
    rw [shape] at back
    have text : chain ++ ':' :: digit :: digits = s.toList := by simpa using back
    rw [← text, List.mem_append, List.mem_cons, List.mem_cons]
    rintro (front | colon | first | later)
    · have upper := isRef.1.1.1.1.1.2 '|' front
      cases upper
    · cases colon
    · have number := isRef.1.1.1.1.2
      rw [← first] at number
      cases number
    · have number := isRef.1.1.2 '|' later
      cases number
  · cases isRef

theorem shape_side_ref {refsAllowed : Bool} {members ref : Value} {list : String}
    (shaped : shapeSide refsAllowed members ref = some (.ref list)) :
    isListRef list = true ∧ refsAllowed = true := by
  unfold shapeSide at shaped
  split at shaped
  · cases shaped
  · cases shaped
  · cases shaped
  · split at shaped
    · rename_i sound
      rw [Bool.and_eq_true] at sound
      obtain rfl := Side.ref.inj (Option.some.inj shaped)
      exact sound
    · cases shaped
  · cases shaped

theorem shaped_sides {refsAllowed : Bool} {policy : Answer} {p : Shaped}
    (shaped : shapePolicy refsAllowed policy = some p) :
    shapeSide refsAllowed policy.allowList policy.allowListRef = some p.allow ∧
      shapeSide refsAllowed policy.blockList policy.blockListRef = some p.block := by
  unfold shapePolicy at shaped
  split at shaped
  · rename_i allow block first second
    split at shaped
    · obtain rfl := Option.some.inj shaped
      exact ⟨first, second⟩
    · cases shaped
  · cases shaped

/- The members of a side, none of a reference. -/
def sideMembers : Side → List String
  | .members ms => ms
  | _ => []

theorem plain_shaped_side {refsAllowed : Bool} {members ref : Value} {side : Side}
    (shaped : shapeSide refsAllowed members ref = some side) (plain : Plain (sideMembers side)) :
    PlainSide side := by
  cases side with
  | absent => trivial
  | members ms => exact plain
  | ref list => exact list_ref_plain (shape_side_ref shaped).1

theorem texts_read (ms : List String) : (ms.map Value.text).map Value.asText = ms := by
  induction ms with
  | nil => rfl
  | cons m rest ih =>
    rw [List.map_cons, List.map_cons, ih]
    rfl

/-- What a side's column holds is read back as the side. -/
theorem column_read_back {refsAllowed : Bool} {members ref : Value} {side : Side}
    (shaped : shapeSide refsAllowed members ref = some side) :
    parsePolicyColumn (policyColumnText side) refsAllowed = some side := by
  cases side with
  | absent => rfl
  | members ms =>
    have plain : JsonText.Plain (.array (ms.map Value.text)) := ListShare.plain_texts ms
    simp only [policyColumnText, parsePolicyColumn, parse_stringify plain, texts_read]
  | ref list =>
    obtain ⟨isRef, allowed⟩ := shape_side_ref shaped
    have plain : JsonText.Plain (.text list) := trivial
    simp only [policyColumnText, parsePolicyColumn, parse_stringify plain, isRef, allowed,
      Bool.and_self, if_true]

end Policies

section Meta

/- The text under a metadata hash. -/
def metaPreimage (name description : Option String) : String :=
  String.intercalate "|" ["LISTMETA", name.getD "", description.getD ""]

theorem valid_field {value : Option String} {maxBytes : ℕ}
    (valid : isValidListMetaField value maxBytes = true) :
    value ≠ some "" ∧ '|' ∉ (value.getD "").toList := by
  cases value with
  | none =>
    constructor
    · simp
    · decide
  | some s =>
    simp only [isValidListMetaField, Option.all_some, Bool.and_eq_true, Bool.not_eq_true',
      decide_eq_true_eq, decide_eq_false_iff_not] at valid
    constructor
    · intro empty
      exact valid.1.1.1.1.1 (Option.some.inj empty)
    · exact valid.1.1.1.1.2

theorem valid_field_inj {a b : Option String} (first : a ≠ some "") (second : b ≠ some "")
    (same : a.getD "" = b.getD "") : a = b := by
  cases a with
  | none =>
    cases b with
    | none => rfl
    | some t => exact absurd (congrArg some same.symm) second
  | some s =>
    cases b with
    | none => exact absurd (congrArg some same) first
    | some t => exact congrArg some same

/-- Valid metadata with one preimage is one pair. -/
theorem meta_preimage_inj {name name' description description' : Option String}
    (valid : isValidListMetaField name 64 = true) (valid' : isValidListMetaField name' 64 = true)
    (text : isValidListMetaField description 512 = true)
    (text' : isValidListMetaField description' 512 = true)
    (same : metaPreimage name description = metaPreimage name' description') :
    name = name' ∧ description = description' := by
  obtain ⟨filled, plain⟩ := valid_field valid
  obtain ⟨filled', plain'⟩ := valid_field valid'
  obtain ⟨some_text, bare⟩ := valid_field text
  obtain ⟨some_text', bare'⟩ := valid_field text'
  have fields {a b : Option String} (one : '|' ∉ (a.getD "").toList) (two : '|' ∉ (b.getD "").toList) :
      Plain ["LISTMETA", a.getD "", b.getD ""] := by
    intro f member
    rcases List.mem_cons.mp member with rfl | rest
    · decide
    · rcases List.mem_cons.mp rest with rfl | last
      · exact one
      · obtain rfl := List.mem_singleton.mp last
        exact two
  rw [metaPreimage, metaPreimage, join_eq_iff (by simp) (by simp)] at same
  have texts := plain_fields_inj (fields plain bare) (fields plain' bare') same
  simp only [List.cons.injEq, true_and, and_true] at texts
  exact ⟨valid_field_inj filled filled' texts.1, valid_field_inj some_text some_text' texts.2⟩

/-- Where SHA-256 does not collide on the two texts, one metadata hash is one pair. -/
theorem meta_hash_binds {sha256 : Sha256} {name name' description description' : Option String}
    (valid : isValidListMetaField name 64 = true) (valid' : isValidListMetaField name' 64 = true)
    (text : isValidListMetaField description 512 = true)
    (text' : isValidListMetaField description' 512 = true)
    (collisionFree : sha256 (metaPreimage name description) =
      sha256 (metaPreimage name' description') →
      metaPreimage name description = metaPreimage name' description')
    (same : listMetaHash sha256 name description = listMetaHash sha256 name' description') :
    name = name' ∧ description = description' := by
  have digest_filled (t : String) : (sha256 t).val ≠ "" := by
    intro empty
    have size := (sha256 t).property.1
    rw [empty] at size
    cases size
  unfold listMetaHash at same
  split at same
  · rename_i none_first
    rw [Bool.and_eq_true, Option.isNone_iff_eq_none, Option.isNone_iff_eq_none] at none_first
    split at same
    · rename_i none_second
      rw [Bool.and_eq_true, Option.isNone_iff_eq_none, Option.isNone_iff_eq_none] at none_second
      exact ⟨none_first.1.trans none_second.1.symm, none_first.2.trans none_second.2.symm⟩
    · exact absurd same.symm (digest_filled _)
  · split at same
    · exact absurd same (digest_filled _)
    · exact meta_preimage_inj valid valid' text text' (collisionFree (Subtype.ext same))

end Meta

section Samples

def allowing (members : List String) : Answer :=
  ⟨.array (members.map Value.text), .null, .null, .null, false, ""⟩

def allowed (members : List String) : Shaped := ⟨.members members, .absent, false, false⟩

theorem allowing_shaped {members : List String} (ordered : isCanonicalOrder members = true)
    (few : members.length ≤ 10000) (refsAllowed : Bool) :
    shapePolicy refsAllowed (allowing members) = some (allowed members) := by
  have fits : ¬ xpolicyMaxMembers < members.length := not_lt.mpr few
  have allow : shapeSide refsAllowed (.array (members.map Value.text)) .null =
      some (.members members) := by
    show some (Side.members ((members.map Value.text).map Value.asText)) = _
    rw [texts_read]
  have block : shapeSide refsAllowed .null .null = some .absent := rfl
  unfold shapePolicy allowing
  simp only [allow, block, Side.ordered, ordered, Side.oversized, fits, Bool.and_self, if_true,
    decide_false, Bool.or_self, allowed]

end Samples

end XChainHub.CrossChain.Membership
