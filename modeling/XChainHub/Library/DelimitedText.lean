import Mathlib.Data.List.Chain
import Mathlib.Algebra.GroupWithZero.Nat

/-!
Text cut at a delimiter. A field is plain when the delimiter does not occur in
it; plain fields are read back off the front of a joined text one at a time.
-/
namespace DelimitedText
variable {α : Type}

/-- Two plain fields in front of a delimiter are the same if the texts are. -/
theorem plain_field_inj {delim : α} {a b x y : List α} (first : delim ∉ a) (second : delim ∉ b)
    (same : a ++ delim :: x = b ++ delim :: y) : a = b ∧ x = y := by
  induction a generalizing b with
  | nil =>
    cases b with
    | nil => exact ⟨rfl, (List.cons.inj same).2⟩
    | cons c b =>
      have head := (List.cons.inj same).1
      exact absurd (head ▸ List.mem_cons_self) second
  | cons d a ih =>
    cases b with
    | nil =>
      have head := (List.cons.inj same).1
      exact absurd (head ▸ List.mem_cons_self) first
    | cons c b =>
      obtain ⟨head, tail⟩ := List.cons.inj same
      rw [List.mem_cons, not_or] at first second
      obtain ⟨fields, rest⟩ := ih first.2 second.2 tail
      exact ⟨by rw [head, fields], rest⟩

variable [DecidableEq α]

/- Drops the text through the n-th delimiter. -/
def dropFields (delim : α) : ℕ → List α → List α
  | 0, text => text
  | _ + 1, [] => []
  | n + 1, c :: text => if c = delim then dropFields delim n text else dropFields delim (n + 1) text

theorem drop_plain_field {delim : α} {field : List α} (plain : delim ∉ field) (n : ℕ)
    (rest : List α) :
    dropFields delim (n + 1) (field ++ delim :: rest) = dropFields delim n rest := by
  induction field with
  | nil => simp [dropFields]
  | cons c field ih =>
    rw [List.mem_cons, not_or] at plain
    simp only [List.cons_append, dropFields, if_neg (Ne.symm plain.1)]
    exact ih plain.2

@[simp] theorem drop_zero (delim : α) (text : List α) : dropFields delim 0 text = text := by
  cases text <;> rfl

section Cells

/- The cells of several texts joined by the delimiter. -/
def cells (delim : α) (fields : List (List α)) : List (List α) :=
  fields.flatMap (List.splitOn delim)

theorem splitOn_joined (delim : α) {fields : List (List α)} (filled : fields ≠ []) :
    ([delim].intercalate fields).splitOn delim = cells delim fields := by
  induction fields with
  | nil => exact absurd rfl filled
  | cons field rest ih =>
    cases rest with
    | nil => simp [cells]
    | cons next rest =>
      rw [List.intercalate_cons_cons, List.append_assoc, List.singleton_append,
        List.splitOn_append_cons_self, ih (by simp)]
      rfl

/-- A field of one cell is that cell. -/
theorem eq_of_single_cell {delim : α} {field cell : List α}
    (single : field.splitOn delim = [cell]) : field = cell := by
  have back : [delim].intercalate (field.splitOn delim) = field := List.intercalate_splitOn delim
  rw [single, List.intercalate_singleton] at back
  exact back.symm

/-- The first place where two adjacent cells have a property is the same in both readings. -/
theorem adjacent_aligned {β : Type} {P : β → Prop} {front before tail rest : List β}
    {a b first second : β} (apart : (second :: rest).IsChain (fun x y => ¬ (P x ∧ P y)))
    (left : P a) (right : P b) (long : front.length ≤ before.length)
    (same : before ++ a :: b :: tail = front ++ first :: second :: rest) :
    before = front ∧ a = first ∧ b = second ∧ tail = rest := by
  rcases List.append_eq_append_iff.mp same with ⟨gap, front_eq, later⟩ | ⟨gap, before_eq, later⟩
  · have none_left : gap = [] := by
      rw [front_eq, List.length_append] at long
      exact List.length_eq_zero_iff.mp (by omega)
    rw [none_left, List.nil_append] at later
    rw [none_left, List.append_nil] at front_eq
    simp only [List.cons.injEq] at later
    exact ⟨front_eq.symm, later⟩
  · cases gap with
    | nil =>
      rw [List.append_nil] at before_eq
      simp only [List.nil_append, List.cons.injEq] at later
      exact ⟨before_eq, later.1.symm, later.2.1.symm, later.2.2.symm⟩
    | cons cell gap =>
      have inner := (List.cons.inj later).2
      rw [inner] at apart
      have pair := List.IsChain.right_of_append apart
      rw [List.isChain_cons_cons] at pair
      exact absurd ⟨left, right⟩ pair.1

end Cells

section Bars

abbrev Cell := List Char

def barCells (s : String) : List Cell := s.toList.splitOn '|'

theorem bar_cells_append (a b : String) : barCells (a ++ "|" ++ b) = barCells a ++ barCells b := by
  simp only [barCells, String.toList_append]
  rw [List.append_assoc, show "|".toList = ['|'] from rfl, List.singleton_append,
    List.splitOn_append_cons_self]

theorem bar_cells_join {fields : List String} (filled : fields ≠ []) :
    barCells (String.intercalate "|" fields) = fields.flatMap barCells := by
  have some_field : fields.map String.toList ≠ [] := by
    intro empty
    exact filled (List.map_eq_nil_iff.mp empty)
  rw [barCells, String.toList_intercalate, show "|".toList = ['|'] from rfl,
    splitOn_joined '|' some_field, cells, List.flatMap_map]
  rfl

theorem bar_cells_ne_nil (s : String) : barCells s ≠ [] := List.splitOn_ne_nil _ _

theorem bar_cells_single {a : String} {cell : Cell} (single : barCells a = [cell]) :
    a.toList = cell := eq_of_single_cell single

theorem bar_cells_plain {s : String} (plain : '|' ∉ s.toList) : barCells s = [s.toList] :=
  List.splitOn_eq_singleton plain

theorem bar_cells_positive (s : String) : 1 ≤ (barCells s).length :=
  List.length_pos_iff.mpr (bar_cells_ne_nil s)

theorem fields_le_cells (fields : List String) :
    fields.length ≤ (fields.flatMap barCells).length := by
  induction fields with
  | nil => exact Nat.zero_le _
  | cons field rest ih =>
    have own := bar_cells_positive field
    rw [List.flatMap_cons, List.length_append, List.length_cons]
    omega

/-- A join splits into the joined fields just when none of them holds a bar. -/
theorem bar_cells_join_iff {fields : List String} (filled : fields ≠ []) :
    barCells (String.intercalate "|" fields) = fields.map String.toList ↔
      ∀ f ∈ fields, '|' ∉ f.toList := by
  rw [bar_cells_join filled]
  constructor
  · clear filled
    intro same
    induction fields with
    | nil => simp
    | cons field rest ih =>
      rw [List.flatMap_cons, List.map_cons] at same
      have single : (barCells field).length = 1 := by
        have sizes := congrArg List.length same
        have wide := fields_le_cells rest
        have own := bar_cells_positive field
        rw [List.length_append, List.length_cons, List.length_map] at sizes
        omega
      obtain ⟨cell, cells_eq⟩ := List.length_eq_one_iff.mp single
      rw [cells_eq, List.singleton_append, List.cons.injEq] at same
      intro f member
      rcases List.mem_cons.mp member with rfl | later
      · intro bar
        have split_at := List.append_of_mem bar
        obtain ⟨front, back, shape⟩ := split_at
        have more := List.splitOn_append_cons_self front back (a := '|')
        rw [← shape] at more
        have counts := congrArg List.length more
        rw [← barCells, single, List.length_append] at counts
        have left := List.length_pos_iff.mpr (List.splitOn_ne_nil '|' front)
        have right := List.length_pos_iff.mpr (List.splitOn_ne_nil '|' back)
        omega
      · exact ih same.2 f later
  · intro plain
    induction fields with
    | nil => rfl
    | cons field rest ih =>
      rw [List.flatMap_cons, List.map_cons, bar_cells_plain (plain field List.mem_cons_self)]
      rw [List.singleton_append, List.cons.injEq]
      refine ⟨rfl, ?_⟩
      cases rest with
      | nil => rfl
      | cons next rest =>
        exact ih (by simp) (fun f member => plain f (List.mem_cons_of_mem _ member))

end Bars

section Sizes

/- Buffer.byteLength(text, 'utf8'). -/
def byteLength (s : String) : ℕ := (s.toList.map Char.utf8Size).sum

@[simp] theorem byte_length_append (a b : String) :
    byteLength (a ++ b) = byteLength a + byteLength b := by
  simp [byteLength]

theorem byte_length_ascii {s : String} (ascii : ∀ c ∈ s.toList, c.toNat < 128) :
    byteLength s = s.toList.length := by
  unfold byteLength
  revert ascii
  generalize s.toList = cs
  intro ascii
  induction cs with
  | nil => rfl
  | cons c cs ih =>
    have one : c.utf8Size = 1 := by
      rw [Char.utf8Size_eq_one_iff, UInt32.le_iff_toNat_le]
      have small := ascii c List.mem_cons_self
      have same : c.val.toNat = c.toNat := rfl
      have bound : (127 : UInt32).toNat = 127 := by decide
      omega
    rw [List.map_cons, List.sum_cons, one,
      ih (fun d member => ascii d (List.mem_cons_of_mem _ member)), List.length_cons]
    omega

/-- Fields joined on at the end add their own bytes and one bar each. -/
theorem byte_length_join (front : List String) (filled : front ≠ []) (more : List String) :
    byteLength (String.intercalate "|" (front ++ more)) =
      byteLength (String.intercalate "|" front) + (more.map (fun f => 1 + byteLength f)).sum := by
  induction more generalizing front with
  | nil => simp
  | cons field more ih =>
    have grown : front ++ [field] ≠ [] := by simp
    rw [List.append_cons, ih (front ++ [field]) grown,
      String.intercalate_append_of_ne_nil filled (by simp), String.intercalate_singleton]
    simp only [byte_length_append, List.map_cons, List.sum_cons]
    have bar : byteLength "|" = 1 := by decide
    omega

/- What each field costs on the wire, its bar included. -/
def wireCost (fields : List String) : ℕ := (fields.map (fun f => 1 + byteLength f)).sum

@[simp] theorem wire_cost_append (front more : List String) :
    wireCost (front ++ more) = wireCost front + wireCost more := by
  simp [wireCost]

@[simp] theorem wire_cost_cons (field : String) (more : List String) :
    wireCost (field :: more) = 1 + byteLength field + wireCost more := by
  simp [wireCost]

@[simp] theorem wire_cost_nil : wireCost [] = 0 := rfl

/-- A joined wire has one byte less than its fields cost: there is no bar before the first. -/
theorem joined_bytes {fields : List String} (filled : fields ≠ []) :
    byteLength (String.intercalate "|" fields) + 1 = wireCost fields := by
  obtain ⟨first, more, rfl⟩ := List.exists_cons_of_ne_nil filled
  have joined := byte_length_join [first] (by simp) more
  rw [List.singleton_append, String.intercalate_singleton] at joined
  rw [joined, wire_cost_cons, wireCost]
  omega

end Sizes

end DelimitedText
