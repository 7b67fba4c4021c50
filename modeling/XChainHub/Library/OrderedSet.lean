import Mathlib.Data.Finset.Card
import Mathlib.Data.List.Sort

/-!
A set kept in insertion order. Distinctness travels with the value, so a size
read off the list is the size of the finite set of its members.
-/

structure OrderedSet (α : Type) where
  items : List α
  nodup : items.Nodup

namespace OrderedSet
variable {α : Type}

def empty : OrderedSet α := ⟨[], List.nodup_nil⟩

def size (s : OrderedSet α) : ℕ := s.items.length

instance : Membership α (OrderedSet α) := ⟨fun s a => a ∈ s.items⟩

theorem mem_items {s : OrderedSet α} {a : α} : a ∈ s ↔ a ∈ s.items := Iff.rfl

theorem size_pos_of_mem {s : OrderedSet α} {a : α} (member : a ∈ s) : 0 < s.size :=
  List.length_pos_of_mem member

@[simp] theorem not_mem_empty {a : α} : a ∉ (empty : OrderedSet α) := by
  simp [mem_items, empty]

variable [DecidableEq α]

instance : DecidableEq (OrderedSet α)
  | ⟨items, _⟩, ⟨items', _⟩ => decidable_of_iff (items = items') (by rw [OrderedSet.mk.injEq])

instance (a : α) (s : OrderedSet α) : Decidable (a ∈ s) :=
  inferInstanceAs (Decidable (a ∈ s.items))

/- A present member keeps its place; a new one goes last. -/
def add (s : OrderedSet α) (a : α) : OrderedSet α :=
  if present : a ∈ s.items then s
  else ⟨s.items ++ [a], List.nodup_append.mpr ⟨s.nodup, List.nodup_singleton a, by
    intro b member c single same
    rw [List.mem_singleton] at single
    exact present (by rw [← single, ← same]; exact member)⟩⟩

def erase (s : OrderedSet α) (a : α) : OrderedSet α :=
  ⟨s.items.filter (fun b => b ≠ a), s.nodup.filter _⟩

def ofList (as : List α) : OrderedSet α := as.foldl add empty

def toFinset (s : OrderedSet α) : Finset α := s.items.toFinset

@[simp] theorem mem_add {s : OrderedSet α} {a b : α} : b ∈ s.add a ↔ b = a ∨ b ∈ s := by
  simp only [mem_items, add]
  split
  · rename_i present
    constructor
    · exact Or.inr
    · rintro (same | member)
      · rw [same]; exact present
      · exact member
  · simp [or_comm]

@[simp] theorem mem_erase {s : OrderedSet α} {a b : α} : b ∈ s.erase a ↔ b ≠ a ∧ b ∈ s := by
  simp [mem_items, erase, and_comm]

@[simp] theorem mem_to_finset {s : OrderedSet α} {a : α} : a ∈ s.toFinset ↔ a ∈ s := by
  simp [toFinset, mem_items]

theorem card_to_finset (s : OrderedSet α) : s.toFinset.card = s.size :=
  List.toFinset_card_of_nodup s.nodup

theorem size_add_pos (s : OrderedSet α) (a : α) : 0 < (s.add a).size :=
  size_pos_of_mem (mem_add.mpr (Or.inl rfl))

theorem mem_foldl_add {as : List α} {s : OrderedSet α} {b : α} :
    b ∈ as.foldl add s ↔ b ∈ as ∨ b ∈ s := by
  induction as generalizing s with
  | nil => simp
  | cons a as ih =>
    simp only [List.foldl_cons, ih, mem_add, List.mem_cons]
    constructor
    · rintro (tail | head | old)
      · exact Or.inl (Or.inr tail)
      · exact Or.inl (Or.inl head)
      · exact Or.inr old
    · rintro ((head | tail) | old)
      · exact Or.inr (Or.inl head)
      · exact Or.inl tail
      · exact Or.inr (Or.inr old)

@[simp] theorem mem_of_list {as : List α} {b : α} : b ∈ ofList as ↔ b ∈ as := by
  simp [ofList, mem_foldl_add]

theorem size_le_of_subset {s t : OrderedSet α} (sub : ∀ a ∈ s, a ∈ t) : s.size ≤ t.size := by
  rw [← card_to_finset, ← card_to_finset]
  exact Finset.card_le_card (fun a member => mem_to_finset.mpr (sub a (mem_to_finset.mp member)))

end OrderedSet
