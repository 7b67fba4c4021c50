import XChainHub.Library.OrderedSet

/-!
A map kept in insertion order: an entry keeps its place when its value is set
again, and a new key goes last. Distinctness of the keys travels with the value.
-/

structure OrderedMap (α β : Type) where
  entries : List (α × β)
  nodup : (entries.map Prod.fst).Nodup

namespace OrderedMap
variable {α β : Type}

def empty : OrderedMap α β := ⟨[], List.nodup_nil⟩

def size (m : OrderedMap α β) : ℕ := m.entries.length

def keys (m : OrderedMap α β) : OrderedSet α := ⟨m.entries.map Prod.fst, m.nodup⟩

@[simp] theorem keys_empty : (empty : OrderedMap α β).keys = OrderedSet.empty := rfl

theorem mem_keys {m : OrderedMap α β} {a : α} : a ∈ m.keys ↔ ∃ b, (a, b) ∈ m.entries := by
  simp [keys, OrderedSet.mem_items]

def filter (m : OrderedMap α β) (p : α × β → Bool) : OrderedMap α β :=
  ⟨m.entries.filter p, m.nodup.sublist (List.filter_sublist.map Prod.fst)⟩

theorem mem_filter {m : OrderedMap α β} {p : α × β → Bool} {e : α × β} :
    e ∈ (m.filter p).entries ↔ e ∈ m.entries ∧ p e = true := List.mem_filter

def mapValues {γ : Type} (m : OrderedMap α β) (f : α → β → γ) : OrderedMap α γ :=
  ⟨m.entries.map (fun e => (e.1, f e.1 e.2)), by
    rw [List.map_map]
    exact m.nodup⟩

variable [DecidableEq α]

def get (m : OrderedMap α β) (a : α) : Option β :=
  (m.entries.find? (fun e => e.1 = a)).map Prod.snd

def has (m : OrderedMap α β) (a : α) : Bool := (m.get a).isSome

def put (a : α) (b : β) (e : α × β) : α × β := if e.1 = a then (e.1, b) else e

theorem put_keys (a : α) (b : β) (entries : List (α × β)) :
    (entries.map (put a b)).map Prod.fst = entries.map Prod.fst := by
  rw [List.map_map]
  apply List.map_congr_left
  intro e _
  simp only [Function.comp, put]
  split <;> rfl

def set (m : OrderedMap α β) (a : α) (b : β) : OrderedMap α β :=
  if present : a ∈ m.entries.map Prod.fst then
    ⟨m.entries.map (put a b), by rw [put_keys]; exact m.nodup⟩
  else
    ⟨m.entries ++ [(a, b)], by
      rw [List.map_append]
      refine List.nodup_append.mpr ⟨m.nodup, List.nodup_singleton a, ?_⟩
      intro key member other single same
      rw [List.map_cons, List.map_nil, List.mem_singleton] at single
      exact present (by rw [← show other = a from single, ← same]; exact member)⟩

def erase (m : OrderedMap α β) (a : α) : OrderedMap α β :=
  ⟨m.entries.filter (fun e => e.1 ≠ a),
    m.nodup.sublist (List.filter_sublist.map Prod.fst)⟩

@[simp] theorem get_empty (a : α) : (empty : OrderedMap α β).get a = none := rfl

theorem mem_of_get {m : OrderedMap α β} {a : α} {b : β} (found : m.get a = some b) :
    (a, b) ∈ m.entries := by
  obtain ⟨e, hit, rfl⟩ := Option.map_eq_some_iff.mp found
  have key : e.1 = a := by simpa using List.find?_some hit
  rw [← key]
  exact List.mem_of_find?_eq_some hit

theorem get_of_mem {m : OrderedMap α β} {a : α} {b : β} (member : (a, b) ∈ m.entries) :
    m.get a = some b := by
  cases found : m.entries.find? (fun e => e.1 = a) with
  | none =>
    have missing := List.find?_eq_none.mp found (a, b) member
    simp at missing
  | some e =>
    have key : e.1 = a := by simpa using List.find?_some found
    have same : e = (a, b) :=
      List.inj_on_of_nodup_map m.nodup (List.mem_of_find?_eq_some found) member key
    simp [get, found, same]

theorem get_eq_some_iff {m : OrderedMap α β} {a : α} {b : β} :
    m.get a = some b ↔ (a, b) ∈ m.entries := ⟨mem_of_get, get_of_mem⟩

theorem has_iff_mem_keys {m : OrderedMap α β} {a : α} : m.has a = true ↔ a ∈ m.keys := by
  simp only [has, Option.isSome_iff_exists, get_eq_some_iff, mem_keys]

theorem mem_set {m : OrderedMap α β} {a key : α} {b value : β}
    (member : (key, value) ∈ (m.set a b).entries) :
    (key = a ∧ value = b) ∨ (key ≠ a ∧ (key, value) ∈ m.entries) := by
  simp only [set] at member
  split at member
  · obtain ⟨e, old, same⟩ := List.mem_map.mp member
    simp only [put] at same
    split at same
    · rename_i hit
      rw [Prod.mk.injEq] at same
      exact Or.inl ⟨same.1.symm.trans hit, same.2.symm⟩
    · rename_i miss
      rw [same] at miss old
      exact Or.inr ⟨miss, old⟩
  · rename_i absent
    rcases List.mem_append.mp member with old | new
    · refine Or.inr ⟨?_, old⟩
      rintro rfl
      exact absent (List.mem_map.mpr ⟨(key, value), old, rfl⟩)
    · exact Or.inl (Prod.mk.injEq .. ▸ List.mem_singleton.mp new)

@[simp] theorem mem_keys_set {m : OrderedMap α β} {a key : α} {b : β} :
    key ∈ (m.set a b).keys ↔ key = a ∨ key ∈ m.keys := by
  simp only [keys, set, OrderedSet.mem_items]
  split
  · rename_i present
    rw [put_keys]
    constructor
    · exact Or.inr
    · rintro (rfl | member)
      · exact present
      · exact member
  · simp [or_comm]

@[simp] theorem get_set_same (m : OrderedMap α β) (a : α) (b : β) :
    (m.set a b).get a = some b := by
  have present : a ∈ (m.set a b).keys := mem_keys_set.mpr (Or.inl rfl)
  obtain ⟨value, member⟩ := mem_keys.mp present
  rcases mem_set member with ⟨-, rfl⟩ | ⟨other, -⟩
  · exact get_of_mem member
  · exact absurd rfl other

theorem get_set_other {m : OrderedMap α β} {a key : α} {b : β} (other : key ≠ a) :
    (m.set a b).get key = m.get key := by
  ext value
  simp only [get_eq_some_iff]
  constructor
  · intro member
    rcases mem_set member with ⟨same, -⟩ | ⟨-, old⟩
    · exact absurd same other
    · exact old
  · intro old
    simp only [set]
    split
    · exact List.mem_map.mpr ⟨(key, value), old, by simp [put, other]⟩
    · exact List.mem_append.mpr (Or.inl old)

@[simp] theorem get_erase_same (m : OrderedMap α β) (a : α) : (m.erase a).get a = none := by
  simp [get, erase]

theorem get_erase_other {m : OrderedMap α β} {a key : α} (other : key ≠ a) :
    (m.erase a).get key = m.get key := by
  ext value
  simp [get_eq_some_iff, erase, other]

@[simp] theorem get_map_values {γ : Type} (m : OrderedMap α β) (f : α → β → γ) (a : α) :
    (m.mapValues f).get a = (m.get a).map (f a) := by
  ext value
  rw [get_eq_some_iff, Option.map_eq_some_iff]
  constructor
  · intro member
    obtain ⟨e, old, same⟩ := List.mem_map.mp member
    rw [Prod.mk.injEq] at same
    exact ⟨e.2, get_of_mem (same.1 ▸ old), same.1 ▸ same.2⟩
  · rintro ⟨old, held, rfl⟩
    exact List.mem_map.mpr ⟨(a, old), mem_of_get held, rfl⟩

theorem map_values_set {γ : Type} (m : OrderedMap α β) (f : β → γ) (a : α) (b : β) :
    (m.set a b).mapValues (fun _ => f) = (m.mapValues fun _ => f).set a (f b) := by
  have keys : (m.mapValues fun _ => f).entries.map Prod.fst = m.entries.map Prod.fst := by
    simp [mapValues]
  have entries : ((m.set a b).mapValues fun _ => f).entries = ((m.mapValues fun _ => f).set a (f b)).entries := by
    simp only [set, keys]
    split
    · simp only [mapValues, List.map_map]
      apply List.map_congr_left
      intro e _
      simp only [Function.comp, put]
      split <;> rfl
    · simp [mapValues]
  cases left : (m.set a b).mapValues fun _ => f
  cases right : (m.mapValues fun _ => f).set a (f b)
  rw [left, right] at entries
  cases entries
  rfl

theorem size_set_le (m : OrderedMap α β) (a : α) (b : β) : (m.set a b).size ≤ m.size + 1 := by
  unfold set size
  split
  · simp
  · simp

theorem size_erase_le (m : OrderedMap α β) (a : α) : (m.erase a).size ≤ m.size :=
  List.length_filter_le _ m.entries

end OrderedMap
