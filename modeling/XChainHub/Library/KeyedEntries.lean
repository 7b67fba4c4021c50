import Mathlib.Data.List.Sort

/-!
Lists of entries with a key in front: lookup where no key repeats, and the order by key.
-/
namespace KeyedEntries
variable {κ α β : Type}

/-- Two lists of entries without a repeated key are a rearrangement if they hold the same. -/
theorem perm_of_entries {few many : List (κ × α)} (distinct : (few.map Prod.fst).Nodup)
    (others : (many.map Prod.fst).Nodup) (same : ∀ e, e ∈ few ↔ e ∈ many) : few.Perm many :=
  (List.perm_ext_iff_of_nodup distinct.of_map others.of_map).mpr same

section Lookup
variable [BEq κ] [LawfulBEq κ]

theorem lookup_listed {entries : List (κ × α)} {key : κ} {a : α}
    (found : entries.lookup key = some a) : (key, a) ∈ entries := by
  obtain ⟨front, back, rfl, -⟩ := List.lookup_eq_some_iff.mp found
  simp

theorem lookup_member {entries : List (κ × α)} (distinct : (entries.map Prod.fst).Nodup)
    {entry : κ × α} (member : entry ∈ entries) : entries.lookup entry.1 = some entry.2 := by
  induction entries with
  | nil => cases member
  | cons first rest ih =>
    rw [List.map_cons, List.nodup_cons] at distinct
    rw [List.lookup_cons]
    rcases List.mem_cons.mp member with rfl | inside
    · rw [beq_self_eq_true]
    · have other : entry.1 ≠ first.1 := by
        intro same
        exact distinct.1 (same ▸ List.mem_map_of_mem inside)
      rw [beq_false_of_ne other]
      exact ih distinct.2 inside

end Lookup

section Order
variable [LinearOrder κ]

abbrev byKey (entries : List (κ × α)) : List (κ × α) :=
  entries.insertionSort (fun a b => a.1 ≤ b.1)

theorem by_key_perm (entries : List (κ × α)) : (byKey entries).Perm entries :=
  List.perm_insertionSort _ entries

theorem by_key_ordered (entries : List (κ × α)) :
    (byKey entries).Pairwise (fun a b => a.1 ≤ b.1) :=
  List.pairwise_insertionSort _ entries

/-- The same entries without a repeated key have one order by key. -/
theorem by_key_unique {few many : List (κ × α)} (distinct : (few.map Prod.fst).Nodup)
    (same : few.Perm many) : byKey few = byKey many := by
  have shuffled : (byKey few).Perm (byKey many) :=
    (by_key_perm few).trans (same.trans (by_key_perm many).symm)
  apply shuffled.eq_of_pairwise _ (by_key_ordered few) (by_key_ordered many)
  intro a b left right below above
  have first := (by_key_perm few).mem_iff.mp left
  have second := (by_key_perm few).mem_iff.mp (shuffled.mem_iff.mpr right)
  exact List.inj_on_of_nodup_map distinct first second (le_antisymm below above)

theorem by_key_map (f : α → β) (entries : List (κ × α)) :
    byKey (entries.map (fun e => (e.1, f e.2))) =
      (byKey entries).map (fun e => (e.1, f e.2)) :=
  (List.map_insertionSort (fun a b : κ × α => a.1 ≤ b.1) (fun a b : κ × β => a.1 ≤ b.1)
    (fun e => (e.1, f e.2)) entries (fun _ _ _ _ => Iff.rfl)).symm

end Order

end KeyedEntries
