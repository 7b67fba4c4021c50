import XChainHub.Library.OrderedMap

/-!
A bounded memory of what each key is committed to, which forgets its oldest key when it is full.
A key keeps one value as long as no forgotten key can be committed to again.
-/
namespace BoundedCommitments
variable {K V : Type}

def keepNewest (cap : ℕ) (m : OrderedMap K V) : OrderedMap K V :=
  ⟨m.entries.drop (m.size - cap), m.nodup.sublist ((List.drop_sublist _ _).map Prod.fst)⟩

theorem mem_keepNewest {cap : ℕ} {m : OrderedMap K V} {e : K × V}
    (member : e ∈ (keepNewest cap m).entries) : e ∈ m.entries := List.mem_of_mem_drop member

/- The entries that go when one more comes. -/
def forgotten (cap : ℕ) (m : OrderedMap K V) : List (K × V) := m.entries.take (m.size + 1 - cap)

variable [DecidableEq K]

def remember (cap : ℕ) (m : OrderedMap K V) (k : K) (v : V) : OrderedMap K V :=
  keepNewest cap (m.set k v)

section Entries
variable {cap : ℕ} {m : OrderedMap K V} {k : K} {v : V}

theorem set_new_entries (new : m.get k = none) : (m.set k v).entries = m.entries ++ [(k, v)] := by
  have absent : k ∉ m.entries.map Prod.fst := by
    intro member
    obtain ⟨e, inside, same⟩ := List.mem_map.mp member
    have held := OrderedMap.get_of_mem (a := e.1) (b := e.2) inside
    rw [same, new] at held
    exact absurd held (by simp)
  simp [OrderedMap.set, absent]

theorem remember_entries (new : m.get k = none) :
    (remember cap m k v).entries = (m.entries ++ [(k, v)]).drop (m.size + 1 - cap) := by
  have entries := set_new_entries (v := v) new
  have size : (m.set k v).size = m.size + 1 := by simp [OrderedMap.size, entries]
  change (m.set k v).entries.drop ((m.set k v).size - cap) = _
  rw [size, entries]

/-- The memory after a history of different keys is the newest part of the history. -/
theorem remember_history {history : List (K × V)}
    (newest : m.entries = history.drop (history.length - cap)) (new : k ∉ history.map Prod.fst) :
    (remember cap m k v).entries =
      (history ++ [(k, v)]).drop ((history ++ [(k, v)]).length - cap) := by
  have absent : m.get k = none := by
    rw [Option.eq_none_iff_forall_ne_some]
    intro w held
    have member := OrderedMap.mem_of_get held
    rw [newest] at member
    exact new (List.mem_map.mpr ⟨_, List.mem_of_mem_drop member, rfl⟩)
  have size : m.size = history.length - (history.length - cap) := by
    rw [OrderedMap.size, newest, List.length_drop]
  rw [remember_entries absent, newest, List.length_append, List.length_singleton,
    ← List.drop_append_of_le_length (by omega), List.drop_drop]
  congr 1
  omega

theorem get_remember_same (room : 0 < cap) (new : m.get k = none) :
    (remember cap m k v).get k = some v := by
  apply OrderedMap.get_of_mem
  rw [remember_entries new, List.drop_append_of_le_length (by rw [OrderedMap.size]; omega)]
  exact List.mem_append_right _ List.mem_cons_self

theorem get_remember_other {key : K} (other : key ≠ k) (new : m.get k = none) :
    (remember cap m k v).get key = m.get key ∨
      (remember cap m k v).get key = none ∧ ∃ e ∈ forgotten cap m, e.1 = key := by
  cases now : (remember cap m k v).get key with
  | some w =>
    have member := OrderedMap.mem_of_get now
    have before := OrderedMap.get_of_mem (mem_keepNewest member)
    rw [OrderedMap.get_set_other other] at before
    exact Or.inl before.symm
  | none =>
    cases before : m.get key with
    | none => exact Or.inl rfl
    | some w =>
      refine Or.inr ⟨rfl, (key, w), ?_, rfl⟩
      have member := OrderedMap.mem_of_get before
      rw [← List.take_append_drop (m.size + 1 - cap) m.entries] at member
      rcases List.mem_append.mp member with gone | kept
      · exact gone
      · have still : (key, w) ∈ (remember cap m k v).entries := by
          rw [remember_entries new, List.drop_append]
          exact List.mem_append_left _ kept
        rw [OrderedMap.get_of_mem still] at now
        exact absurd now (by simp)

end Entries

section Claims

/-- Each key has one value, and one that the memory lost is fenced. -/
structure Bound (fenced : K → Prop) (m : OrderedMap K V) (granted : List (K × V)) : Prop where
  recalled : ∀ k v, (k, v) ∈ granted → m.get k = some v ∨ m.get k = none ∧ fenced k
  single : ∀ k v w, (k, v) ∈ granted → (k, w) ∈ granted → v = w

variable {fenced fenced' : K → Prop} {cap : ℕ} {m : OrderedMap K V} {granted : List (K × V)} {k : K} {v : V}

theorem bound_empty : Bound fenced (OrderedMap.empty : OrderedMap K V) [] := ⟨nofun, nofun⟩

theorem bound_fenced (bound : Bound fenced m granted) (more : ∀ k, fenced k → fenced' k) :
    Bound fenced' m granted := by
  refine ⟨?_, bound.single⟩
  intro k v member
  rcases bound.recalled k v member with held | ⟨lost, fence⟩
  · exact Or.inl held
  · exact Or.inr ⟨lost, more k fence⟩

variable [DecidableEq V]

/- A new key is remembered; a held one keeps its value, and is granted for that value only. -/
def claim (cap : ℕ) (m : OrderedMap K V) (k : K) (v : V) : OrderedMap K V × Bool :=
  match m.get k with
  | some held => (m, held = v)
  | none => (remember cap m k v, true)

theorem claim_refused (refused : (claim cap m k v).2 = false) : (claim cap m k v).1 = m := by
  unfold claim at refused ⊢
  split at refused
  · rfl
  · exact absurd refused (by simp)

/-- A claim that is granted at a key not fenced keeps the bound, where what it makes the memory
    forget is fenced. -/
theorem claim_bound (bound : Bound fenced m granted) (room : 0 < cap) (free : ¬ fenced k)
    (forgets : m.get k = none → ∀ e ∈ forgotten cap m, fenced e.1)
    (won : (claim cap m k v).2 = true) : Bound fenced (claim cap m k v).1 (granted ++ [(k, v)]) := by
  have recalled {w : V} (member : (k, w) ∈ granted) : m.get k = some w :=
    (bound.recalled k w member).resolve_right fun lost => free lost.2
  have mine {w : V} (member : (k, w) ∈ granted) : w = v := by
    unfold claim at won
    rw [recalled member] at won
    simpa using won
  have now : (claim cap m k v).1.get k = some v := by
    unfold claim at won ⊢
    split at won
    · rename_i held known
      rw [known, of_decide_eq_true won]
    · rename_i new
      exact get_remember_same room new
  have others {key : K} (other : key ≠ k) : (claim cap m k v).1.get key = m.get key ∨
      (claim cap m k v).1.get key = none ∧ fenced key := by
    unfold claim
    split
    · exact Or.inl rfl
    · rename_i new
      rcases get_remember_other (v := v) other new with same | ⟨lost, e, gone, rfl⟩
      · exact Or.inl same
      · exact Or.inr ⟨lost, forgets new e gone⟩
  constructor
  · intro key w member
    by_cases own : key = k
    · rw [own] at member ⊢
      rcases List.mem_append.mp member with old | new
      · rw [mine old]
        exact Or.inl now
      · rw [(Prod.mk.inj (List.mem_singleton.mp new)).2]
        exact Or.inl now
    · have old : (key, w) ∈ granted := by
        rcases List.mem_append.mp member with old | new
        · exact old
        · exact absurd (Prod.mk.inj (List.mem_singleton.mp new)).1 own
      rcases others own with same | lost
      · rw [same]
        exact bound.recalled key w old
      · exact Or.inr lost
  · intro key a b first second
    rcases List.mem_append.mp first with old | new <;> rcases List.mem_append.mp second with old' | new'
    · exact bound.single key a b old old'
    · obtain ⟨own, rfl⟩ := Prod.mk.inj (List.mem_singleton.mp new')
      rw [own] at old
      exact mine old
    · obtain ⟨own, rfl⟩ := Prod.mk.inj (List.mem_singleton.mp new)
      rw [own] at old'
      exact (mine old').symm
    · rw [(Prod.mk.inj (List.mem_singleton.mp new)).2, (Prod.mk.inj (List.mem_singleton.mp new')).2]

end Claims
end BoundedCommitments
