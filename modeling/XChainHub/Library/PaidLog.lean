import Mathlib.Data.List.Nodup

/-!
A log of paid attempts, newest first. An attempt for a key is begun, and ends paid
or refused; a paid key may be freed again by something outside. Paid once: no
attempt begins while one for its key is under way, nor after one was paid.
-/
namespace PaidLog
variable {K : Type}

inductive Mark (K : Type) where
  | begun (key : K)
  | paid (key : K)
  | refused (key : K)
  | freed (key : K)
  deriving DecidableEq

inductive Status where
  | idle
  | running
  | spent
  deriving DecidableEq

def Mark.key : Mark K → K
  | .begun k => k
  | .paid k => k
  | .refused k => k
  | .freed k => k

/- What a mark leaves of the status of its own key. -/
def Mark.leaves : Mark K → Status
  | .begun _ => .running
  | .paid _ => .spent
  | .refused _ => .idle
  | .freed _ => .idle

section Logs
variable [DecidableEq K]

def status : List (Mark K) → K → Status
  | [], _ => .idle
  | m :: earlier, k => if m.key = k then m.leaves else status earlier k

@[simp] theorem status_same (m : Mark K) (log : List (Mark K)) :
    status (m :: log) m.key = m.leaves := by
  simp [status]

theorem status_other {m : Mark K} {k : K} (other : m.key ≠ k) (log : List (Mark K)) :
    status (m :: log) k = status log k := by
  simp [status, other]

def Mark.Allowed (earlier : List (Mark K)) : Mark K → Prop
  | .begun k => status earlier k = .idle
  | _ => True

instance (earlier : List (Mark K)) : (m : Mark K) → Decidable (m.Allowed earlier)
  | .begun k => inferInstanceAs (Decidable (status earlier k = .idle))
  | .paid _ => isTrue trivial
  | .refused _ => isTrue trivial
  | .freed _ => isTrue trivial

def PaidOnce : List (Mark K) → Prop
  | [] => True
  | m :: earlier => m.Allowed earlier ∧ PaidOnce earlier

instance decidablePaidOnce : (log : List (Mark K)) → Decidable (PaidOnce log)
  | [] => isTrue trivial
  | m :: earlier =>
    have := decidablePaidOnce earlier
    inferInstanceAs (Decidable (m.Allowed earlier ∧ PaidOnce earlier))

/-- Marks that begin nothing keep a log paid once. -/
theorem paid_once_append {marks log : List (Mark K)} (once : PaidOnce log)
    (ends : ∀ m ∈ marks, ∀ earlier, m.Allowed earlier) : PaidOnce (marks ++ log) := by
  induction marks with
  | nil => exact once
  | cons m marks ih =>
    exact ⟨ends m List.mem_cons_self _, ih (fun m' member => ends m' (List.mem_cons_of_mem m member))⟩

/-- After marks of one kind of end, each of their keys has that status. -/
theorem status_append {marks log : List (Mark K)} (after : Status)
    (ends : ∀ m ∈ marks, m.leaves = after) (k : K) :
    status (marks ++ log) k = if ∃ m ∈ marks, m.key = k then after else status log k := by
  induction marks with
  | nil => simp
  | cons m marks ih =>
    have rest := ih (fun m' member => ends m' (List.mem_cons_of_mem m member))
    by_cases same : m.key = k
    · rw [if_pos ⟨m, List.mem_cons_self, same⟩, List.cons_append, ← same, status_same]
      exact ends m List.mem_cons_self
    · rw [List.cons_append, status_other same, rest]
      simp [same]

/- The keys of the attempts under way, each once. -/
structure UnderWay (log : List (Mark K)) (keys : List K) : Prop where
  running : ∀ k, status log k = .running ↔ k ∈ keys
  nodup : keys.Nodup

theorem under_way_nil : UnderWay ([] : List (Mark K)) [] :=
  ⟨fun k => by simp [status], List.nodup_nil⟩

theorem UnderWay.begin {log : List (Mark K)} {keys : List K} (flights : UnderWay log keys) {k : K}
    (fresh : k ∉ keys) : UnderWay (.begun k :: log) (keys ++ [k]) := by
  refine ⟨fun key => ?_, ?_⟩
  · by_cases same : k = key
    · rw [← same]
      simp [status, Mark.key, Mark.leaves]
    · rw [status_other (m := .begun k) same, flights.running]
      simp [Ne.symm same]
  · rw [List.nodup_append]
    refine ⟨flights.nodup, List.nodup_singleton k, ?_⟩
    intro a member b single same
    rw [List.mem_singleton] at single
    exact fresh (single ▸ same ▸ member)

theorem UnderWay.finish {log : List (Mark K)} {front back : List K} {m : Mark K}
    (flights : UnderWay log (front ++ m.key :: back)) (ends : m.leaves ≠ .running) :
    UnderWay (m :: log) (front ++ back) := by
  have apart := List.nodup_middle.mp flights.nodup
  rw [List.nodup_cons] at apart
  refine ⟨fun key => ?_, apart.2⟩
  by_cases same : m.key = key
  · rw [← same, status_same]
    exact ⟨fun runs => absurd runs ends, fun member => absurd member apart.1⟩
  · rw [status_other same, flights.running, List.mem_append, List.mem_cons, List.mem_append]
    constructor
    · rintro (before | rfl | after)
      · exact Or.inl before
      · exact absurd rfl same
      · exact Or.inr after
    · rintro (before | after)
      · exact Or.inl before
      · exact Or.inr (Or.inr after)

/-- Attempts that are cut off count as paid. -/
theorem UnderWay.cut {log : List (Mark K)} {keys : List K} (flights : UnderWay log keys) :
    UnderWay (keys.map Mark.paid ++ log) [] := by
  refine ⟨fun key => ?_, List.nodup_nil⟩
  rw [status_append .spent (fun m member => by
    obtain ⟨k, -, rfl⟩ := List.mem_map.mp member
    rfl)]
  split
  · simp
  · rename_i other
    rw [flights.running]
    constructor
    · intro member
      exact absurd ⟨.paid key, List.mem_map.mpr ⟨key, member, rfl⟩, rfl⟩ other
    · intro nothing
      exact absurd nothing List.not_mem_nil

theorem status_cut {log : List (Mark K)} {keys : List K} {k : K}
    (spent : status (keys.map Mark.paid ++ log) k = .spent) :
    k ∈ keys ∨ status log k = .spent := by
  rw [status_append .spent (fun m member => by
    obtain ⟨key, -, rfl⟩ := List.mem_map.mp member
    rfl)] at spent
  split at spent
  · rename_i hit
    obtain ⟨m, member, same⟩ := hit
    obtain ⟨key, inside, rfl⟩ := List.mem_map.mp member
    exact Or.inl (same ▸ inside)
  · exact Or.inr spent

theorem UnderWay.active_cut {log : List (Mark K)} {keys : List K} (flights : UnderWay log keys) {k : K}
    (active : status (keys.map Mark.paid ++ log) k ≠ .idle) : status log k ≠ .idle := by
  rw [status_append .spent (fun m member => by
    obtain ⟨key, -, rfl⟩ := List.mem_map.mp member
    rfl)] at active
  split at active
  · rename_i hit
    obtain ⟨m, member, rfl⟩ := hit
    obtain ⟨key, inside, rfl⟩ := List.mem_map.mp member
    rw [show status log (Mark.paid key).key = .running from (flights.running key).mpr inside]
    simp
  · exact active

theorem paid_once_cut {log : List (Mark K)} (once : PaidOnce log) (keys : List K) :
    PaidOnce (keys.map Mark.paid ++ log) := by
  refine paid_once_append once (fun m member earlier => ?_)
  obtain ⟨k, -, rfl⟩ := List.mem_map.mp member
  trivial

end Logs

section Slots
variable {A : Type}

/- A heap of awaited calls: a settled one leaves an empty slot. -/
def occupied (slots : List (Option A)) : List A := slots.filterMap id

theorem occupied_append (slots : List (Option A)) (a : A) :
    occupied (slots ++ [some a]) = occupied slots ++ [a] := by
  simp [occupied]

theorem occupied_clear {slots : List (Option A)} {n : ℕ} {a : A} (held : slots[n]?.join = some a) :
    ∃ front back, occupied slots = front ++ a :: back ∧
      occupied (slots.set n none) = front ++ back := by
  induction slots generalizing n with
  | nil => exact absurd held (by simp)
  | cons slot slots ih =>
    cases n with
    | zero =>
      rw [List.getElem?_cons_zero, Option.join_some] at held
      exact ⟨[], occupied slots, by simp [occupied, held], by simp [occupied]⟩
    | succ n =>
      rw [List.getElem?_cons_succ] at held
      obtain ⟨front, back, before, after⟩ := ih held
      cases slot with
      | none => exact ⟨front, back, by simpa [occupied] using before, by simpa [occupied] using after⟩
      | some b =>
        refine ⟨b :: front, back, ?_, ?_⟩
        · simpa [occupied] using before
        · simpa [occupied] using after

theorem mem_occupied {slots : List (Option A)} {n : ℕ} {a : A} (held : slots[n]?.join = some a) :
    a ∈ occupied slots := by
  obtain ⟨front, back, before, -⟩ := occupied_clear held
  rw [before]
  simp

end Slots
end PaidLog
