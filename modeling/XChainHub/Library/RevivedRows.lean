import XChainHub.Library.OrderedMap

/-!
A table whose rows are live or withdrawn. What is put under the id of a withdrawn row is
merged into it, and a merge may keep some of what was withdrawn.
-/
namespace RevivedRows
variable {K R : Type}

structure Held (R : Type) where
  row : R
  live : Bool
  deriving DecidableEq

abbrev Table (K R : Type) := OrderedMap K (Held R)

def withdraw (covered : K → R → Bool) (t : Table K R) : Table K R :=
  t.mapValues (fun k h => if covered k h.row then { h with live := false } else h)

variable [DecidableEq K]

def insertNew (k : K) (r : R) (t : Table K R) : Table K R :=
  if t.has k then t else t.set k ⟨r, true⟩

def revive (merge : R → R) (k : K) (t : Table K R) : Table K R :=
  match t.get k with
  | some h => if h.live then t else t.set k ⟨merge h.row, true⟩
  | none => t

def upsert (merge : R → R) (k : K) (r : R) (t : Table K R) : Table K R :=
  match t.get k with
  | some h => t.set k ⟨merge h.row, true⟩
  | none => t.set k ⟨r, true⟩

/- Every live row has the property. -/
def AllLive (P : R → Prop) (t : Table K R) : Prop :=
  ∀ k h, t.get k = some h → h.live = true → P h.row

section Laws
variable {P : R → Prop} {merge : R → R} {k : K} {r : R} {t : Table K R}

theorem all_live_iff : AllLive P t ↔ ∀ e ∈ t.entries, e.2.live = true → P e.2.row := by
  constructor
  · intro all e member
    exact all e.1 e.2 (OrderedMap.get_of_mem member)
  · intro all k h held
    exact all (k, h) (OrderedMap.mem_of_get held)

instance [DecidablePred P] : Decidable (AllLive P t) := decidable_of_iff _ all_live_iff.symm

theorem empty_live : AllLive P (OrderedMap.empty : Table K R) := by
  intro k h held
  cases held

theorem set_live {h : Held R} (all : AllLive P t) (fresh : P h.row) : AllLive P (t.set k h) := by
  intro k' h' held live
  by_cases same : k' = k
  · rw [same, OrderedMap.get_set_same] at held
    rw [← Option.some.inj held]
    exact fresh
  · rw [OrderedMap.get_set_other same] at held
    exact all k' h' held live

theorem insert_new_live (all : AllLive P t) (fresh : t.get k = none → P r) :
    AllLive P (insertNew k r t) := by
  unfold insertNew
  split
  · exact all
  · rename_i absent
    exact set_live all (fresh (by simpa [OrderedMap.has] using absent))

theorem revive_live (all : AllLive P t)
    (merged : ∀ h, t.get k = some h → h.live = false → P (merge h.row)) :
    AllLive P (revive merge k t) := by
  unfold revive
  split
  · rename_i h held
    split
    · exact all
    · rename_i withdrawn
      exact set_live all (merged h held (Bool.eq_false_iff.mpr withdrawn))
  · exact all

theorem upsert_live (all : AllLive P t) (fresh : t.get k = none → P r)
    (merged : ∀ h, t.get k = some h → P (merge h.row)) : AllLive P (upsert merge k r t) := by
  unfold upsert
  split
  · rename_i h held
    exact set_live all (merged h held)
  · rename_i absent
    exact set_live all (fresh absent)

theorem withdraw_live (all : AllLive P t) (covered : K → R → Bool) :
    AllLive P (withdraw covered t) := by
  intro k h held live
  rw [withdraw, OrderedMap.get_map_values] at held
  obtain ⟨h', before, rfl⟩ := Option.map_eq_some_iff.mp held
  split at live
  · cases live
  · rename_i clear
    rw [if_neg clear]
    exact all k h' before live

end Laws
end RevivedRows
