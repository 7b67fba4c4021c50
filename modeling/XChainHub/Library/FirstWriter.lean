import Mathlib.Logic.Function.Basic

/-!
A table that keeps the first value put under a key.
-/
namespace FirstWriter
variable {K V : Type} [DecidableEq K]

def insertIfAbsent (table : K → Option V) (k : K) (v : V) : K → Option V :=
  match table k with
  | some _ => table
  | none => Function.update table k (some v)

variable {table : K → Option V} {k key : K} {v value : V}

/-- A value once there is there for good. -/
theorem insert_keeps (held : table key = some value) :
    insertIfAbsent table k v key = some value := by
  cases here : table k with
  | some first => simpa [insertIfAbsent, here] using held
  | none =>
    have other : key ≠ k := by
      rintro rfl
      rw [here] at held
      cases held
    simpa [insertIfAbsent, here, Function.update_of_ne other] using held

end FirstWriter
