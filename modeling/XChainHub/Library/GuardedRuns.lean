import Mathlib.Data.List.Basic

/-!
Runs of a step function whose every step is admitted by a guard on the state it
starts from, and the product of such systems over independent parties. The
guard may mention the whole product, which is how a message is tied to a sender.
-/
namespace GuardedRuns

section Single
variable {S E : Type} (step : S → E → S) (guard : S → E → Prop)

def run (s : S) (es : List E) : S := es.foldl step s

def Admitted : S → List E → Prop
  | _, [] => True
  | s, e :: es => guard s e ∧ Admitted (step s e) es

instance decidableAdmitted [∀ s e, Decidable (guard s e)] :
    (s : S) → (es : List E) → Decidable (Admitted step guard s es)
  | _, [] => isTrue trivial
  | s, e :: es =>
    have := decidableAdmitted (step s e) es
    inferInstanceAs (Decidable (guard s e ∧ Admitted step guard (step s e) es))

theorem run_append (s : S) (front back : List E) :
    run step s (front ++ back) = run step (run step s front) back := by
  simp [run]

variable {step guard}

theorem admitted_append {s : S} {front back : List E} :
    Admitted step guard s (front ++ back) ↔
      Admitted step guard s front ∧ Admitted step guard (run step s front) back := by
  induction front generalizing s with
  | nil => simp [Admitted, run]
  | cons e es ih =>
    simp only [List.cons_append, Admitted, ih, and_assoc]
    rfl

theorem admitted_and {other : S → E → Prop} {s : S} {es : List E}
    (first : Admitted step guard s es) (second : Admitted step other s es) :
    Admitted step (fun s e => guard s e ∧ other s e) s es := by
  induction es generalizing s with
  | nil => trivial
  | cons e es ih => exact ⟨⟨first.1, second.1⟩, ih first.2 second.2⟩

theorem run_singleton (s : S) (e : E) : run step s [e] = step s e := rfl

/-- An invariant of every step is an invariant of every run. -/
theorem run_preserves (inv : S → Prop) (keeps : ∀ s e, inv s → inv (step s e)) {s : S}
    (start : inv s) (es : List E) : inv (run step s es) := by
  induction es generalizing s with
  | nil => exact start
  | cons e es ih => exact ih (keeps s e start)

/-- What every admitted step preserves, an admitted run preserves. -/
theorem run_invariant (inv : S → Prop) (keeps : ∀ s e, inv s → guard s e → inv (step s e))
    {s : S} (start : inv s) {es : List E} (admitted : Admitted step guard s es) :
    inv (run step s es) := by
  induction es generalizing s with
  | nil => exact start
  | cons e es ih => exact ih (keeps s e start admitted.1) admitted.2

/-- An invariant that also mentions the steps taken so far. -/
theorem run_history (inv : List E → S → Prop)
    (keeps : ∀ past s e, inv past s → guard s e → inv (past ++ [e]) (step s e)) {s : S}
    (start : inv [] s) {es : List E} (admitted : Admitted step guard s es) :
    inv es (run step s es) := by
  have along (past : List E) (s : S) (now : inv past s) (es : List E)
      (admitted : Admitted step guard s es) : inv (past ++ es) (run step s es) := by
    induction es generalizing past s with
    | nil =>
      rw [List.append_nil]
      exact now
    | cons e es ih =>
      have next := ih (past ++ [e]) (step s e) (keeps past s e now admitted.1) admitted.2
      rw [List.append_assoc] at next
      exact next
  exact along [] s start es admitted

end Single

section Product
variable {ι S E : Type} [DecidableEq ι]

/- One party moves and the others keep their state. -/
def move (step : ι → S → E → S) (world : ι → S) (m : ι × E) : ι → S :=
  Function.update world m.1 (step m.1 (world m.1) m.2)

variable {step : ι → S → E → S}

@[simp] theorem move_same (world : ι → S) (i : ι) (e : E) :
    move step world (i, e) i = step i (world i) e := by
  simp [move]

theorem move_other {world : ι → S} {i j : ι} {e : E} (other : j ≠ i) :
    move step world (i, e) j = world j := by
  simp [move, other]

end Product
end GuardedRuns
