import Mathlib.Data.List.Basic

/-!
A file that records are appended to, one a line. An append may leave only a part of
its line, and the next one continues what it left: a line so made cannot be read.
-/
namespace TornLog
variable {R S : Type}

/- What an append leaves of its line; bare is the whole line but its end. -/
inductive Left where
  | nothing
  | part
  | bare
  | whole
  deriving DecidableEq

/- Complete lines, oldest first, and the text after the last of them; a line that cannot be
   read is none. -/
structure Log (R : Type) where
  lines : List (Option R)
  tail : Option (Option R)
  deriving DecidableEq

def Log.empty : Log R := ⟨[], none⟩

def Log.put (log : Log R) (r : R) : Left → Log R
  | .nothing => log
  | .part => { log with tail := some none }
  | .bare => { log with tail := if log.tail.isSome then some none else some (some r) }
  | .whole => ⟨log.lines ++ [if log.tail.isSome then none else some r], none⟩

def Log.complete (log : Log R) : List R := log.lines.filterMap id

/- What a reader finds. -/
def Log.records (log : Log R) : List R := log.complete ++ log.tail.join.toList

@[simp] theorem complete_empty : (Log.empty : Log R).complete = [] := rfl

@[simp] theorem records_empty : (Log.empty : Log R).records = [] := rfl

section Folds
variable (f : S → R → S) (P : S → Prop) {log : Log R} {init : S} {r : R}

/- P holds of the fold whether or not the tail is lost to a later append. -/
structure Settled (init : S) (log : Log R) : Prop where
  complete : P (log.complete.foldl f init)
  records : P (log.records.foldl f init)

variable {f P}

theorem settled_of_closed (closed : log.tail = none) (holds : P (log.complete.foldl f init)) :
    Settled f P init log := by
  refine ⟨holds, ?_⟩
  rw [Log.records, closed]
  simpa using holds

theorem complete_snoc (lines : List (Option R)) (x : Option R) :
    (Log.mk (lines ++ [x]) none).complete = (Log.mk lines none).complete ++ x.toList := by
  cases x <;> simp [Log.complete]

/-- A record that keeps P may be appended to any file, and whatever its append leaves. -/
theorem Settled.put (settled : Settled f P init log) (keeps : ∀ s, P s → P (f s r)) (left : Left) :
    Settled f P init (log.put r left) := by
  obtain ⟨lines, tail⟩ := log
  have complete : P ((Log.mk lines none).complete.foldl f init) := settled.complete
  cases left with
  | nothing => exact settled
  | part => exact ⟨complete, by simpa [Log.put, Log.records, Log.complete] using complete⟩
  | bare =>
    refine ⟨complete, ?_⟩
    cases tail with
    | none =>
      have more := keeps _ complete
      simpa [Log.put, Log.records, Log.complete] using more
    | some torn => simpa [Log.put, Log.records, Log.complete] using complete
  | whole =>
    refine settled_of_closed rfl ?_
    rw [Log.put, complete_snoc, List.foldl_append]
    cases tail with
    | none => exact keeps _ complete
    | some torn => exact complete

/-- A record that brings P about does so for good once its line is whole and its own. -/
theorem settled_put_whole (closed : log.tail = none) (brings : ∀ s, P (f s r)) :
    Settled f P init (log.put r .whole) := by
  refine settled_of_closed rfl ?_
  rw [Log.put, complete_snoc, List.foldl_append, closed]
  exact brings _

end Folds
end TornLog
