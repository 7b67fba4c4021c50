import Mathlib.Logic.Basic

/-!
Receivers that keep, for each key, some row at least as good as any they were handed. Two
that were handed the same rows end with rows that are as good as each other.
-/
namespace KeepBest
variable {R K : Type} (key : R → K) (atLeast : R → R → Prop)

/-- Every received row has a held one of its key that is at least as good. -/
def Represents (held received : R → Prop) : Prop :=
  ∀ r, received r → ∃ b, held b ∧ key b = key r ∧ atLeast b r

variable {key atLeast} {held held' received received' : R → Prop}

theorem represents_moved (trans : ∀ a b c, atLeast a b → atLeast b c → atLeast a c)
    (moved : ∀ b, held b → ∃ b', held' b' ∧ key b' = key b ∧ atLeast b' b)
    (represents : Represents key atLeast held received) : Represents key atLeast held' received := by
  intro r handed
  obtain ⟨b, kept, same, better⟩ := represents r handed
  obtain ⟨b', kept', same', better'⟩ := moved b kept
  exact ⟨b', kept', same'.trans same, trans b' b r better' better⟩

/-- Where each holds at most one row a key, and each row held stands for one received, the two
    rows of a key are each at least as good as the other. -/
theorem best_agree (represents : Represents key atLeast held received)
    (represents' : Represents key atLeast held' received)
    (unique : ∀ a b, held a → held b → key a = key b → a = b)
    (unique' : ∀ a b, held' a → held' b → key a = key b → a = b)
    (stands : ∀ b, held b → ∃ r, received r ∧ key r = key b ∧ ∀ c, atLeast c r → atLeast c b)
    (stands' : ∀ b, held' b → ∃ r, received r ∧ key r = key b ∧ ∀ c, atLeast c r → atLeast c b)
    {a b : R} (here : held a) (there : held' b) (same : key a = key b) :
    atLeast a b ∧ atLeast b a := by
  constructor
  · obtain ⟨r, handed, keyed, carries⟩ := stands' b there
    obtain ⟨a', kept, keyed', better⟩ := represents r handed
    rw [unique a a' here kept (same.trans (keyed.symm.trans keyed'.symm))]
    exact carries a' better
  · obtain ⟨r, handed, keyed, carries⟩ := stands a here
    obtain ⟨b', kept, keyed', better⟩ := represents' r handed
    rw [unique' b b' there kept (same.symm.trans (keyed.symm.trans keyed'.symm))]
    exact carries b' better

end KeepBest
