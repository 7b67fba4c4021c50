import Mathlib.Data.List.Induction

/-!
A register that only a write of a higher rank replaces: what it holds after a history
of writes, and the registers of a table told apart by a key.
-/
namespace LatestWins

section Register
variable {V : Type} (rank : V → ℕ)

def newer (held : Option V) (v : V) : Option V :=
  match held with
  | none => some v
  | some h => if rank h < rank v then some v else some h

def latest (history : List V) : Option V := history.foldl (newer rank) none

@[simp] theorem latest_nil : latest rank [] = none := rfl

@[simp] theorem latest_concat (history : List V) (v : V) :
    latest rank (history ++ [v]) = newer rank (latest rank history) v := by
  simp [latest]

variable {rank}

theorem newer_cases {held : Option V} {v w : V} (now : newer rank held v = some w) :
    w = v ∨ held = some w := by
  cases held with
  | none => exact Or.inl (Option.some.inj now).symm
  | some h =>
    simp only [newer] at now
    split at now
    · exact Or.inl (Option.some.inj now).symm
    · exact Or.inr now

theorem newer_present (held : Option V) (v : V) : ∃ w, newer rank held v = some w := by
  cases held with
  | none => exact ⟨v, rfl⟩
  | some h =>
    simp only [newer]
    split
    · exact ⟨v, rfl⟩
    · exact ⟨h, rfl⟩

theorem latest_present {history : List V} (written : history ≠ []) :
    ∃ v, latest rank history = some v := by
  induction history using List.reverseRecOn with
  | nil => exact absurd rfl written
  | append_singleton front w _ =>
    rw [latest_concat]
    exact newer_present _ w

/-- What a register holds was written. -/
theorem latest_mem {history : List V} {v : V} (held : latest rank history = some v) :
    v ∈ history := by
  induction history using List.reverseRecOn with
  | nil => exact absurd held (by simp)
  | append_singleton front w ih =>
    rw [latest_concat] at held
    rcases newer_cases held with same | before
    · rw [same]
      exact List.mem_append_right _ List.mem_cons_self
    · exact List.mem_append_left _ (ih before)

/-- Nothing that was written outranks it. -/
theorem latest_le {history : List V} {v : V} (held : latest rank history = some v) :
    ∀ w ∈ history, rank w ≤ rank v := by
  induction history using List.reverseRecOn generalizing v with
  | nil => exact absurd held (by simp)
  | append_singleton front w ih =>
    rw [latest_concat] at held
    intro u member
    cases before : latest rank front with
    | none =>
      rw [before] at held
      obtain rfl := Option.some.inj held
      rcases List.mem_append.mp member with old | new
      · obtain ⟨x, hx⟩ := latest_present (List.ne_nil_of_mem old)
        rw [before] at hx
        exact absurd hx (by simp)
      · have same := List.mem_singleton.mp new
        exact Nat.le_of_eq (congrArg rank same)
    | some x =>
      rw [before, newer] at held
      rcases List.mem_append.mp member with old | new
      · have below := ih before u old
        split at held
        · obtain rfl := Option.some.inj held
          omega
        · obtain rfl := Option.some.inj held
          exact below
      · rw [List.mem_singleton.mp new]
        split at held
        · obtain rfl := Option.some.inj held
          exact Nat.le_refl _
        · obtain rfl := Option.some.inj held
          omega

end Register

section Table
variable {K V : Type} [DecidableEq K] (rank : V → ℕ) (key : V → K)

def latestOf (history : List V) (k : K) : Option V :=
  latest rank (history.filter (fun v => key v = k))

@[simp] theorem latest_of_nil (k : K) : latestOf rank key [] k = none := rfl

theorem latest_of_concat_same (history : List V) (v : V) :
    latestOf rank key (history ++ [v]) (key v) =
      newer rank (latestOf rank key history (key v)) v := by
  simp [latestOf, List.filter_append]

theorem latest_of_concat_other (history : List V) {v : V} {k : K} (apart : key v ≠ k) :
    latestOf rank key (history ++ [v]) k = latestOf rank key history k := by
  simp [latestOf, List.filter_append, apart]

variable {rank key}

theorem latest_of_mem {history : List V} {k : K} {v : V}
    (held : latestOf rank key history k = some v) : v ∈ history ∧ key v = k := by
  have inside := latest_mem held
  rw [List.mem_filter, decide_eq_true_eq] at inside
  exact inside

theorem latest_of_le {history : List V} {k : K} {v : V}
    (held : latestOf rank key history k = some v) :
    ∀ w ∈ history, key w = k → rank w ≤ rank v := by
  intro w member same
  exact latest_le held w (List.mem_filter.mpr ⟨member, decide_eq_true same⟩)

theorem latest_of_none {history : List V} {k : K} (free : latestOf rank key history k = none) :
    ∀ w ∈ history, key w ≠ k := by
  intro w member same
  have inside : w ∈ history.filter (fun v => key v = k) :=
    List.mem_filter.mpr ⟨member, decide_eq_true same⟩
  obtain ⟨v, held⟩ : ∃ v, latest rank (history.filter (fun v => key v = k)) = some v :=
    latest_present (List.ne_nil_of_mem inside)
  rw [latestOf, held] at free
  exact absurd free (by simp)

/-- Neither the order of the writes nor their number counts where those of a key and a rank are
    one write. -/
theorem latest_of_congr {history other : List V} {k : K} (same : ∀ v, v ∈ history ↔ v ∈ other)
    (single : ∀ v ∈ history, ∀ w ∈ history, key v = k → key w = k → rank v = rank w → v = w) :
    latestOf rank key history k = latestOf rank key other k := by
  cases here : latestOf rank key history k with
  | none =>
    cases there : latestOf rank key other k with
    | none => rfl
    | some w =>
      obtain ⟨member, keyed⟩ := latest_of_mem there
      exact absurd keyed (latest_of_none here w ((same w).mpr member))
  | some v =>
    obtain ⟨member, keyed⟩ := latest_of_mem here
    cases there : latestOf rank key other k with
    | none => exact absurd keyed (latest_of_none there v ((same v).mp member))
    | some w =>
      obtain ⟨member', keyed'⟩ := latest_of_mem there
      have inside := (same w).mpr member'
      have below := latest_of_le here w inside keyed'
      have above := latest_of_le there v ((same v).mp member) keyed
      rw [single v member w inside keyed keyed' (Nat.le_antisymm above below)]

end Table
end LatestWins
