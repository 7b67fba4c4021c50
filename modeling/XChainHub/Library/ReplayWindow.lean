import XChainHub.Library.OrderedMap

/-!
A bounded cache of ids against replays. Each id has a time from which a pruner may drop
it, and a full cache drops its oldest id for another. A message stays live up to a time of
its own; the cache guards it while it holds the id of the message.
-/
namespace ReplayWindow

variable {K T : Type} [DecidableEq K]

def prune [LinearOrder T] (now : T) (seen : OrderedMap K T) : OrderedMap K T :=
  seen.filter (fun e => !decide (e.2 ≤ now))

/- The id that a cache of this limit drops for another. -/
def evicted (limit : ℕ) (seen : OrderedMap K T) : Option K :=
  if limit ≤ seen.size then seen.entries.head?.map Prod.fst else none

def remember (limit : ℕ) (key : K) (expiry : T) (seen : OrderedMap K T) : OrderedMap K T :=
  match evicted limit seen with
  | some oldest => (seen.erase oldest).set key expiry
  | none => seen.set key expiry

theorem has_prune [LinearOrder T] {now : T} {seen : OrderedMap K T} {key : K} {expiry : T}
    (held : seen.get key = some expiry) (later : now < expiry) :
    (prune now seen).has key = true := by
  have member : (key, expiry) ∈ (prune now seen).entries :=
    OrderedMap.mem_filter.mpr ⟨OrderedMap.mem_of_get held, by simpa using later⟩
  rw [OrderedMap.has, OrderedMap.get_of_mem member]
  rfl

theorem has_set {seen : OrderedMap K T} {key other : K} {expiry : T} :
    (seen.set key expiry).has other = true ↔ other = key ∨ seen.has other = true := by
  rw [OrderedMap.has_iff_mem_keys, OrderedMap.mem_keys_set, OrderedMap.has_iff_mem_keys]

theorem has_remember {limit : ℕ} {seen : OrderedMap K T} {key other : K} {expiry : T}
    (kept : evicted limit seen ≠ some other) :
    (remember limit key expiry seen).has other = true ↔ other = key ∨ seen.has other = true := by
  simp only [remember]
  split
  · rename_i oldest found
    have apart : other ≠ oldest := by
      rintro rfl
      exact kept found
    rw [has_set, OrderedMap.has, OrderedMap.get_erase_other apart, ← OrderedMap.has]
  · exact has_set

theorem has_remember_key {limit : ℕ} {seen : OrderedMap K T} {key : K} {expiry : T} :
    (remember limit key expiry seen).has key = true := by
  simp only [remember]
  split
  · exact has_set.mpr (Or.inl rfl)
  · exact has_set.mpr (Or.inl rfl)

section Guarding
variable {M : Type} (key : M → K) (live : M → T → Prop)

/- Every known message that is still live has its id in the cache. -/
def Guarding (now : T) (seen : OrderedMap K T) (known : List M) : Prop :=
  ∀ m ∈ known, live m now → seen.has (key m) = true

variable {key live} {now later : T} {seen : OrderedMap K T} {known : List M}

theorem guarding_later (lapses : ∀ m, live m later → live m now)
    (guarding : Guarding key live now seen known) : Guarding key live later seen known :=
  fun m member still => guarding m member (lapses m still)

theorem guarding_prune [LinearOrder T] (keeps : ∀ m ∈ known, live m now → ∀ x ∈ seen.get (key m), now < x)
    (guarding : Guarding key live now seen known) :
    Guarding key live now (prune now seen) known := by
  intro m member still
  obtain ⟨x, held⟩ := Option.isSome_iff_exists.mp (guarding m member still)
  exact has_prune held (keeps m member still x held)

theorem guarding_remember {limit : ℕ} {m : M} {expiry : T}
    (spares : ∀ oldest ∈ evicted limit seen, ∀ m ∈ known, key m = oldest → ¬ live m now)
    (guarding : Guarding key live now seen known) :
    Guarding key live now (remember limit (key m) expiry seen) (known ++ [m]) := by
  intro n member still
  rcases List.mem_append.mp member with old | new
  · refine (has_remember ?_).mpr (Or.inr (guarding n old still))
    intro dropped
    exact spares (key n) dropped n old rfl still
  · rw [List.mem_singleton.mp new]
    exact has_remember_key

end Guarding
end ReplayWindow
