import Mathlib.Data.List.ReduceOption
import XChainHub.CrossChain.Bridge.Invariant

/-!
When the bridge invariant read shows no false deficit: every leg it counts is counted once and
not credited, and the two halves of a pair are not torn by what happens between their readings.
-/
namespace XChainHub.CrossChain.Bridge.Backing
open Bcmath DecimalRounding GuardedRuns SlotHeap

variable {homes : Homes}

def Uncredited (w : Chains homes) (l : SourceLeg) : Prop := l ∈ w.mined ∧ l ∉ w.credited

instance (w : Chains homes) (l : SourceLeg) : Decidable (Uncredited w l) :=
  inferInstanceAs (Decidable (_ ∧ _))

variable (homes) in
/- A leg to a chain that holds a copy. -/
def toCopy (l : SourceLeg) : Prop := l.destChain ≠ homes.home l.native

instance (l : SourceLeg) : Decidable (toCopy homes l) := inferInstanceAs (Decidable (_ ≠ _))

/- A page lists mined legs of its own chain, each once. -/
def Honest (h : Engine homes) : Event homes → Prop
  | .pollChain (some page) =>
    match h.polling with
    | some ⟨_, c :: _⟩ =>
      (page.map Prod.fst).Nodup ∧ ∀ e ∈ page, e.1 ∈ h.chains.mined ∧ e.1.srcChain = c
    | _ => True
  | _ => True

def Read.unread (r : Read homes) (c : Coin) : Bool := (r.readings.get c).isNone

/- What the chains may do while a read is open: a counted leg stays uncredited until one half
   of its pair is read, and then neither half moves against the other. -/
def Stands (r : Read homes) (w next : Chains homes) : Prop :=
  (∀ l ∈ r.counted, toCopy homes l → r.unread l.destChain = true →
    r.unread (homes.home l.native) = true → Uncredited next l) ∧
  ∀ k ∈ r.out.keys.items, k.2 ≠ homes.home k.1 →
    (r.unread k.2 = true → r.unread (homes.home k.1) = false →
      next.supply k.2 (chainTickName k.1 (some (homes.home k.1)) k.2) ≤
        w.supply k.2 (chainTickName k.1 (some (homes.home k.1)) k.2)) ∧
    (r.unread k.2 = false → r.unread (homes.home k.1) = true →
      w.escrow (homes.home k.1) k.1 k.2 ≤ next.escrow (homes.home k.1) k.1 k.2)

instance (r : Read homes) (w next : Chains homes) : Decidable (Stands r w next) :=
  inferInstanceAs (Decidable ((∀ l ∈ r.counted, _) ∧ ∀ k ∈ r.out.keys.items, _))

/- Each leg a read adds up is not credited, and not added up before. -/
def CountsOnce (h : Engine homes) : Event homes → Prop
  | .chains next => ∀ r ∈ h.reads.reduceOption, Stands r h.chains next
  | .readFlight n ok =>
    ∀ r ∈ (slotAt h.reads n).toList, ∀ l ∈ flightLegs ok h.rows r, toCopy homes l →
      Uncredited h.chains l
  | .readPending n =>
    ∀ r ∈ (slotAt h.reads n).toList, ∀ l ∈ pendingLegs h.pending r, toCopy homes l →
      Uncredited h.chains l ∧ l ∉ r.counted
  | _ => True

instance : (h : Engine homes) → (e : Event homes) → Decidable (Honest h e)
  | ⟨_, _, _, _, _, some ⟨_, _ :: _⟩, _, _, _⟩, .pollChain (some _) =>
    inferInstanceAs (Decidable (_ ∧ _))
  | ⟨_, _, _, _, _, some ⟨_, []⟩, _, _, _⟩, .pollChain (some _)
  | ⟨_, _, _, _, _, none, _, _, _⟩, .pollChain (some _) => isTrue trivial
  | _, .pollChain none | _, .chains _ | _, .time _ | _, .pollStart | _, .pollEnd | _, .finalize _
  | _, .readStart _ | _, .readPairs _ _ | _, .readFlight _ _ | _, .readPending _
  | _, .readOrigins _ | _, .readChain _ _ | _, .assemble _ => isTrue trivial

instance (h : Engine homes) : (e : Event homes) → Decidable (CountsOnce h e)
  | .chains next => inferInstanceAs (Decidable (∀ r ∈ h.reads.reduceOption, Stands r h.chains next))
  | .readFlight n ok => inferInstanceAs (Decidable (∀ r ∈ (slotAt h.reads n).toList,
      ∀ l ∈ flightLegs ok h.rows r, toCopy homes l → Uncredited h.chains l))
  | .readPending n => inferInstanceAs (Decidable (∀ r ∈ (slotAt h.reads n).toList,
      ∀ l ∈ pendingLegs h.pending r, toCopy homes l → Uncredited h.chains l ∧ l ∉ r.counted))
  | .time _ | .pollStart | .pollChain _ | .pollEnd | .finalize _ | .readStart _ | .readPairs _ _
  | .readOrigins _ | .readChain _ _ | .assemble _ => isTrue trivial

section Sums

def summed (q : ℚ) (amounts : List ℚ) : ℚ := amounts.foldl (fun q a => bcadd q a amountScale) q

theorem grid_add {p q : ℚ} {places : ℕ} (first : OnGrid places p) (second : OnGrid places q) :
    OnGrid places (p + q) := by
  obtain ⟨m, rfl⟩ := first
  obtain ⟨n, rfl⟩ := second
  exact ⟨m + n, by push_cast; ring⟩

theorem bcadd_exact {p q : ℚ} (first : 0 ≤ p ∧ OnGrid amountScale p)
    (second : 0 ≤ q ∧ OnGrid amountScale q) (short : (p + q) * 10 ^ amountScale < 10 ^ 64) :
    bcadd p q amountScale = p + q := by
  refine formatted_exact (grid_add first.2 second.2) le_rfl ?_
  rw [abs_of_nonneg (add_nonneg first.1 second.1)]
  exact short

theorem sum_decimal {amounts : List ℚ} (decimal : ∀ a ∈ amounts, 0 ≤ a ∧ OnGrid amountScale a) :
    0 ≤ amounts.sum ∧ OnGrid amountScale amounts.sum := by
  induction amounts with
  | nil => exact ⟨le_rfl, 0, by simp⟩
  | cons a amounts ih =>
    obtain ⟨nonneg, grid⟩ := ih (fun b member => decimal b (List.mem_cons_of_mem a member))
    obtain ⟨head, headGrid⟩ := decimal a List.mem_cons_self
    rw [List.sum_cons]
    exact ⟨add_nonneg head nonneg, grid_add headGrid grid⟩

/-- Token amounts whose total fits a BigNumber are added up exactly. -/
theorem summed_exact {q : ℚ} {amounts : List ℚ} (start : 0 ≤ q ∧ OnGrid amountScale q)
    (decimal : ∀ a ∈ amounts, 0 ≤ a ∧ OnGrid amountScale a)
    (short : (q + amounts.sum) * 10 ^ amountScale < 10 ^ 64) : summed q amounts = q + amounts.sum := by
  induction amounts generalizing q with
  | nil => simp [summed]
  | cons a amounts ih =>
    have head := decimal a List.mem_cons_self
    have tail := fun b member => decimal b (List.mem_cons_of_mem a member)
    rw [List.sum_cons, ← add_assoc] at short
    have part : (q + a) * 10 ^ amountScale < 10 ^ 64 := by
      have rest := mul_nonneg (sum_decimal tail).1 (by positivity : (0 : ℚ) ≤ 10 ^ amountScale)
      linarith
    have exact' := bcadd_exact start head part
    have next := ih (q := q + a) ⟨add_nonneg start.1 head.1, grid_add start.2 head.2⟩ tail short
    rw [List.sum_cons, ← add_assoc, ← next, summed, List.foldl_cons, exact', summed]

theorem amounts_to_cons (l : SourceLeg) (legs : List SourceLeg) (t : String) (c : Coin) :
    amountsTo (l :: legs) t c =
      if l.native = t ∧ l.destChain = c then l.value :: amountsTo legs t c else amountsTo legs t c := by
  unfold amountsTo
  rw [List.filter_cons]
  by_cases hit : l.native = t ∧ l.destChain = c
  · rw [if_pos hit, if_pos (by simp [hit]), List.map_cons]
  · rw [if_neg hit, if_neg (by simpa using hit)]

theorem amounts_to_append (legs more : List SourceLeg) (t : String) (c : Coin) :
    amountsTo (legs ++ more) t c = amountsTo legs t c ++ amountsTo more t c := by
  simp [amountsTo]

theorem charge_entry (out : OrderedMap (String × Coin) ℚ) (legs : List SourceLeg) (t : String)
    (c : Coin) :
    ((legs.foldl charge out).get (t, c)).getD 0 =
      summed ((out.get (t, c)).getD 0) (amountsTo legs t c) := by
  induction legs generalizing out with
  | nil => rfl
  | cons l legs ih =>
    rw [List.foldl_cons, ih, amounts_to_cons]
    by_cases hit : l.native = t ∧ l.destChain = c
    · obtain ⟨rfl, rfl⟩ := hit
      rw [if_pos ⟨rfl, rfl⟩, charge, OrderedMap.get_set_same, Option.getD_some, summed, summed,
        List.foldl_cons]
    · have other : (t, c) ≠ (l.native, l.destChain) := by
        intro same
        rw [Prod.mk.injEq] at same
        exact hit ⟨same.1.symm, same.2.symm⟩
      rw [if_neg hit, charge, OrderedMap.get_set_other other]

theorem entry_entry (out : OrderedMap (String × Coin) ℚ) (ks : List (String × Coin))
    (k : String × Coin) : ((ks.foldl entry out).get k).getD 0 = (out.get k).getD 0 := by
  induction ks generalizing out with
  | nil => rfl
  | cons j ks ih =>
    rw [List.foldl_cons, ih, entry]
    split
    · rfl
    · rename_i absent
      by_cases same : k = j
      · subst same
        rw [OrderedMap.get_set_same]
        simp only [OrderedMap.has, Option.not_isSome_iff_eq_none] at absent
        rw [absent]
        rfl
      · rw [OrderedMap.get_set_other same]

end Sums

/- The halves of a pair as they are read, or as they stand where a half is unread. -/
def supplyBound (w : Chains homes) (r : Read homes) (t : String) (c : Coin) : Option ℚ :=
  let name := chainTickName t (some (homes.home t)) c
  match r.readings.get c with
  | none => some (w.supply c name)
  | some reading => reading.bind (fun g => g.supply c name)

def escrowBound (w : Chains homes) (r : Read homes) (t : String) (c : Coin) : Option ℚ :=
  match r.readings.get (homes.home t) with
  | none => some (w.escrow (homes.home t) t c)
  | some reading => reading.bind (fun g => g.escrow (homes.home t) t c)

/- What holds of an open read while the chains are as they are. -/
structure ReadSound (w : Chains homes) (r : Read homes) : Prop where
  tally : ∀ t c, (r.out.get (t, c)).getD 0 = summed 0 (amountsTo r.counted t c)
  once : (r.counted.filter (toCopy homes ·)).Nodup
  decimal : ∀ l ∈ r.counted, toCopy homes l → 0 ≤ l.value ∧ OnGrid amountScale l.value
  standing : ∀ l ∈ r.counted, toCopy homes l → r.unread l.destChain = true →
    r.unread (homes.home l.native) = true → Uncredited w l
  covered : ∀ t c, c ≠ homes.home t → (t, c) ∈ r.out.keys → ∀ s e,
    supplyBound w r t c = some s → escrowBound w r t c = some e →
      s + (amountsTo r.counted t c).sum ≤ e
  origins : ∀ t o, r.origins.get t = some o → o = homes.home t
  early : (∀ rest, r.phase ≠ .chains rest) → ∀ c, r.unread c = true
  ahead : ∀ rest, r.phase = .chains rest → rest.Nodup ∧ ∀ c ∈ rest, r.unread c = true
  uncounted : r.phase = .pairs ∨ r.phase = .flight → r.counted = []

section Reads
variable {w : Chains homes} {r : Read homes} {t : String} {c : Coin}

theorem supply_bound_decimal {s : ℚ} (bound : supplyBound w r t c = some s) :
    0 ≤ s ∧ OnGrid amountScale s := by
  unfold supplyBound at bound
  dsimp only at bound
  split at bound
  · rw [← Option.some.inj bound]
    exact w.supplied _ _
  · obtain ⟨g, -, held⟩ := Option.bind_eq_some_iff.mp bound
    unfold Reading.supply at held
    split at held
    · rw [← Option.some.inj held]
      exact g.chains.supplied _ _
    · exact absurd held (by simp)

theorem escrow_bound_short {e : ℚ} (bound : escrowBound w r t c = some e) :
    e * 10 ^ amountScale < 10 ^ 64 := by
  unfold escrowBound at bound
  split at bound
  · rw [← Option.some.inj bound]
    exact w.short _ _ _
  · obtain ⟨g, -, held⟩ := Option.bind_eq_some_iff.mp bound
    unfold Reading.escrow at held
    split at held
    · rw [← Option.some.inj held]
      exact g.chains.short _ _ _
    · exact absurd held (by simp)

/-- Legs counted once and not credited are covered by the escrow. -/
theorem uncredited_covered (once : (r.counted.filter (toCopy homes ·)).Nodup)
    (copy : c ≠ homes.home t)
    (uncredited : ∀ l ∈ r.counted, l.native = t → l.destChain = c → Uncredited w l) :
    w.supply c (chainTickName t (some (homes.home t)) c) + (amountsTo r.counted t c).sum ≤
      w.escrow (homes.home t) t c := by
  have distinct : (r.counted.filter (fun l => l.native = t && l.destChain = c)).Nodup := by
    have narrowed := once.filter (fun l => decide (l.native = t) && decide (l.destChain = c))
    rw [List.filter_filter] at narrowed
    refine (List.filter_congr ?_) ▸ narrowed
    intro l _
    by_cases hit : l.native = t ∧ l.destChain = c
    · obtain ⟨rfl, rfl⟩ := hit
      simp [toCopy, copy]
    · have miss : (decide (l.native = t) && decide (l.destChain = c)) = false := by
        simpa using fun native => hit ∘ And.intro native
      rw [miss, Bool.false_and]
  have within : r.counted.filter (fun l => l.native = t && l.destChain = c) ⊆
      (w.mined.filter (· ∉ w.credited)).filter (fun l => l.native = t && l.destChain = c) := by
    intro l member
    obtain ⟨counted, hit⟩ := List.mem_filter.mp member
    have pair : l.native = t ∧ l.destChain = c := by simpa using hit
    obtain ⟨mined, open'⟩ := uncredited l counted pair.1 pair.2
    exact List.mem_filter.mpr ⟨List.mem_filter.mpr ⟨mined, by simpa using open'⟩, hit⟩
  have smaller : (amountsTo r.counted t c).sum ≤
      (amountsTo (w.mined.filter (· ∉ w.credited)) t c).sum := by
    obtain ⟨part, same, sub⟩ := distinct.subperm within
    have parts := (sub.map SourceLeg.value).sum_le_sum (fun a member => by
      obtain ⟨l, inside, rfl⟩ := List.mem_map.mp member
      exact (w.decimal l (List.mem_filter.mp (List.mem_filter.mp inside).1).1).1)
    rw [(same.map SourceLeg.value).sum_eq] at parts
    exact parts
  have backed := w.backed t c copy
  linarith

/- A read none of whose readings is in. -/
theorem early_sound (tally : ∀ t c, (r.out.get (t, c)).getD 0 = summed 0 (amountsTo r.counted t c))
    (once : (r.counted.filter (toCopy homes ·)).Nodup)
    (uncredited : ∀ l ∈ r.counted, toCopy homes l → Uncredited w l)
    (origins : ∀ t o, r.origins.get t = some o → o = homes.home t)
    (unread : ∀ c, r.unread c = true)
    (ahead : ∀ rest, r.phase = .chains rest → rest.Nodup)
    (uncounted : r.phase = .pairs ∨ r.phase = .flight → r.counted = []) : ReadSound w r := by
  refine ⟨tally, once, ?_, fun l counted copy _ _ => uncredited l counted copy, ?_, origins,
    fun _ => unread, fun rest phase => ⟨ahead rest phase, fun c _ => unread c⟩, uncounted⟩
  · exact fun l counted copy => w.decimal l (uncredited l counted copy).1
  · intro t c copy _ s e supply escrow
    have none (c : Coin) : r.readings.get c = none := Option.isNone_iff_eq_none.mp (unread c)
    simp only [supplyBound, none, Option.some.injEq] at supply
    simp only [escrowBound, none, Option.some.injEq] at escrow
    rw [← supply, ← escrow]
    refine uncredited_covered once copy ?_
    rintro l counted rfl rfl
    exact uncredited l counted copy

theorem summed_append (q : ℚ) (amounts more : List ℚ) :
    summed q (amounts ++ more) = summed (summed q amounts) more := by
  simp [summed]

theorem count_sound (sound : ReadSound w r) (phase : ∀ rest, r.phase ≠ .chains rest)
    {next : Phase} (later : next = .pending ∨ next = .origins) {legs : List SourceLeg}
    (distinct : legs.Nodup)
    (uncredited : ∀ l ∈ legs, toCopy homes l → Uncredited w l ∧ l ∉ r.counted) :
    ReadSound w (r.count legs next) := by
  have unread := sound.early phase
  refine early_sound ?_ ?_ ?_ sound.origins unread ?_ ?_
  · intro t c
    simp only [Read.count]
    rw [charge_entry, sound.tally, amounts_to_append, summed_append]
  · simp only [Read.count, List.filter_append]
    refine List.nodup_append.mpr ⟨sound.once, distinct.filter _, ?_⟩
    rintro l old l' new rfl
    obtain ⟨listed, copy⟩ := List.mem_filter.mp new
    exact (uncredited l listed (by simpa using copy)).2 (List.mem_filter.mp old).1
  · intro l counted copy
    rcases List.mem_append.mp counted with old | new
    · exact sound.standing l old copy (unread _) (unread _)
    · exact (uncredited l new copy).1
  · intro rest same
    rcases later with rfl | rfl
    · exact absurd same (by simp [Read.count])
    · exact absurd same (by simp [Read.count])
  · intro same
    rcases later with rfl | rfl
    · exact absurd same (by simp [Read.count])
    · exact absurd same (by simp [Read.count])

theorem start_sound (tick : Option String) (h : Engine homes) :
    ReadSound h.chains (readStart tick h) := by
  refine early_sound ?_ List.nodup_nil (fun l counted => absurd counted (by simp [readStart]))
    (fun t o found => by simp [readStart] at found) (fun c => rfl)
    (fun rest same => by simp [readStart] at same) (fun _ => rfl)
  intro t c
  simp only [readStart]
  split
  · rw [entry_entry]
    rfl
  · rfl

theorem pairs_sound (sound : ReadSound w r) (phase : r.phase = .pairs) (ok : Bool)
    (rows : List Record) : ReadSound w (readPairs ok rows r) := by
  have unread := sound.early (by simp [phase])
  refine early_sound ?_ sound.once
    (fun l counted copy => sound.standing l counted copy (unread _) (unread _)) sound.origins unread
    (fun rest same => by simp [readPairs] at same) (fun _ => sound.uncounted (Or.inl phase))
  intro t c
  simp only [readPairs]
  rw [entry_entry]
  exact sound.tally t c

theorem origins_sound (sound : ReadSound w r) (phase : ∀ rest, r.phase ≠ .chains rest)
    {tickOrigin : OrderedMap String Coin}
    (learned : ∀ t o, tickOrigin.get t = some o → o = homes.home t) :
    ReadSound w (readOrigins tickOrigin r) := by
  have unread := sound.early phase
  refine early_sound sound.tally sound.once
    (fun l counted copy => sound.standing l counted copy (unread _) (unread _)) learned unread ?_
    (fun same => by simp [readOrigins] at same)
  intro rest same
  simp only [readOrigins, Phase.chains.injEq] at same
  rw [← same]
  exact List.Nodup.filter _ (by decide)

theorem read_sound (sound : ReadSound w r) {rest : List Coin} (phase : r.phase = .chains (c :: rest))
    (answered : Option (List String)) : ReadSound w (readChain w answered c rest r) := by
  obtain ⟨distinct, unread⟩ := sound.ahead _ phase
  obtain ⟨fresh, nodup⟩ := List.nodup_cons.mp distinct
  have open' : r.readings.get c = none :=
    Option.isNone_iff_eq_none.mp (unread c List.mem_cons_self)
  have still {d : Coin} (now : (readChain w answered c rest r).unread d = true) :
      r.unread d = true := by
    by_cases here : d = c
    · rw [here]
      exact unread c List.mem_cons_self
    · simpa only [Read.unread, readChain, OrderedMap.get_set_other here] using now
  have supplied {t : String} {d : Coin} {s : ℚ}
      (bound : supplyBound w (readChain w answered c rest r) t d = some s) :
      supplyBound w r t d = some s := by
    by_cases here : d = c
    · subst here
      simp only [supplyBound, readChain, OrderedMap.get_set_same] at bound
      obtain ⟨g, read, held⟩ := Option.bind_eq_some_iff.mp bound
      obtain ⟨names, -, rfl⟩ := Option.map_eq_some_iff.mp read
      simp only [Reading.supply] at held
      simp only [supplyBound, open']
      split at held
      · exact held
      · exact absurd held (by simp)
    · simpa only [supplyBound, readChain, OrderedMap.get_set_other here] using bound
  have escrowed {t : String} {d : Coin} {e : ℚ}
      (bound : escrowBound w (readChain w answered c rest r) t d = some e) :
      escrowBound w r t d = some e := by
    by_cases here : homes.home t = c
    · subst here
      simp only [escrowBound, readChain, OrderedMap.get_set_same] at bound
      obtain ⟨g, read, held⟩ := Option.bind_eq_some_iff.mp bound
      obtain ⟨names, -, rfl⟩ := Option.map_eq_some_iff.mp read
      simp only [Reading.escrow] at held
      simp only [escrowBound, open']
      split at held
      · exact held
      · exact absurd held (by simp)
    · simpa only [escrowBound, readChain, OrderedMap.get_set_other here] using bound
  refine ⟨sound.tally, sound.once, sound.decimal, ?_, ?_, sound.origins, ?_, ?_,
    fun same => by simp [readChain] at same⟩
  · exact fun l counted copy half other => sound.standing l counted copy (still half) (still other)
  · exact fun t d copy member s e supply escrow =>
      sound.covered t d copy member s e (supplied supply) (escrowed escrow)
  · exact fun early => absurd rfl (early rest)
  · intro left same
    rw [readChain, Phase.chains.injEq] at same
    rw [← same]
    refine ⟨nodup, fun d later => ?_⟩
    have other : d ≠ c := fun here => fresh (here ▸ later)
    simp only [Read.unread, readChain, OrderedMap.get_set_other other]
    exact unread d (List.mem_cons_of_mem c later)

/-- An open read keeps what it knows while the chains move as its guard lets them. -/
theorem stands_sound {next : Chains homes} (sound : ReadSound w r) (stands : Stands r w next) :
    ReadSound next r := by
  refine ⟨sound.tally, sound.once, sound.decimal, stands.1, ?_, sound.origins, sound.early,
    sound.ahead, sound.uncounted⟩
  intro t c copy member s e supply escrow
  obtain ⟨supplyHeld, escrowHeld⟩ := stands.2 (t, c) member copy
  cases half : r.readings.get c with
  | none =>
    cases other : r.readings.get (homes.home t) with
    | none =>
      simp only [supplyBound, half, Option.some.injEq] at supply
      simp only [escrowBound, other, Option.some.injEq] at escrow
      rw [← supply, ← escrow]
      refine uncredited_covered sound.once copy ?_
      rintro l counted rfl rfl
      exact stands.1 l counted copy (by simp [Read.unread, half]) (by simp [Read.unread, other])
    | some reading =>
      have below := supplyHeld (by simp [Read.unread, half]) (by simp [Read.unread, other])
      have before : supplyBound w r t c =
          some (w.supply c (chainTickName t (some (homes.home t)) c)) := by
        simp only [supplyBound, half]
      have old := sound.covered t c copy member _ e before
        (by simpa only [escrowBound, other] using escrow)
      simp only [supplyBound, half, Option.some.injEq] at supply
      rw [← supply]
      linarith
  | some reading =>
    cases other : r.readings.get (homes.home t) with
    | none =>
      have above := escrowHeld (by simp [Read.unread, half]) (by simp [Read.unread, other])
      have before : escrowBound w r t c = some (w.escrow (homes.home t) t c) := by
        simp only [escrowBound, other]
      have old := sound.covered t c copy member s _ (by simpa only [supplyBound, half] using supply)
        before
      simp only [escrowBound, other, Option.some.injEq] at escrow
      rw [← escrow]
      linarith
    | some reading' =>
      exact sound.covered t c copy member s e (by simpa only [supplyBound, half] using supply)
        (by simpa only [escrowBound, other] using escrow)

/-- The origin a read goes by is the tick's home. -/
theorem origin_home (sound : ReadSound w r) {o : Coin} (known : originOf r.origins t = some o) :
    o = homes.home t := by
  rcases Option.or_eq_some_iff.mp known with learned | ⟨-, base⟩
  · exact sound.origins t o learned
  · split at base
    · rename_i native
      rw [native, homes.xchain]
      exact (Option.some.inj base).symm
    · exact absurd base (by simp)

/-- A delta of a sound read is no deficit. -/
theorem delta_nonneg (sound : ReadSound w r) {inFlight q : ℚ}
    (member : ((t, c), inFlight) ∈ r.out.entries) (delta : r.delta t c inFlight = some q) :
    0 ≤ q := by
  unfold Read.delta at delta
  split at delta
  · exact absurd delta (by simp)
  · rename_i o known
    have native := origin_home sound known
    subst native
    split at delta
    · exact absurd delta (by simp)
    · rename_i copy
      simp only [bind, Option.bind_eq_some_iff, Option.some.injEq] at delta
      obtain ⟨s, ⟨gs, readSupply, supply⟩, e, ⟨ge, readEscrow, escrow⟩, rfl⟩ := delta
      have supplied : supplyBound w r t c = some s := by
        have found := Option.join_eq_some_iff.mp readSupply
        simp only [supplyBound, found, Option.bind_some]
        exact supply
      have escrowed : escrowBound w r t c = some e := by
        have found := Option.join_eq_some_iff.mp readEscrow
        simp only [escrowBound, found, Option.bind_some]
        exact escrow
      have cover := sound.covered t c copy (OrderedMap.mem_keys.mpr ⟨inFlight, member⟩) s e supplied
        escrowed
      have half := supply_bound_decimal supplied
      have short := escrow_bound_short escrowed
      have amounts : ∀ a ∈ amountsTo r.counted t c, 0 ≤ a ∧ OnGrid amountScale a := by
        intro a listed
        obtain ⟨l, inside, rfl⟩ := List.mem_map.mp listed
        obtain ⟨counted, hit⟩ := List.mem_filter.mp inside
        have pair : l.native = t ∧ l.destChain = c := by simpa using hit
        refine sound.decimal l counted ?_
        rw [toCopy, pair.1, pair.2]
        exact copy
      have total := sum_decimal amounts
      have scale : (0 : ℚ) < 10 ^ amountScale := by positivity
      have fits : (s + (amountsTo r.counted t c).sum) * 10 ^ amountScale < 10 ^ 64 :=
        lt_of_le_of_lt (mul_le_mul_of_nonneg_right cover scale.le) short
      have flight : inFlight = (amountsTo r.counted t c).sum := by
        have tally := sound.tally t c
        rw [OrderedMap.get_of_mem member, Option.getD_some] at tally
        rw [tally, summed_exact ⟨le_rfl, 0, by simp⟩ amounts, zero_add]
        have part := mul_nonneg half.1 scale.le
        rw [add_mul] at fits
        linarith
      rw [flight, bcadd_exact half total fits]
      exact formatted_nonneg (by linarith)

end Reads

/- A view holds each leg of its chain once. -/
def ViewsOk (views : Views) : Prop :=
  ∀ c legs, (c, legs) ∈ views.entries → legs.Nodup ∧ ∀ l ∈ legs, l.srcChain = c

/- What holds of an engine between the steps of its polls and reads. -/
structure Sound (h : Engine homes) : Prop where
  origins : ∀ t o, h.tickOrigin.get t = some o → o = homes.home t
  views : ViewsOk h.pendingByChain
  polling : ∀ p, h.polling = some p → ViewsOk p.pendingByChain
  pending : h.pending.Nodup
  rows : (h.rows.map Record.leg).Nodup
  reads : Every (ReadSound h.chains) h.reads
  answers : ∀ answer ∈ h.answers, ∀ k q, (k, some q) ∈ answer → 0 ≤ q

section Steps
variable {h : Engine homes}

theorem combined_nodup {views : Views} (ok : ViewsOk views) : (combined views).Nodup := by
  unfold combined
  refine List.nodup_flatMap.mpr ⟨fun e member => (ok e.1 e.2 member).1, ?_⟩
  have keys := List.pairwise_map.mp views.nodup
  refine keys.imp_of_mem ?_
  intro a b first second apart l inA inB
  exact apart (((ok a.1 a.2 first).2 l inA).symm.trans ((ok b.1 b.2 second).2 l inB))

theorem learn_page_home (w : Chains homes) {rows : List Record} {page : List (SourceLeg × Bool)}
    {tickOrigin : OrderedMap String Coin}
    (learned : ∀ t o, tickOrigin.get t = some o → o = homes.home t)
    (mined : ∀ e ∈ page, e.1 ∈ w.mined) :
    ∀ t o, (learnPage rows page tickOrigin).get t = some o → o = homes.home t := by
  have along (legs : List SourceLeg) (inside : ∀ l ∈ legs, l ∈ w.mined)
      (m : OrderedMap String Coin) (known : ∀ t o, m.get t = some o → o = homes.home t) :
      ∀ t o, (legs.foldl learn m).get t = some o → o = homes.home t := by
    induction legs generalizing m with
    | nil => exact known
    | cons l legs ih =>
      refine ih (fun l' member => inside l' (List.mem_cons_of_mem l member)) _ ?_
      intro t o found
      rcases OrderedMap.mem_set (OrderedMap.mem_of_get found) with ⟨rfl, rfl⟩ | ⟨-, old⟩
      · exact w.homed l (inside l List.mem_cons_self)
      · exact known t o (OrderedMap.get_of_mem old)
  refine along _ ?_ tickOrigin learned
  intro l member
  obtain ⟨e, listed, rfl⟩ := List.mem_map.mp member
  exact mined e (List.mem_filter.mp listed).1

theorem poll_sound {page : Option (List (SourceLeg × Bool))} (sound : Sound h)
    (honest : Honest h (.pollChain page)) : Sound (pollPendingTransfers page h) := by
  unfold pollPendingTransfers
  split
  · rename_i views c rest polling
    have old := sound.polling _ polling
    cases page with
    | none =>
      refine ⟨sound.origins, sound.views, ?_, sound.pending, sound.rows, sound.reads, sound.answers⟩
      rintro p same
      rw [← Option.some.inj same]
      exact old
    | some page =>
      simp only [Honest, polling] at honest
      refine ⟨learn_page_home h.chains sound.origins (fun e member => (honest.2 e member).1),
        sound.views, ?_, sound.pending, sound.rows, sound.reads, sound.answers⟩
      rintro p same
      rw [← Option.some.inj same]
      intro d legs member
      rcases OrderedMap.mem_set member with ⟨rfl, rfl⟩ | ⟨-, kept⟩
      · refine ⟨honest.1.filter _, ?_⟩
        intro l listed
        obtain ⟨e, inside, rfl⟩ := List.mem_map.mp (List.mem_filter.mp listed).1
        exact (honest.2 e inside).2
      · exact old d legs kept
  · exact sound

theorem poll_end_sound (sound : Sound h) : Sound (pollEnd h) := by
  unfold pollEnd
  split
  · rename_i views polling
    have ok := sound.polling _ polling
    exact ⟨sound.origins, ok, fun p same => by simp at same, combined_nodup ok, sound.rows,
      sound.reads, sound.answers⟩
  · exact sound

theorem write_sound (sound : Sound h) (record : Record) :
    Sound (writeFinalizedTransfer record h) := by
  unfold writeFinalizedTransfer
  split
  · exact sound
  · rename_i absent
    refine ⟨sound.origins, sound.views, sound.polling, sound.pending, ?_, sound.reads,
      sound.answers⟩
    rw [List.map_append]
    refine List.nodup_append.mpr ⟨sound.rows, List.nodup_singleton _, ?_⟩
    rintro l old l' new rfl
    obtain ⟨row, stored, rfl⟩ := List.mem_map.mp old
    rw [List.map_singleton, List.mem_singleton] at new
    exact absent (List.any_eq_true.mpr ⟨row, stored, by simp [new]⟩)

theorem flight_nodup (sound : Sound h) (ok : Bool) (r : Read homes) :
    (flightLegs ok h.rows r).Nodup := by
  unfold flightLegs
  split
  · exact (sound.rows.sublist (List.filter_sublist.map Record.leg)).filter _
  · exact List.nodup_nil

theorem put_sound (sound : Sound h) {n : ℕ} {r next : Read homes} (held : slotAt h.reads n = some r)
    (kept : ReadSound h.chains next) : Sound (h.putRead n next) :=
  ⟨sound.origins, sound.views, sound.polling, sound.pending, sound.rows,
    every_set sound.reads held (fun _ same => Option.some.inj same ▸ kept), sound.answers⟩

/-- A step of one read keeps what it knows. -/
theorem advance_sound (sound : Sound h) {n : ℕ} {e : Event homes} (slot : e.slot = some n)
    (counts : CountsOnce h e) : Sound (advance n e h) := by
  unfold advance
  split
  · exact sound
  · rename_i r held
    have known := sound.reads n r held
    split
    · exact sound
    · rename_i next ran
      refine put_sound sound held ?_
      cases e with
      | readPairs m ok =>
        simp only [readStep] at ran
        split at ran
        · rename_i phase
          rw [← Option.some.inj ran]
          exact pairs_sound known phase ok h.rows
        · exact absurd ran (by simp)
      | readFlight m ok =>
        rw [Event.slot, Option.some.injEq] at slot
        subst slot
        simp only [readStep] at ran
        split at ran
        · rename_i phase
          rw [← Option.some.inj ran]
          have listed := counts r (by rw [held]; exact List.mem_singleton_self r)
          refine count_sound known (by simp [phase]) (Or.inl rfl) (flight_nodup sound ok r) ?_
          intro l inside copy
          rw [known.uncounted (Or.inr phase)]
          exact ⟨listed l inside copy, List.not_mem_nil⟩
        · exact absurd ran (by simp)
      | readPending m =>
        rw [Event.slot, Option.some.injEq] at slot
        subst slot
        simp only [readStep] at ran
        split at ran
        · rename_i phase
          rw [← Option.some.inj ran]
          exact count_sound known (by simp [phase]) (Or.inr rfl) (sound.pending.filter _)
            (counts r (by rw [held]; exact List.mem_singleton_self r))
        · exact absurd ran (by simp)
      | readOrigins m =>
        simp only [readStep] at ran
        split at ran
        · rename_i phase
          rw [← Option.some.inj ran]
          exact origins_sound known (by simp [phase]) sound.origins
        · exact absurd ran (by simp)
      | readChain m answered =>
        simp only [readStep] at ran
        split at ran
        · rename_i c rest phase
          rw [← Option.some.inj ran]
          exact read_sound known phase answered
        · exact absurd ran (by simp)
      | _ => simp [Event.slot] at slot

theorem assemble_sound (sound : Sound h) (n : ℕ) : Sound (assemble n h) := by
  unfold assemble
  split
  · exact sound
  · rename_i r held
    split
    · refine ⟨sound.origins, sound.views, sound.polling, sound.pending, sound.rows,
        every_set sound.reads held (by simp), ?_⟩
      intro answer member k q listed
      rcases List.mem_append.mp member with old | new
      · exact sound.answers answer old k q listed
      · rw [List.mem_singleton] at new
        subst new
        obtain ⟨e, inside, same⟩ := List.mem_map.mp listed
        rw [Prod.mk.injEq] at same
        exact delta_nonneg (sound.reads n r held) inside same.2
    · exact sound

theorem start_engine_sound (chains : Chains homes) : Sound (Engine.start chains) :=
  ⟨fun t o found => by simp [Engine.start] at found, fun c legs member => by
      simp [Engine.start, OrderedMap.empty] at member, fun p same => by simp [Engine.start] at same,
    List.nodup_nil, List.nodup_nil, every_nil, fun answer member => by
      simp [Engine.start] at member⟩

theorem step_sound (e : Event homes) (sound : Sound h) (honest : Honest h e)
    (counts : CountsOnce h e) : Sound (step h e) := by
  cases slot : e.slot with
  | some n =>
    simp only [step, slot]
    exact advance_sound sound slot counts
  | none =>
    simp only [step, slot]
    cases e with
    | chains next =>
      refine ⟨sound.origins, sound.views, sound.polling, sound.pending, sound.rows, ?_,
        sound.answers⟩
      intro n r held
      refine stands_sound (sound.reads n r held) (counts r ?_)
      exact List.reduceOption_mem_iff.mpr (List.mem_of_getElem? (Option.join_eq_some_iff.mp held))
    | time seconds =>
      exact ⟨sound.origins, sound.views, sound.polling, sound.pending, sound.rows, sound.reads,
        sound.answers⟩
    | pollStart =>
      dsimp only
      split
      · exact sound
      · refine ⟨sound.origins, sound.views, ?_, sound.pending, sound.rows, sound.reads,
          sound.answers⟩
        rintro p same
        rw [← Option.some.inj same]
        exact sound.views
    | pollChain page => exact poll_sound sound honest
    | pollEnd => exact poll_end_sound sound
    | finalize record => exact write_sound sound record
    | readStart tick =>
      exact ⟨sound.origins, sound.views, sound.polling, sound.pending, sound.rows,
        every_push sound.reads (start_sound tick h), sound.answers⟩
    | assemble n => exact assemble_sound sound n
    | _ => exact sound

end Steps

def NoDeficit (h : Engine homes) : Prop :=
  ∀ answer ∈ h.answers, ∀ k q, (k, some q) ∈ answer → 0 ≤ q

/-- On a run whose reads count no leg twice and none that is credited, and whose chains do not
    tear a pair between its two readings, no read ever shows a deficit. -/
theorem counted_once_no_deficit (chains : Chains homes) (es : List (Event homes))
    (admitted : Admitted step (fun h e => Honest h e ∧ CountsOnce h e) (Engine.start chains) es) :
    NoDeficit (run step (Engine.start chains) es) :=
  (run_invariant Sound (fun _ e sound guard => step_sound e sound guard.1 guard.2)
    (start_engine_sound chains) admitted).answers

section Samples

def onBitcoin : Homes := ⟨fun _ => .btc, rfl⟩

def fiveLocked : SourceLeg := ⟨.btc, 7, .lock, "XCHAIN", .ltc, "5"⟩

/- A lock of five to Litecoin, mined and not credited. -/
def lockedChains : Chains onBitcoin where
  supply := fun _ _ => 0
  escrow := fun o n c => if o = .btc ∧ n = "XCHAIN" ∧ c = .ltc then 5 else 0
  mined := [fiveLocked]
  credited := []
  homed := by
    intro l member
    rw [List.mem_singleton.mp member]
    rfl
  decimal := by
    intro l member
    rw [List.mem_singleton.mp member]
    exact ⟨by decide +kernel, 5 * 10 ^ 18, by decide +kernel⟩
  supplied := fun _ _ => ⟨le_rfl, 0, by simp⟩
  short := by
    intro o n c
    split <;> norm_num [amountScale]
  backed := by
    intro t c copy
    have five : fiveLocked.value = 5 := by decide +kernel
    have native : fiveLocked.native = "XCHAIN" := by decide +kernel
    have open' : [fiveLocked].filter (· ∉ ([] : List SourceLeg)) = [fiveLocked] := rfl
    rw [open', amounts_to_cons, native, five]
    by_cases hit : "XCHAIN" = t ∧ fiveLocked.destChain = c
    · obtain ⟨rfl, rfl⟩ := hit
      simp [amountsTo, onBitcoin, fiveLocked]
    · rw [if_neg hit]
      simp only [amountsTo, List.filter_nil, List.map_nil, List.sum_nil]
      split <;> norm_num

/- The poll sees the lock, and a read follows. -/
def pollThen (es : List (Event onBitcoin)) : List (Event onBitcoin) :=
  [.pollStart, .pollChain (some [(fiveLocked, true)]), .pollChain (some []), .pollChain (some []),
    .pollEnd] ++ es ++
  [.readStart none, .readPairs 0 true, .readFlight 0 true, .readPending 0, .readOrigins 0,
    .readChain 0 (some ["XCHAIN"]), .readChain 0 (some ["XCHAIN"]), .readChain 0 (some ["XCHAIN"]),
    .assemble 0]

/- Before and after the hub finalizes the lock. -/
def pendingThenRead : { es : List (Event onBitcoin) //
    Admitted step (fun h e => Honest h e ∧ CountsOnce h e) (Engine.start lockedChains) es } :=
  ⟨pollThen [], by decide +kernel⟩

theorem pending_lock_no_deficit :
    NoDeficit (run step (Engine.start lockedChains) pendingThenRead.1) :=
  counted_once_no_deficit lockedChains pendingThenRead.1 pendingThenRead.2

/-- A lock is added up from the pending view and again from its record: a deficit of five. -/
theorem finalized_lock_counted_twice :
    Admitted step Honest (Engine.start lockedChains) (pollThen [.finalize ⟨fiveLocked, 100⟩]) ∧
    ¬ NoDeficit (run step (Engine.start lockedChains) (pollThen [.finalize ⟨fiveLocked, 100⟩])) := by
  have read : (("XCHAIN", Coin.ltc), some (-5)) ∈
      (run step (Engine.start lockedChains) (pollThen [.finalize ⟨fiveLocked, 100⟩])).answers.flatten := by
    decide +kernel
  refine ⟨by decide +kernel, ?_⟩
  intro fine
  obtain ⟨answer, member, shown⟩ := List.mem_flatten.mp read
  exact absurd (fine answer member _ _ shown) (by norm_num)

end Samples

end XChainHub.CrossChain.Bridge.Backing
