import Mathlib.Data.List.Basic

/-!
A lock made of promises: each holder of a key chains onto the last link recorded for it,
and whoever is still the last link when it is done removes the record. Holders of one key
work one after the other, in the order in which they asked.
-/
namespace ChainedLock
variable {K A : Type}

inductive Phase where
  | waiting
  | inside
  | settled
  deriving DecidableEq

/- A request for a key, the link it waits for and what it carries. -/
structure Ticket (K A : Type) where
  key : K
  link : Option ℕ
  phase : Phase
  load : A

structure Lock (K A : Type) where
  tickets : List (Ticket K A)
  tails : K → Option ℕ

def empty : Lock K A := { tickets := [], tails := fun _ => none }

section Operations
variable [DecidableEq K]

def enter (l : Lock K A) (k : K) (load : A) : Lock K A :=
  { tickets := l.tickets ++ [{ key := k, link := l.tails k, phase := .waiting, load }]
    tails := Function.update l.tails k (some l.tickets.length) }

def linkSettled (l : Lock K A) : Option ℕ → Bool
  | none => true
  | some p => (l.tickets[p]?).any fun t => t.phase = .settled

def put (l : Lock K A) (i : ℕ) (t : Ticket K A) : Lock K A :=
  { l with tickets := l.tickets.set i t }

/- A waiting request goes on once its link has settled. -/
def start (l : Lock K A) (i : ℕ) : Lock K A :=
  match l.tickets[i]? with
  | none => l
  | some t =>
    if t.phase = .waiting ∧ linkSettled l t.link = true then put l i { t with phase := .inside }
    else l

def release (l : Lock K A) (i : ℕ) : Lock K A :=
  match l.tickets[i]? with
  | none => l
  | some t =>
    if t.phase = .settled ∧ l.tails t.key = some i then
      { l with tails := Function.update l.tails t.key none }
    else l

end Operations

section Chain

/- What the links and the recorded tails say about the requests of a key. -/
structure Chained (l : Lock K A) : Prop where
  linked : ∀ (j : ℕ) (t : Ticket K A), l.tickets[j]? = some t → ∀ p, t.link = some p → p < j ∧
    (∃ u, l.tickets[p]? = some u ∧ u.key = t.key) ∧
    ∀ (i : ℕ) (u : Ticket K A), p < i → i < j → l.tickets[i]? = some u → u.key ≠ t.key
  unlinked : ∀ (j : ℕ) (t : Ticket K A), l.tickets[j]? = some t → t.link = none →
    ∀ (i : ℕ) (u : Ticket K A), i < j → l.tickets[i]? = some u → u.key = t.key →
      u.phase = .settled
  tail : ∀ k p, l.tails k = some p → (∃ u, l.tickets[p]? = some u ∧ u.key = k) ∧
    ∀ (i : ℕ) (u : Ticket K A), p < i → l.tickets[i]? = some u → u.key ≠ k
  cleared : ∀ k, l.tails k = none →
    ∀ (i : ℕ) (u : Ticket K A), l.tickets[i]? = some u → u.key = k → u.phase = .settled
  ordered : ∀ (i j : ℕ) (t u : Ticket K A), i < j → l.tickets[i]? = some t →
    l.tickets[j]? = some u → t.key = u.key → u.phase ≠ .waiting → t.phase = .settled

variable {l : Lock K A} {i j : ℕ} {t u : Ticket K A}

theorem empty_chained : Chained (empty : Lock K A) where
  linked := by
    intro j t here
    cases here
  unlinked := by
    intro j t here
    cases here
  tail := by
    intro k p recorded
    cases recorded
  cleared := by
    intro k _ i u here
    cases here
  ordered := by
    intro i j t u _ here
    cases here

/-- At most one request of a key is inside. -/
theorem inside_unique (chained : Chained l) (here : l.tickets[i]? = some t)
    (there : l.tickets[j]? = some u) (same : t.key = u.key) (inside : t.phase = .inside)
    (inside' : u.phase = .inside) : i = j := by
  rcases Nat.lt_trichotomy i j with less | equal | more
  · have settled := chained.ordered i j t u less here there same (by rw [inside']; decide)
    rw [inside] at settled
    cases settled
  · exact equal
  · have settled := chained.ordered j i u t more there here same.symm (by rw [inside]; decide)
    rw [inside'] at settled
    cases settled

/-- Behind an inside request all of its key are waiting, in front of it all have settled. -/
theorem inside_between (chained : Chained l) (here : l.tickets[i]? = some t)
    (inside : t.phase = .inside) (there : l.tickets[j]? = some u) (same : u.key = t.key) :
    (j < i → u.phase = .settled) ∧ (i < j → u.phase = .waiting) := by
  constructor
  · intro less
    exact chained.ordered j i u t less there here same (by rw [inside]; decide)
  · intro more
    by_contra started
    have settled := chained.ordered i j t u more here there same.symm started
    rw [inside] at settled
    cases settled

theorem get_put (l : Lock K A) (i j : ℕ) (t : Ticket K A) (here : l.tickets[i]? = some u) :
    (put l i t).tickets[j]? = if i = j then some t else l.tickets[j]? := by
  have inside : i < l.tickets.length := (List.getElem?_eq_some_iff.mp here).1
  simp only [put, List.getElem?_set, inside, if_true]

/-- A request that moves on in its own time keeps the chain. -/
theorem put_chained {new : Ticket K A} (chained : Chained l) (here : l.tickets[i]? = some t)
    (key : new.key = t.key) (link : new.link = t.link)
    (kept : t.phase = .settled → new.phase = .settled)
    (started : new.phase ≠ .waiting → t.phase = .waiting →
      ∀ p, t.link = some p → ∃ u, l.tickets[p]? = some u ∧ u.phase = .settled) :
    Chained (put l i new) := by
  -- Every request of the new list stands for one of the old, no less settled.
  have old : ∀ (j : ℕ) (u : Ticket K A), (put l i new).tickets[j]? = some u →
      ∃ v : Ticket K A, l.tickets[j]? = some v ∧ u.key = v.key ∧ u.link = v.link ∧
        (v.phase = .settled → u.phase = .settled) := by
    intro j u found
    rw [get_put l i j new here] at found
    by_cases same : i = j
    · subst same
      rw [if_pos rfl, Option.some.injEq] at found
      subst found
      exact ⟨t, here, key, link, kept⟩
    · rw [if_neg same] at found
      exact ⟨u, found, rfl, rfl, fun settled => settled⟩
  have again : ∀ (j : ℕ) (v : Ticket K A), l.tickets[j]? = some v →
      ∃ u : Ticket K A, (put l i new).tickets[j]? = some u ∧ u.key = v.key := by
    intro j v found
    rw [get_put l i j new here]
    by_cases same : i = j
    · subst same
      rw [here, Option.some.injEq] at found
      exact ⟨new, if_pos rfl, by rw [key, found]⟩
    · exact ⟨v, by rw [if_neg same, found], rfl⟩
  constructor
  · intro j u found p linked
    obtain ⟨v, before, keys, links, _⟩ := old j u found
    obtain ⟨less, ⟨w, at_p, w_key⟩, between⟩ := chained.linked j v before p (links ▸ linked)
    refine ⟨less, ?_, ?_⟩
    · obtain ⟨w', at_p', w_key'⟩ := again p w at_p
      exact ⟨w', at_p', by rw [w_key', w_key, keys]⟩
    · intro m x low high found'
      obtain ⟨y, before', keys', _⟩ := old m x found'
      rw [keys', keys]
      exact between m y low high before'
  · intro j u found none m x less found' same
    obtain ⟨v, before, keys, links, _⟩ := old j u found
    obtain ⟨y, before', keys', _, settles⟩ := old m x found'
    exact settles (chained.unlinked j v before (links ▸ none) m y less before'
      (by rw [← keys', same, keys]))
  · intro k p recorded
    obtain ⟨⟨w, at_p, w_key⟩, later⟩ := chained.tail k p recorded
    refine ⟨?_, ?_⟩
    · obtain ⟨w', at_p', w_key'⟩ := again p w at_p
      exact ⟨w', at_p', by rw [w_key', w_key]⟩
    · intro m x more found
      obtain ⟨y, before, keys, _⟩ := old m x found
      rw [keys]
      exact later m y more before
  · intro k none m x found same
    obtain ⟨y, before, keys, _, settles⟩ := old m x found
    exact settles (chained.cleared k none m y before (by rw [← keys, same]))
  · intro m j x u less found found' same started'
    obtain ⟨y, before, keys, _, settles⟩ := old m x found
    apply settles
    rw [get_put l i j new here] at found'
    by_cases moved : i = j
    · subst moved
      rw [if_pos rfl, Option.some.injEq] at found'
      subst found'
      have keyed : y.key = t.key := by rw [← keys, same, key]
      by_cases waited : t.phase = .waiting
      · cases shape : t.link with
        | none => exact chained.unlinked i t here shape m y less before keyed
        | some p =>
          obtain ⟨w, at_p, settled⟩ := started started' waited p shape
          obtain ⟨_, ⟨w', at_p', w_key⟩, between⟩ := chained.linked i t here p shape
          rw [at_p, Option.some.injEq] at at_p'
          subst at_p'
          rcases Nat.lt_trichotomy m p with below | equal | above
          · exact chained.ordered m p y w below before at_p (keyed.trans w_key.symm)
              (by rw [settled]; decide)
          · subst equal
            rw [before, Option.some.injEq] at at_p
            rw [at_p, settled]
          · exact absurd keyed (between m y above less before)
      · exact chained.ordered m i y t less before here keyed waited
    · rw [if_neg moved] at found'
      exact chained.ordered m j y u less before found' (by rw [← keys, same]) started'

theorem start_chained (chained : Chained l) : Chained (start l i) := by
  unfold start
  split
  · exact chained
  · rename_i t here
    split
    · rename_i ready
      refine put_chained chained here ?_ ?_ ?_ ?_
      · rfl
      · rfl
      · intro settled
        rw [ready.1] at settled
        cases settled
      · intro _ _ p linked
        have settled := ready.2
        rw [linked, linkSettled, Option.any_eq_true] at settled
        obtain ⟨u, at_p, phase⟩ := settled
        exact ⟨u, at_p, of_decide_eq_true phase⟩
    · exact chained

end Chain

section Runs
variable [DecidableEq K] {l : Lock K A} {i j : ℕ} {t u : Ticket K A} {k : K} {load : A}

theorem get_enter (l : Lock K A) (k : K) (load : A) (j : ℕ) :
    (enter l k load).tickets[j]? =
      if j = l.tickets.length then some { key := k, link := l.tails k, phase := .waiting, load }
      else l.tickets[j]? := by
  rw [enter, List.getElem?_append]
  by_cases last : j = l.tickets.length
  · simp [last]
  · by_cases inside : j < l.tickets.length
    · simp [last, inside]
    · have past : j - l.tickets.length ≠ 0 := by omega
      simp [last, inside, past]

theorem enter_tails (l : Lock K A) (k : K) (load : A) :
    (enter l k load).tails = Function.update l.tails k (some l.tickets.length) := rfl

theorem enter_chained (chained : Chained l) : Chained (enter l k load) := by
  have bound {j : ℕ} {u : Ticket K A} (found : l.tickets[j]? = some u) : j < l.tickets.length :=
    (List.getElem?_eq_some_iff.mp found).1
  have cases_of : ∀ (j : ℕ) (u : Ticket K A), (enter l k load).tickets[j]? = some u →
      j = l.tickets.length ∧ u = { key := k, link := l.tails k, phase := .waiting, load } ∨
        j < l.tickets.length ∧ l.tickets[j]? = some u := by
    intro j u found
    rw [get_enter] at found
    by_cases last : j = l.tickets.length
    · rw [if_pos last, Option.some.injEq] at found
      exact Or.inl ⟨last, found.symm⟩
    · rw [if_neg last] at found
      exact Or.inr ⟨bound found, found⟩
  have kept : ∀ (j : ℕ) (u : Ticket K A), l.tickets[j]? = some u → (enter l k load).tickets[j]? = some u := by
    intro j u found
    have inside := bound found
    rw [get_enter, if_neg (by omega), found]
  constructor
  · intro j u found p linked
    rcases cases_of j u found with ⟨rfl, rfl⟩ | ⟨inside, before⟩
    · obtain ⟨⟨w, at_p, w_key⟩, later⟩ := chained.tail k p linked
      refine ⟨bound at_p, ⟨w, kept p w at_p, w_key⟩, ?_⟩
      intro m x low high found'
      rcases cases_of m x found' with ⟨rfl, _⟩ | ⟨_, before'⟩
      · exact absurd high (Nat.lt_irrefl _)
      · exact later m x low before'
    · obtain ⟨less, ⟨w, at_p, w_key⟩, between⟩ := chained.linked j u before p linked
      refine ⟨less, ⟨w, kept p w at_p, w_key⟩, ?_⟩
      intro m x low high found'
      rcases cases_of m x found' with ⟨rfl, _⟩ | ⟨_, before'⟩
      · omega
      · exact between m x low high before'
  · intro j u found none m x less found' same
    rcases cases_of m x found' with ⟨rfl, _⟩ | ⟨_, before'⟩
    · rcases cases_of j u found with ⟨rfl, _⟩ | ⟨inside, _⟩
      · exact absurd less (Nat.lt_irrefl _)
      · omega
    · rcases cases_of j u found with ⟨rfl, rfl⟩ | ⟨_, before⟩
      · exact chained.cleared k none m x before' same
      · exact chained.unlinked j u before none m x less before' same
  · intro key p recorded
    by_cases own : key = k
    · subst own
      rw [enter_tails, Function.update_self, Option.some.injEq] at recorded
      subst recorded
      refine ⟨⟨_, by rw [get_enter, if_pos rfl], rfl⟩, ?_⟩
      intro m x more found
      rcases cases_of m x found with ⟨rfl, _⟩ | ⟨inside, _⟩
      · exact absurd more (Nat.lt_irrefl _)
      · omega
    · rw [enter_tails, Function.update_of_ne own] at recorded
      obtain ⟨⟨w, at_p, w_key⟩, later⟩ := chained.tail key p recorded
      refine ⟨⟨w, kept p w at_p, w_key⟩, ?_⟩
      intro m x more found
      rcases cases_of m x found with ⟨_, rfl⟩ | ⟨_, before⟩
      · exact fun same => own same.symm
      · exact later m x more before
  · intro key none m x found same
    by_cases own : key = k
    · subst own
      rw [enter_tails, Function.update_self] at none
      cases none
    · rw [enter_tails, Function.update_of_ne own] at none
      rcases cases_of m x found with ⟨_, rfl⟩ | ⟨_, before⟩
      · exact absurd same.symm own
      · exact chained.cleared key none m x before same
  · intro m j x u less found found' same started
    rcases cases_of j u found' with ⟨_, rfl⟩ | ⟨inside, before'⟩
    · exact absurd rfl started
    · rcases cases_of m x found with ⟨rfl, _⟩ | ⟨_, before⟩
      · omega
      · exact chained.ordered m j x u less before before' same started

/-- The last link may go once it has settled: all of its key have. -/
theorem release_chained (chained : Chained l) : Chained (release l i) := by
  unfold release
  split
  · exact chained
  · rename_i t here
    split
    · rename_i done
      obtain ⟨settled, recorded⟩ := done
      obtain ⟨_, later⟩ := chained.tail t.key i recorded
      refine ⟨chained.linked, chained.unlinked, ?_, ?_, chained.ordered⟩
      · intro key p recorded'
        dsimp only at recorded'
        by_cases own : key = t.key
        · subst own
          rw [Function.update_self] at recorded'
          cases recorded'
        · rw [Function.update_of_ne own] at recorded'
          exact chained.tail key p recorded'
      · intro key none m x found same
        dsimp only at none
        by_cases own : key = t.key
        · subst own
          rcases Nat.lt_trichotomy m i with below | equal | above
          · exact chained.ordered m i x t below found here same (by rw [settled]; decide)
          · subst equal
            rw [here, Option.some.injEq] at found
            rw [← found, settled]
          · exact absurd same (later m x above found)
        · rw [Function.update_of_ne own] at none
          exact chained.cleared key none m x found same
    · exact chained

end Runs
end ChainedLock
