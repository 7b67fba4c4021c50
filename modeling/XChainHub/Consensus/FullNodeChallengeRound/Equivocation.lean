import XChainHub.Consensus.FullNodeChallengeRound.Verdicts

/-!
What this hub signs as a verdict, as the leader that proposes a list and as a verifier that
co-signs one. No record of it outlives the handler: the list is held against the answers of the
moment, and the header gives every verdict of a challenge the view 0.
-/
namespace XChainHub.FullNodeChallengeRound
open TornLog GuardedRuns EquivocationHeader

/- A verdict at its signature, with the claimants confirmed at the time. -/
structure Signing where
  challengeId : String
  epoch : ℕ
  confirmed : List String
  pass : List String
  deriving DecidableEq

/- The hub with the verdicts that it signed. -/
structure Verifier where
  hub : Hub
  signed : List Signing

def Verifier.started (disk : TornLog.Log Record) (made : ℕ) : Verifier :=
  ⟨Hub.started disk made [], []⟩

section Signing
variable (cfg : Params)

/- The payload that is signed. -/
def Signing.canonical (x : Signing) : String :=
  verdictCanonical cfg x.challengeId x.epoch (sortedPass x.pass)

def signingOf (st : Round) (epoch : ℕ) (pass : List String) (answer : String) : Signing :=
  ⟨st.challengeId, epoch, confirmedClaimants cfg st answer, pass⟩

/- closeCollection signs the list it proposes. -/
def proposing (h : Hub) (epoch : ℕ) : List Signing :=
  match h.rounds.get epoch with
  | none => []
  | some st =>
    match st.myAnswer with
    | none => []
    | some answer =>
      if (proposePass cfg h epoch).2 then
        [signingOf cfg st epoch (confirmedClaimants cfg st answer) answer]
      else []

def proposingAt (tip : ℕ) (h : Hub) (epoch : ℕ) : List Signing :=
  match closedAt cfg tip h epoch with
  | none => []
  | some closed => proposing cfg closed epoch

def proposingsAt (gates : ℕ → Gate) (tip : ℕ) : Hub → List ℕ → List Signing
  | _, [] => []
  | h, epoch :: rest =>
    proposingAt cfg tip h epoch ++
      match visitRound cfg gates tip h epoch with
      | .ok h => proposingsAt gates tip h rest
      | .error _ => []

def signings (h : Hub) : Event → List Signing
  | .tipRead gates tip =>
    match h.ticking, tip with
    | some .tip, some tip => proposingsAt cfg gates tip h h.rounds.keys.items
    | _, _ => []
  | .onSignReq d =>
    match coSigning cfg h (.onSignReq d) with
    | none => []
    | some (st, pass) => (st.myAnswer.map (signingOf cfg st d.epoch pass)).toList
  | .signReqAnswered n answer =>
    match coSigning cfg h (.signReqAnswered n answer), h.requests[n]?.join, answer with
    | some (st, pass), some req, some answer => [signingOf cfg st req.epoch pass answer]
    | _, _, _ => []
  | _ => []

def signs (v : Verifier) (e : Event) : Verifier := ⟨step cfg v.hub e, v.signed ++ signings cfg v.hub e⟩

/- Of two verdicts on one challenge: the hub had confirmed the same claimants, and the lists
   name each of them equally often. -/
structure Alike (x y : Signing) : Prop where
  epoch : y.epoch = x.epoch
  confirmed : y.confirmed.Perm x.confirmed
  named : ∀ pk ∈ x.confirmed, y.pass.count pk = x.pass.count pk

instance (x y : Signing) : Decidable (Alike x y) :=
  decidable_of_iff (y.epoch = x.epoch ∧ y.confirmed.Perm x.confirmed ∧
      ∀ pk ∈ x.confirmed, y.pass.count pk = x.pass.count pk)
    ⟨fun all => ⟨all.1, all.2.1, all.2.2⟩, fun alike => ⟨alike.epoch, alike.confirmed, alike.named⟩⟩

/- Each verdict that the event has this hub sign is like those signed on its challenge. -/
def Steady (v : Verifier) (e : Event) : Prop :=
  ∀ x ∈ signings cfg v.hub e, ∀ y ∈ v.signed ++ signings cfg v.hub e,
    y.challengeId = x.challengeId → Alike x y

instance (v : Verifier) (e : Event) : Decidable (Steady cfg v e) :=
  inferInstanceAs (Decidable (∀ x ∈ signings cfg v.hub e,
    ∀ y ∈ v.signed ++ signings cfg v.hub e, y.challengeId = x.challengeId → Alike x y))

end Signing

section Judged
variable {cfg : Params} {h : Hub} {st : Round} {x y : Signing} {pass : List String} {answer : String}

/- The list is that of the claimants confirmed at the time. -/
def Judged (x : Signing) : Prop := ∀ pk, pk ∈ x.pass ↔ pk ∈ x.confirmed

theorem mem_confirmed {pk : String} : pk ∈ confirmedClaimants cfg st answer ↔
    pk ∈ st.claimants ∧
      st.answers.get pk = some (answerDigest cfg st.challengeId pk answer) := by
  rw [confirmedClaimants, List.mem_filter, decide_eq_true_eq]
  exact Iff.rfl

/-- A list that passes holds just the claimants confirmed. -/
theorem confirmed_judged (confirmed : passConfirmed cfg st pass answer = true) (epoch : ℕ) :
    Judged (signingOf cfg st epoch pass answer) := by
  simp only [passConfirmed, Bool.and_eq_true, List.all_eq_true, decide_eq_true_eq, Bool.or_eq_true,
    Bool.not_eq_true', decide_eq_false_iff_not] at confirmed
  obtain ⟨listed, complete⟩ := confirmed
  intro pk
  constructor
  · intro member
    exact mem_confirmed.mpr (listed pk member)
  · intro member
    obtain ⟨claims, digest⟩ := mem_confirmed.mp member
    rcases complete (pk, _) (OrderedMap.mem_of_get digest) with other | inside
    · exact absurd ⟨claims, rfl⟩ other
    · exact inside

theorem proposing_judged {epoch : ℕ} (member : x ∈ proposing cfg h epoch) : Judged x := by
  unfold proposing at member
  split at member
  · simp at member
  · split at member
    · simp at member
    · split at member
      · rw [List.mem_singleton.mp member]
        exact fun pk => Iff.rfl
      · simp at member

theorem proposing_at_judged {tip epoch : ℕ} (member : x ∈ proposingAt cfg tip h epoch) :
    Judged x := by
  unfold proposingAt at member
  split at member
  · simp at member
  · exact proposing_judged member

theorem proposings_judged {gates : ℕ → Gate} {tip : ℕ} {epochs : List ℕ}
    (member : x ∈ proposingsAt cfg gates tip h epochs) : Judged x := by
  induction epochs generalizing h with
  | nil => simp [proposingsAt] at member
  | cons epoch rest ih =>
    rcases List.mem_append.mp member with here | later
    · exact proposing_at_judged here
    · split at later
      · exact ih later
      · simp at later

theorem signings_judged {e : Event} (member : x ∈ signings cfg h e) : Judged x := by
  cases e with
  | tipRead gates tip =>
    simp only [signings] at member
    split at member
    · exact proposings_judged member
    · simp at member
  | onSignReq d =>
    simp only [signings] at member
    split at member
    · simp at member
    · rename_i st pass coSigned
      rw [Option.mem_toList, Option.map_eq_some_iff] at member
      obtain ⟨answer, own, rfl⟩ := member
      simp only [coSigning] at coSigned
      split at coSigned
      · split at coSigned
        · simp at coSigned
        · obtain ⟨judged, filtered, same⟩ := Option.map_eq_some_iff.mp coSigned
          obtain ⟨rfl, rfl⟩ := Prod.mk.inj same
          obtain ⟨found, confirmed⟩ := Option.filter_eq_some_iff.mp filtered
          rw [own, Option.some.injEq] at found
          subst found
          exact confirmed_judged confirmed _
      · simp at coSigned
  | signReqAnswered n answer =>
    simp only [signings] at member
    split at member
    · rename_i parked coSigned
      rw [List.mem_singleton.mp member]
      simp only [coSigning] at coSigned
      split at coSigned
      · rename_i same _
        obtain rfl := Option.some.inj same
        obtain ⟨round, -, judged⟩ := Option.bind_eq_some_iff.mp coSigned
        split at judged
        · rename_i both
          simp only [Option.some.injEq, Prod.mk.injEq] at judged
          obtain ⟨rfl, rfl⟩ := judged
          rw [Bool.and_eq_true] at both
          exact confirmed_judged both.2 _
        · simp at judged
      · simp at coSigned
    · simp at member
  | _ => simp [signings] at member

/-- Lists of the same members, named equally often, are signed as one text. -/
theorem alike_canonical (first : Judged x) (second : Judged y)
    (challenge : y.challengeId = x.challengeId) (alike : Alike x y) :
    y.canonical cfg = x.canonical cfg := by
  have lists : y.pass.Perm x.pass := by
    rw [List.perm_iff_count]
    intro pk
    by_cases inside : pk ∈ x.confirmed
    · exact alike.named pk inside
    · have absent : pk ∉ y.confirmed := fun held => inside (alike.confirmed.subset held)
      rw [List.count_eq_zero_of_not_mem (fun held => inside ((first pk).mp held)),
        List.count_eq_zero_of_not_mem (fun held => absent ((second pk).mp held))]
  have sorted : sortedPass y.pass = sortedPass x.pass :=
    ((List.perm_insertionSort (· ≤ ·) y.pass).trans
      (lists.trans (List.perm_insertionSort (· ≤ ·) x.pass).symm)).eq_of_pairwise
      (fun a b _ _ below above => String.le_antisymm below above)
      (List.pairwise_insertionSort (· ≤ ·) y.pass) (List.pairwise_insertionSort (· ≤ ·) x.pass)
  rw [Signing.canonical, Signing.canonical, challenge, alike.epoch, sorted]

end Judged

section Runs
variable {cfg : Params} {v : Verifier}

/- Every list was judged, and the verdicts signed on one challenge are like one another. -/
structure OneVerdict (v : Verifier) : Prop where
  judged : ∀ x ∈ v.signed, Judged x
  alike : ∀ x ∈ v.signed, ∀ y ∈ v.signed, y.challengeId = x.challengeId → Alike x y

theorem Alike.symm {x y : Signing} (alike : Alike x y) : Alike y x := by
  refine ⟨alike.epoch.symm, alike.confirmed.symm, ?_⟩
  intro pk member
  exact (alike.named pk (alike.confirmed.subset member)).symm

theorem OneVerdict.signs (one : OneVerdict v) {e : Event} (steady : Steady cfg v e) :
    OneVerdict (signs cfg v e) := by
  constructor
  · intro x member
    rcases List.mem_append.mp member with old | new
    · exact one.judged x old
    · exact signings_judged new
  · intro x first y second same
    rcases List.mem_append.mp first with old | new
    · rcases List.mem_append.mp second with old' | new'
      · exact one.alike x old y old' same
      · exact (steady y new' x first same.symm).symm
    · exact steady x new y second same

/- The hub of the verdict samples, with headers from the first block on. -/
def headedParams : Params := { verdictParams with equivActivation := fun _ => some 0 }

/- The leader asks twice for one list. -/
def repeatedRun : List Event :=
  openedEpoch ++ [answerFrom firstKey 51, proposed [firstKey], proposed [firstKey]]

def repeatedDecided : { events : List Event //
    Admitted (signs headedParams) (Steady headedParams) (.started TornLog.Log.empty 0) events ∧
      (run (signs headedParams) (.started TornLog.Log.empty 0) events).signed.length = 2 } :=
  ⟨repeatedRun, by decide +kernel⟩

/- A second claimant answers between two requests of the leader. -/
def grownRun : List Event :=
  openedEpoch ++ [answerFrom firstKey 51, proposed [firstKey], answerFrom secondKey 68,
    proposed [firstKey, secondKey]]

end Runs

end XChainHub.FullNodeChallengeRound
