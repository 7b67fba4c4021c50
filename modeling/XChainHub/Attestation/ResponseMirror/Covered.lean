import XChainHub.Library.GuardedRuns
import XChainHub.Attestation.ResponseMirror.Mirror

/-!
A stored row whose signer columns are replaced: whether its signatures still cover the
content beside them.
-/
namespace XChainHub.ResponseMirror
open SlotHeap (slotAt)
open GuardedRuns (run)

section Signing

/- buildCanonical reads the key and the body of a row, not its signer columns. -/
structure Signing where
  request : String → Request
  sha256 : String → String
  canonical : String × ℕ → Body → String
  verify : String → Signature → Bool

def Signing.context (s : Signing) : Context :=
  ⟨s.request, s.sha256, fun row signature => s.verify (s.canonical row.key row.body) signature⟩

end Signing

section Absorb
variable (ctx : Context)

/- convergeSignerSet gets as far as the statement: a listed request of the mirror era, both
   snapshots read, the row verified and ahead of the set that was read. -/
def replaces (held row : Row) (latestBlock : Option ℕ) (verified ranked : Bool) : Bool :=
  !sameSignerList held.signerPubkeys row.signerPubkeys &&
    latestBlock.any fun tip => (ctx.request row.requestId).mirrorEra &&
      (verified && verifyGossipedRow ctx row tip) && (ranked && outranks ctx row held tip)

/- rows is the table as the statement finds it, held the row as it was read before. -/
def absorbHeldRow (rows : Rows) (held row : Row) (latestBlock : Option ℕ) (verified ranked : Bool) : Rows :=
  if replaces ctx held row latestBlock verified ranked then
    updateAttestationResponseSignerSet rows held row
  else rows

/- The row under other signer columns. -/
def Row.signedAs (stored row : Row) : Row :=
  { stored with signerPubkeys := row.signerPubkeys, signatures := row.signatures }

variable {ctx} {rows : Rows} {held row stored : Row} {latestBlock : Option ℕ} {verified ranked : Bool}

theorem finish_last {h : Hub} {n : ℕ} {t : Task} (last : t.rest = []) :
    h.finish n t = { h with tasks := h.tasks.set n none } := by
  rw [Hub.finish, last]

theorem idle_resumes {h : Hub} {n : ℕ} (idle : slotAt h.tasks n = none) (answers : List (Option ℕ)) :
    run (step ctx) h (answers.map (Event.resume n)) = h := by
  induction answers with
  | nil => rfl
  | cons answer answers ih =>
    rw [List.map_cons, run, List.foldl_cons, step, idle]
    exact ih

theorem held_resumes {h : Hub} {n : ℕ} {t : Task} (held : slotAt h.tasks n = some t) (answer : Option ℕ)
    (answers : List (Option ℕ)) : run (step ctx) h ((answer :: answers).map (Event.resume n)) =
      run (step ctx) (resume ctx h n t answer) (answers.map (Event.resume n)) := by
  rw [List.map_cons, run, List.foldl_cons, step, held]
  rfl

/-- The awaits of one delivered row, taken together, leave the table as absorbHeldRow says. -/
theorem absorb_resumes (ctx : Context) {h : Hub} {n : ℕ} (latestBlock : Option ℕ) (verified ranked : Bool)
    (under : slotAt h.tasks n = some ⟨row, false, [], .read (some held)⟩) :
    (run (step ctx) h ([none, latestBlock, if verified then some 0 else none,
      if ranked then some 0 else none, none].map (Event.resume n))).rows =
      absorbHeldRow ctx h.rows held row latestBlock verified ranked := by
  have ended : ∀ {h' : Hub} {t : Task} (answers : List (Option ℕ)), slotAt h'.tasks n = some t →
      t.rest = [] → run (step ctx) (h'.finish n t) (answers.map (Event.resume n)) =
        { h' with tasks := h'.tasks.set n none } := by
    intro h' t answers here last
    rw [finish_last last]
    exact idle_resumes (SlotHeap.slot_set_same here) answers
  have going : ∀ {h' : Hub} {t : Task} (t' : Task), slotAt h'.tasks n = some t →
      slotAt (h'.next n t').tasks n = some t' := fun _ here => SlotHeap.slot_set_same here
  rw [held_resumes under]
  simp only [resume]
  by_cases same : sameSignerList held.signerPubkeys row.signerPubkeys = true
  · rw [if_pos same, ended _ under rfl]
    simp [absorbHeldRow, replaces, same]
  rw [if_neg same, held_resumes (going _ under)]
  have resolving := going ⟨row, false, [], .converge held⟩ under
  cases latestBlock with
  | none =>
    simp only [resume]
    rw [ended _ resolving rfl]
    simp [absorbHeldRow, replaces, Hub.next]
  | some tip =>
    simp only [resume]
    by_cases era : (ctx.request row.requestId).mirrorEra = true
    swap
    · rw [if_neg era, ended _ resolving rfl]
      simp [absorbHeldRow, replaces, era, Hub.next]
    rw [if_pos era, held_resumes (going _ resolving)]
    have verifying := going ⟨row, false, [], .convergeVerify held tip⟩ resolving
    simp only [resume]
    by_cases sound : verified = true ∧ verifyGossipedRow ctx row tip = true
    swap
    · rw [if_neg (by cases verified <;> simp_all), ended _ verifying rfl]
      have stays : (verified && verifyGossipedRow ctx row tip) = false := by
        rw [← Bool.not_eq_true, Bool.and_eq_true]
        exact sound
      simp [absorbHeldRow, replaces, stays, Hub.next]
    obtain ⟨rfl, sound⟩ := sound
    rw [if_pos (by simp [sound]), held_resumes (going _ verifying)]
    have ranking := going ⟨row, false, [], .rank held tip⟩ verifying
    simp only [resume]
    by_cases ahead : ranked = true ∧ outranks ctx row held tip = true
    swap
    · rw [if_neg (by cases ranked <;> simp_all), ended _ ranking rfl]
      have stays : (ranked && outranks ctx row held tip) = false := by
        rw [← Bool.not_eq_true, Bool.and_eq_true]
        exact ahead
      simp [absorbHeldRow, replaces, stays, Hub.next]
    obtain ⟨rfl, ahead⟩ := ahead
    rw [if_pos (by simp [ahead]), held_resumes (going _ ranking)]
    have fires : replaces ctx held row (some tip) true true = true := by
      simp [replaces, same, era, sound, ahead]
    rw [absorbHeldRow, if_pos fires]
    rfl

/-- A stored row that verifies still does after another row of its key is absorbed, exactly
    where its signer columns stay, or the other row has its content, or as many of the
    other's signatures as are needed cover the stored content too. -/
theorem absorbed_row_verifies_iff (s : Signing) {rows : Rows} {held row stored : Row} {tip : ℕ}
    {verified ranked : Bool} (present : rows.get row.key = some stored) (keyed : stored.key = row.key)
    (sound : verifyGossipedRow s.context stored tip = true) :
    (∀ after, (absorbHeldRow s.context rows held row (some tip) verified ranked).get row.key = some after →
      verifyGossipedRow s.context after tip = true) ↔
    (replaces s.context held row (some tip) verified ranked = true →
      stored.signatures = held.signatures → row.body = stored.body ∨
        max 1 (s.request stored.requestId).redundancy ≤
          validSignatures s.context (stored.signedAs row) tip) := by
  have content : verifyGossipedRow s.context (stored.signedAs row) tip = true ↔
      max 1 (s.request stored.requestId).redundancy ≤
        validSignatures s.context (stored.signedAs row) tip := by
    simp only [verifyGossipedRow, Bool.and_eq_true, decide_eq_true_eq] at sound ⊢
    exact and_iff_right sound.1
  rw [← content]
  by_cases fires : replaces s.context held row (some tip) verified ranked = true
  swap
  · rw [absorbHeldRow, if_neg fires]
    refine iff_of_true (fun after found => ?_) (fun yes => absurd yes fires)
    rw [present, Option.some.injEq] at found
    rwa [← found]
  rw [absorbHeldRow, if_pos fires, updateAttestationResponseSignerSet, present]
  dsimp only
  by_cases unchanged : stored.signatures = held.signatures
  swap
  · rw [if_neg unchanged]
    refine iff_of_true (fun after found => ?_) (fun _ same => absurd same unchanged)
    rw [present, Option.some.injEq] at found
    rwa [← found]
  rw [if_pos unchanged]
  have written : ∀ P : Row → Prop, (∀ after, (rows.set row.key (stored.signedAs row)).get row.key =
      some after → P after) ↔ P (stored.signedAs row) := by
    intro P
    rw [OrderedMap.get_set_same]
    exact ⟨fun all => all _ rfl, by rintro holds _ ⟨⟩; exact holds⟩
  refine (written fun after => verifyGossipedRow s.context after tip = true).trans ?_
  constructor
  · exact fun covered _ _ => Or.inr covered
  · intro covers
    rcases covers fires unchanged with same | covered
    · have whole : stored.signedAs row = row := by
        obtain ⟨⟩ := row
        obtain ⟨⟩ := stored
        simp only [Row.key, Prod.mk.injEq] at keyed
        simp only at same
        simp [Row.signedAs, keyed, same]
      rw [whole]
      simp only [replaces, Option.any_some, Bool.and_eq_true] at fires
      exact fires.2.1.2.2
    · exact covered

section Samples

/- Two validators of three must sign; a signature names its key and what it covers. -/
def coveringSigning : Signing where
  request := fun _ => ⟨2, true, false, [⟨"a", none⟩, ⟨"b", none⟩, ⟨"c", none⟩], fun _ => 1⟩
  sha256 := fun text => text
  canonical := fun key body => key.1 ++ body.responsePayload
  verify := fun text s => s.sig = s.pubkey ++ text

def signedRow (payload : String) (signers : List String) : Row :=
  ⟨"q", 7, ⟨"http_get", "ok", payload, payload, "", none⟩, signers,
    signers.map fun k => ⟨k, k ++ ("q" ++ payload)⟩⟩

def storedRows (row : Row) : Rows := OrderedMap.empty.set row.key row

theorem row_absorbed_in_turn :
    (run (step coveringSigning.context) ⟨storedRows (signedRow "x" ["a", "c"]), OrderedMap.empty,
        [some ⟨signedRow "x" ["a", "b"], false, [], .read (some (signedRow "x" ["a", "c"]))⟩], []⟩
        ([none, some 100, some 0, some 0, none].map (Event.resume 0))).rows =
      absorbHeldRow coveringSigning.context (storedRows (signedRow "x" ["a", "c"]))
        (signedRow "x" ["a", "c"]) (signedRow "x" ["a", "b"]) (some 100) true true :=
  absorb_resumes coveringSigning.context (some 100) true true rfl

/-- The same content under lower-ranked signers takes the place of the held set, and the row verifies. -/
theorem same_content_verifies :
    verifyGossipedRow coveringSigning.context
      ((signedRow "x" ["a", "c"]).signedAs (signedRow "x" ["a", "b"])) 100 = true :=
  (@absorbed_row_verifies_iff coveringSigning (storedRows (signedRow "x" ["a", "c"]))
    (signedRow "x" ["a", "c"]) (signedRow "x" ["a", "b"]) (signedRow "x" ["a", "c"]) 100 true true
    (by decide) rfl (by decide)).mpr (fun _ _ => Or.inl rfl) _ (by decide)

/-- Signers of other content replace the held set, and the row no longer verifies. -/
theorem other_content_uncovered :
    ¬ ∀ (s : Signing) (rows : Rows) (held row stored : Row) (tip : ℕ) (verified ranked : Bool),
      rows.get row.key = some stored → stored.key = row.key →
      verifyGossipedRow s.context stored tip = true →
      ∀ after, (absorbHeldRow s.context rows held row (some tip) verified ranked).get row.key = some after →
        verifyGossipedRow s.context after tip = true := by
  intro always
  have broken := always coveringSigning (storedRows (signedRow "x" ["a", "c"])) (signedRow "x" ["a", "c"])
    (signedRow "y" ["a", "b"]) (signedRow "x" ["a", "c"]) 100 true true (by decide) rfl (by decide)
    ((signedRow "x" ["a", "c"]).signedAs (signedRow "y" ["a", "b"])) (by decide)
  exact absurd broken (by decide)

end Samples
end Absorb
end XChainHub.ResponseMirror
