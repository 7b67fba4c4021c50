import XChainHub.CrossChain.ListShare.Chain

/-!
What a chain of versions folds to, and that a follower holding the chain before a version
passes it, over any sequence of polls.
-/
namespace XChainHub.ListShare
open HexText CanonicalInt

section Property
variable (sha256 : Sha256) (list : ListRef)

def foldOf (rows : List Row) : Option (List String) :=
  (normalizeHeldRows rows).bind (foldListChain sha256)

/-- A version that folds, with the rows before it, to what was read; numbered next; later than
    every row before it; and passed by a follower that holds those and makes the same read. -/
structure Extends (front : List Row) (row : Row) (read : Read) : Prop where
  folds : foldOf sha256 (front ++ [row]) = some read.members
  numbered : row.seq = front.length + 1
  later : ∀ before ∈ front, before.originBlock < row.originBlock
  held : heldRowVerdict row none front.length (front.getLast?.map Row.originBlock) = .pass
  shape : listRowShapeOk row list.network = true
  transport : listTransportOk row read.members (foldOf sha256 front) = true

end Property

section Folds
variable {sha256 : Sha256} {rows : List Row} {row : Row}

theorem normalize_append {chain : List ChainRow} {last : ChainRow} (front : normalizeHeldRows rows = some chain)
    (new : normalizeHeldRow row = some last) : normalizeHeldRows (rows ++ [row]) = some (chain ++ [last]) := by
  rw [normalizeHeldRows] at front ⊢
  simp [List.mapM_append, front, new]

/- What the rows of a chain leave: they fold to canonical members that the last row's hash is of,
   and the last row is the latest, at a height no lower than its number. -/
structure Chained (sha256 : Sha256) (rows : List Row) (members : List String) : Prop where
  folds : ∃ chain, normalizeHeldRows rows = some chain ∧
    chain.foldl (foldRow sha256) (some (0, [])) = some (rows.length, members)
  canonical : isCanonicalOrder members = true
  hashed : ∀ last ∈ rows.getLast?, listMembersHash sha256 members = last.membersHash
  ordered : ∀ last ∈ rows.getLast?, ∀ row ∈ rows, row.originBlock ≤ last.originBlock
  counted : ∀ last ∈ rows.getLast?, rows.length ≤ last.originBlock

theorem chained_nil : Chained sha256 [] [] where
  folds := ⟨[], rfl, rfl⟩
  canonical := rfl
  hashed := by
    rintro last ⟨⟩
  ordered := by
    rintro last ⟨⟩
  counted := by
    rintro last ⟨⟩

theorem chained_fold {members : List String} (chained : Chained sha256 rows members) (filled : rows ≠ []) :
    foldOf sha256 rows = some members := by
  obtain ⟨chain, normal, folded⟩ := chained.folds
  have some_row : chain ≠ [] := by
    rintro rfl
    rw [List.foldl_nil, Option.some.injEq, Prod.mk.injEq] at folded
    exact filled (List.length_eq_zero_iff.mp folded.1.symm)
  rw [foldOf, normal, Option.bind_some, foldListChain, if_neg some_row, folded]
  rfl

end Folds

section Versions
variable {sha256 : Sha256} {list : ListRef} {rows : List Row} {members : List String} {poll : Poll}
  {v : Version}

/- What a planned version says, beside the members it was read from. -/
structure Planned (sha256 : Sha256) (rows : List Row) (members : List String) (poll : Poll)
    (v : Version) : Prop where
  typed : v.listType = 1 ∨ v.listType = 2
  canonical : isCanonicalOrder poll.read.members = true
  hashed : listMembersHash sha256 poll.read.members = v.membersHash
  numbered : v.seq = rows.length + 1
  origin : v.originBlock = poll.originBlock.val
  later : ∀ last ∈ rows.getLast?, last.originBlock < v.originBlock
  content : (rows = [] ∧ v.kind = .full ∧ v.added = poll.read.members ∧ v.removed = []) ∨
    (rows ≠ [] ∧ v.kind = .delta ∧ v.added = (listDelta members poll.read.members).1 ∧
      v.removed = (listDelta members poll.read.members).2)
  metaHash : ∀ hash ∈ v.metaHash, hash = "" ∨ LowerHex 64 hash

theorem plan_delta_version {latest : Row} (last : rows.getLast? = some latest)
    (chained : Chained sha256 rows members) (typed : poll.read.type = 1 ∨ poll.read.type = 2)
    (canonical : isCanonicalOrder poll.read.members = true)
    (hashed : listMembersHash sha256 poll.read.members = poll.read.hash)
    (meta' : ∀ hash ∈ (if poll.metaActive then poll.read.metaHash else none),
      hash = "" ∨ LowerHex 64 hash)
    (planned : planDelta sha256 poll.read poll.originBlock rows.length latest (foldOf sha256 rows)
      poll.metaActive = .version v) : Planned sha256 rows members poll v := by
  have filled : rows ≠ [] := by
    rintro rfl
    exact absurd last (by simp)
  rw [chained_fold chained filled] at planned
  simp only [planDelta] at planned
  split at planned
  · exact absurd planned (by simp)
  · split at planned
    · exact absurd planned (by simp)
    · split at planned
      · exact absurd planned (by simp)
      · split at planned
        · exact absurd planned (by simp)
        · rename_i after
          cases planned
          refine ⟨typed, canonical, hashed, rfl, rfl, ?_, Or.inr ⟨filled, rfl, rfl, rfl⟩, meta'⟩
          intro row isLast
          rw [last] at isLast
          cases isLast
          exact Nat.lt_of_not_le after

theorem plan_version (chained : Chained sha256 rows members)
    (planned : planListVersion sha256 poll.read poll.originBlock (heldListState sha256 rows)
      poll.metaActive = .version v) : Planned sha256 rows members poll v := by
  simp only [planListVersion] at planned
  split at planned
  · exact absurd planned (by simp)
  · rename_i typed
    split at planned
    · exact absurd planned (by simp)
    · rename_i ordered
      split at planned
      · exact absurd planned (by simp)
      · rename_i hashed
        split at planned
        · exact absurd planned (by simp)
        · split at planned
          · exact absurd planned (by simp)
          · rename_i metaHashed
            split at planned
            · exact absurd planned (by simp)
            · have typed' : poll.read.type = 1 ∨ poll.read.type = 2 := by omega
              have canonical := eq_true_of_ne_false ordered
              have hashed' := Decidable.not_not.mp hashed
              have meta' : ∀ hash ∈ (if poll.metaActive then poll.read.metaHash else none),
                  hash = "" ∨ LowerHex 64 hash := by
                intro hash named
                split at named
                · rename_i active
                  have same := Decidable.not_not.mp (fun other => metaHashed ⟨active, other⟩)
                  rw [same] at named
                  cases named
                  exact meta_hash_hex _ _
                · exact absurd named (by simp)
              split at planned
              · rename_i none'
                have nil := List.length_eq_zero_iff.mp none'
                cases planned
                refine ⟨typed', canonical, hashed', by simp [makeVersion, nil], rfl, ?_,
                  Or.inl ⟨nil, rfl, rfl, rfl⟩, meta'⟩
                intro last isLast
                simp [nil] at isLast
              · split at planned
                · exact absurd planned (by simp)
                · rename_i latest last
                  exact plan_delta_version last chained typed' canonical hashed' meta' planned

theorem built_normalizes (list : ListRef) (v : Version) (snapshotBlock : SafeNat) :
    normalizeHeldRow (buildListSnapshotRow list v snapshotBlock) =
      some ⟨v.seq, v.kind, v.added, v.removed, v.membersHash⟩ := by
  simp [normalizeHeldRow, buildListSnapshotRow, parse_members_text]

/-- The planned version leads from the members held to the members read. -/
theorem planned_members (chained : Chained sha256 rows members) (planned : Planned sha256 rows members poll v) :
    foldMembers rows.length members ⟨v.seq, v.kind, v.added, v.removed, v.membersHash⟩ =
      some poll.read.members := by
  rcases planned.content with ⟨nil, kind, added, removed⟩ | ⟨filled, kind, added, removed⟩
  · simp [foldMembers, nil, kind, added, removed, planned.canonical]
  · have some_row : rows.length ≠ 0 := fun none' => filled (List.length_eq_zero_iff.mp none')
    simp only [foldMembers, some_row, if_false, kind, if_true, added, removed]
    exact apply_list_delta chained.canonical planned.canonical

theorem planned_counts (chained : Chained sha256 rows members) (planned : Planned sha256 rows members poll v) :
    rows.length + 1 ≤ v.originBlock := by
  cases top : rows.getLast? with
  | none =>
    rw [List.getLast?_eq_none_iff.mp top, planned.origin]
    exact poll.originBlock.property.1
  | some latest => exact Nat.lt_of_le_of_lt (chained.counted latest top) (planned.later latest top)

theorem chained_built (chained : Chained sha256 rows members) (planned : Planned sha256 rows members poll v) :
    Chained sha256 (rows ++ [buildListSnapshotRow list v poll.snapshotBlock]) poll.read.members := by
  obtain ⟨chain, normal, folded⟩ := chained.folds
  refine ⟨⟨_, normalize_append normal (built_normalizes list v poll.snapshotBlock), ?_⟩,
    planned.canonical, ?_, ?_, ?_⟩
  · rw [List.foldl_append, folded, List.foldl_cons, List.foldl_nil, foldRow, Option.bind_some,
      if_neg (not_not.mpr planned.numbered), planned_members chained planned, Option.bind_some,
      if_pos planned.hashed, List.length_append, List.length_singleton]
  · intro last isLast
    rw [List.getLast?_concat] at isLast
    cases isLast
    exact planned.hashed
  · intro last isLast row member
    rw [List.getLast?_concat] at isLast
    cases isLast
    rcases List.mem_append.mp member with before | new
    · cases top : rows.getLast? with
      | none => simp [List.getLast?_eq_none_iff.mp top] at before
      | some latest =>
        exact Nat.le_of_lt (Nat.lt_of_le_of_lt (chained.ordered latest top row before)
          (planned.later latest top))
    · rw [List.mem_singleton.mp new]
  · intro last isLast
    rw [List.getLast?_concat] at isLast
    cases isLast
    rw [List.length_append, List.length_singleton]
    exact planned_counts chained planned

theorem planned_numbers (chained : Chained sha256 rows members) (planned : Planned sha256 rows members poll v) :
    v.seq ≤ maxSafeInteger := by
  rw [planned.numbered]
  exact Nat.le_trans (planned_counts chained planned)
    (planned.origin ▸ poll.originBlock.property.2)

theorem planned_shape (chained : Chained sha256 rows members) (planned : Planned sha256 rows members poll v) :
    listRowShapeOk (buildListSnapshotRow list v poll.snapshotBlock) list.network = true := by
  have safe : ∀ n : ℕ, n ≤ maxSafeInteger → isCanonicalInt (.number n) = true :=
    fun n small => safe_nat_canonical ⟨n, small⟩
  have typed : v.listType ≤ maxSafeInteger ∧ (v.listType = 1 ∨ v.listType = 2) := by
    rcases planned.typed with one | two
    · exact ⟨one ▸ by decide, Or.inl one⟩
    · exact ⟨two ▸ by decide, Or.inr two⟩
  have origin : v.originBlock ≤ maxSafeInteger := planned.origin ▸ poll.originBlock.property.2
  have kind : v.kind = if rows = [] then Kind.full else Kind.delta := by
    rcases planned.content with ⟨nil, kind, -, -⟩ | ⟨filled, kind, -, -⟩
    · rw [kind, if_pos nil]
    · rw [kind, if_neg filled]
  have hex : LowerHex 64 v.membersHash := planned.hashed ▸ members_hash_hex _
  have metaHash : v.metaHash.all (fun hash => hash = "" || LowerHex 64 hash) = true := by
    rw [Option.all_eq_true]
    intro hash named
    simpa using planned.metaHash hash named
  simp only [listRowShapeOk, buildListSnapshotRow, List.all_cons, List.all_nil,
    safe _ poll.snapshotBlock.property, safe _ list.homeListIndex.property, safe _ typed.1,
    safe _ (planned_numbers chained planned), safe _ origin, list.homeChain.property, metaHash]
  simp only [decide_true, Bool.and_true, Bool.true_and, hex, planned.numbered, Nat.add_eq_right,
    List.length_eq_zero_iff, ← kind, Bool.and_eq_true, Bool.or_eq_true, decide_eq_true_eq]
  exact ⟨typed.2.imp decide_eq_true decide_eq_true, Nat.le_add_left 1 rows.length⟩

theorem planned_transport (chained : Chained sha256 rows members) (planned : Planned sha256 rows members poll v) :
    listTransportOk (buildListSnapshotRow list v poll.snapshotBlock) poll.read.members
      (foldOf sha256 rows) = true := by
  simp only [listTransportOk, buildListSnapshotRow, parse_members_text, planned.numbered]
  rcases planned.content with ⟨nil, -, added, removed⟩ | ⟨filled, -, added, removed⟩
  · simp [nil, added, removed, planned.canonical, isCanonicalOrder]
  · have some_row : rows.length ≠ 0 := fun none' => filled (List.length_eq_zero_iff.mp none')
    obtain ⟨first, second⟩ := delta_canonical chained.canonical planned.canonical
    rw [chained_fold chained filled]
    simp only [added, removed, first, second, Nat.add_eq_right, some_row, if_false, Option.any_some,
      decide_true, Bool.and_true, Bool.true_and, decide_eq_true_eq]
    omega

theorem planned_extends (chained : Chained sha256 rows members) (planned : Planned sha256 rows members poll v) :
    Extends sha256 list rows (buildListSnapshotRow list v poll.snapshotBlock) poll.read where
  folds := chained_fold (chained_built chained planned) (by simp)
  numbered := planned.numbered
  later := by
    intro before member
    cases top : rows.getLast? with
    | none => simp [List.getLast?_eq_none_iff.mp top] at member
    | some latest =>
      exact Nat.lt_of_le_of_lt (chained.ordered latest top before member) (planned.later latest top)
  held := by
    simp only [heldRowVerdict, buildListSnapshotRow, planned.numbered]
    cases top : rows.getLast? with
    | none => simp [List.getLast?_eq_none_iff.mp top]
    | some latest =>
      have filled : rows ≠ [] := by
        rintro rfl
        exact absurd top (by simp)
      simp [filled, planned.later latest top]
  shape := planned_shape chained planned
  transport := planned_transport chained planned

end Versions

section Main
variable {sha256 : Sha256} {list : ListRef}

/- Every accepted version extends the chain before it, and the chain is in order. -/
def Accepted (sha256 : Sha256) (list : ListRef) (accepted : List (Row × Read)) : Prop :=
  (∃ members, Chained sha256 (accepted.map Prod.fst) members) ∧
    ∀ front e back, accepted = front ++ e :: back → Extends sha256 list (front.map Prod.fst) e.1 e.2

theorem accepted_poll {accepted : List (Row × Read)} (good : Accepted sha256 list accepted) (poll : Poll) :
    Accepted sha256 list (maybeSnapshotList sha256 list accepted poll) := by
  obtain ⟨⟨members, chained⟩, extends_⟩ := good
  simp only [maybeSnapshotList]
  split
  · rename_i v plan
    have planned := plan_version chained plan
    constructor
    · rw [List.map_append]
      exact ⟨_, chained_built chained planned⟩
    · intro front e back split_
      rcases List.eq_nil_or_concat' back with rfl | ⟨back', last, rfl⟩
      · obtain ⟨same, single⟩ := List.append_inj' split_ rfl
        rw [← same, ← (List.cons.inj single).1]
        exact planned_extends chained planned
      · have inner : accepted = front ++ e :: back' := by
          rw [← List.cons_append, ← List.append_assoc] at split_
          exact (List.append_inj' split_ rfl).1
        exact extends_ front e back' inner
  · exact ⟨⟨members, chained⟩, extends_⟩

/-- Over any polls of one list, each version of its chain folds to the members of its own read,
    is the next in number, at a later origin block, and passes on a follower. -/
theorem list_chain_folds (sha256 : Sha256) (list : ListRef) (polls : List Poll)
    (front : List (Row × Read)) (e : Row × Read) (back : List (Row × Read))
    (at_ : acceptedRows sha256 list polls = front ++ e :: back) :
    Extends sha256 list (front.map Prod.fst) e.1 e.2 := by
  have good : Accepted sha256 list (acceptedRows sha256 list polls) := by
    refine List.foldlRecOn polls _ (motive := Accepted sha256 list) ?_ ?_
    · exact ⟨⟨[], chained_nil⟩, by simp⟩
    · intro accepted kept poll _
      exact accepted_poll kept poll
  exact good.2 front e back at_

/- A stand-in digest: one digit of the text's length, 64 times. -/
def sampleSha256 : Sha256 := fun text =>
  ⟨String.ofList (List.replicate 64 (hexDigit (text.length % 16))), by
    constructor
    · rw [String.toList_ofList, List.length_replicate]
    · intro c member
      rw [String.toList_ofList] at member
      rw [List.eq_of_mem_replicate member]
      exact hex_digit_lower _ (Nat.mod_lt _ (by decide))⟩

def sampleList : ListRef := ⟨"regtest", ⟨"BTC", by decide⟩, ⟨3, by decide⟩⟩

def sampleRead (members : List String) : Read :=
  ⟨1, members, listMembersHash sampleSha256 members, none, none, none⟩

/- The member b leaves and c comes. -/
def samplePolls : List Poll :=
  [⟨sampleRead ["a", "b"], ⟨10, by decide⟩, ⟨100, by decide⟩, false⟩,
    ⟨sampleRead ["a", "b"], ⟨11, by decide⟩, ⟨101, by decide⟩, false⟩,
    ⟨sampleRead ["a", "ccc"], ⟨12, by decide⟩, ⟨102, by decide⟩, false⟩]

theorem sample_versions :
    (acceptedRows sampleSha256 sampleList samplePolls).map (fun e => (e.1.added, e.1.removed, e.2.members)) =
      [("[\"a\",\"b\"]", "[]", ["a", "b"]), ("[\"ccc\"]", "[\"b\"]", ["a", "ccc"])] := by
  decide +kernel

theorem sample_delta_extends :
    ∃ first second, acceptedRows sampleSha256 sampleList samplePolls = [first, second] ∧
      second.1.added = "[\"ccc\"]" ∧ Extends sampleSha256 sampleList [first.1] second.1 second.2 := by
  have versions := sample_versions
  have two : (acceptedRows sampleSha256 sampleList samplePolls).length = 2 := by
    simpa using congrArg List.length versions
  obtain ⟨first, second, run⟩ := List.length_eq_two.mp two
  rw [run] at versions
  simp only [List.map_cons, List.map_nil, List.cons.injEq, Prod.mk.injEq, and_true] at versions
  exact ⟨first, second, run, versions.2.1, list_chain_folds _ _ samplePolls [first] second [] run⟩

end Main
end XChainHub.ListShare
