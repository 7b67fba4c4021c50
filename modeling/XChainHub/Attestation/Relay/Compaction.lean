import XChainHub.Attestation.Relay.AtMostOnce

/-!
The compaction of attestation/relay/wal.js against the recovery of the same file. A line
carries its record and the fields that no fold reads; what is written is compared with
what a restart would have learned without the rewrite.
-/
namespace XChainHub.Attestation.Relay
open PaidLog GuardedRuns IdempotentBroadcast

section Lines
variable (cfg : Params)

/- A readable line: others is every field but the record's and the two flags. -/
structure Line where
  record : Record
  others : List (String × String)
  compacted : Bool
  synthesized : Bool
  deriving DecidableEq

/- foldWalRecords, which keeps the line that carried the deciding record. -/
def foldLine (keep : OrderedMap Key Line) (line : Line) : OrderedMap Key Line :=
  if (line.record.key cfg).2 = "" then keep
  else
    match line.record.phase, ((keep.get (line.record.key cfg)).map Line.record).map Record.phase with
    | .sent, _ => keep.set (line.record.key cfg) line
    | .failed, some .sent => keep
    | .failed, _ => keep.set (line.record.key cfg) line
    | .intent, none => keep.set (line.record.key cfg) line
    | .intent, some _ => keep

def foldLines (file : List Line) : OrderedMap Key Line := file.foldl (foldLine cfg) OrderedMap.empty

def retained (h : Hub) (keep : OrderedMap Key Line) : List Line :=
  keep.entries.filterMap fun e =>
    if e.1.2 ∈ h.published e.1.1 then
      some { e.2 with record := restamped h e.1 e.2.record, compacted := true }
    else none

/- stamp is the ts of the lines written anew. -/
def synthesized (h : Hub) (stamp : String) (keep : OrderedMap Key Line) (leg : Leg) : List Line :=
  (h.published leg).items.filterMap fun rid =>
    if (keep.get (leg, rid)).isSome then none
    else some ⟨⟨rid, leg, .sent, h.deadlines.get rid⟩, [("ts", stamp)], true, true⟩

/- The file that a compaction renames into place. -/
def compacted (h : Hub) (stamp : String) (file : List Line) : List Line :=
  let keep := foldLines cfg file
  retained h keep ++ synthesized h stamp keep .request ++ synthesized h stamp keep .response

def records (file : List Line) : List Record := file.map Line.record

/- A text of the file; none is a line that no fold reads, torn, malformed or of no key. -/
abbrev Text := List (Option Line)

def readable (text : Text) : List Line := text.filterMap id

/- What loadWal marks published in a fresh process. -/
def recovered (wal : List Record) (k : Key) : Prop :=
  k.2 ∈ (loadWal cfg (Hub.started wal [] [])).published k.1

end Lines

section Records
variable {cfg : Params}

theorem fold_line_record (keep : OrderedMap Key Line) (line : Line) :
    (foldLine cfg keep line).mapValues (fun _ => Line.record) =
      foldRecord cfg (keep.mapValues fun _ => Line.record) line.record := by
  unfold foldLine foldRecord
  rw [OrderedMap.get_map_values]
  split
  · rfl
  · cases line.record.phase with
    | sent => exact OrderedMap.map_values_set keep Line.record _ line
    | failed =>
      cases ((keep.get (line.record.key cfg)).map Line.record).map Record.phase with
      | none => exact OrderedMap.map_values_set keep Line.record _ line
      | some prior =>
        cases prior with
        | sent => rfl
        | failed => exact OrderedMap.map_values_set keep Line.record _ line
        | intent => exact OrderedMap.map_values_set keep Line.record _ line
    | intent =>
      cases ((keep.get (line.record.key cfg)).map Line.record).map Record.phase with
      | none => exact OrderedMap.map_values_set keep Line.record _ line
      | some prior => rfl

theorem fold_lines_records (file : List Line) :
    (foldLines cfg file).mapValues (fun _ => Line.record) = foldWalRecords cfg (records file) := by
  have all : ∀ keep : OrderedMap Key Line,
      (file.foldl (foldLine cfg) keep).mapValues (fun _ => Line.record) =
        (records file).foldl (foldRecord cfg) (keep.mapValues fun _ => Line.record) := by
    induction file with
    | nil => exact fun _ => rfl
    | cons line file ih =>
      intro keep
      rw [List.foldl_cons, ih, fold_line_record]
      rfl
  exact all OrderedMap.empty

theorem fold_lines_get (file : List Line) (k : Key) :
    ((foldLines cfg file).get k).map Line.record = (foldWalRecords cfg (records file)).get k := by
  rw [← fold_lines_records, OrderedMap.get_map_values]

theorem fold_lines_keys {file : List Line} {e : Key × Line} (member : e ∈ (foldLines cfg file).entries) :
    e.1 = e.2.record.key cfg ∧ e.1.2 ≠ "" := by
  refine fold_wal_keys (records file) (e.1, e.2.record) ?_
  rw [← fold_lines_records]
  exact List.mem_map.mpr ⟨e, member, rfl⟩

/-- The compaction of relay/wal.js, line by line, writes the records that compactWal does. -/
theorem compacted_records (h : Hub) (stamp : String) (file : List Line) :
    records (compacted cfg h stamp file) =
      compactedWalLines h (foldWalRecords cfg (records file)) := by
  have made : ∀ leg, records (synthesized h stamp (foldLines cfg file) leg) =
      synthesizedLines h (foldWalRecords cfg (records file)) leg := by
    intro leg
    unfold records synthesized synthesizedLines
    rw [List.map_filterMap]
    congr 1
    funext rid
    have same : ((foldLines cfg file).get (leg, rid)).map Line.record =
        (foldWalRecords cfg (records file)).get (leg, rid) := fold_lines_get file (leg, rid)
    rw [records] at same
    rw [← same, Option.isSome_map]
    split <;> rfl
  have kept : records (retained h (foldLines cfg file)) =
      keptLines h (foldWalRecords cfg (records file)) := by
    rw [← fold_lines_records]
    unfold records retained keptLines
    rw [List.map_filterMap, OrderedMap.mapValues, List.filterMap_map]
    congr 1
    funext e
    simp only [Function.comp]
    split <;> rfl
  unfold compacted compactedWalLines
  rw [← made, ← made, ← kept]
  simp [records]

end Records

section Rewritten
variable {cfg : Params} {h : Hub} {stamp : String} {file : List Line}

theorem retained_keys (h : Hub) (file : List Line) :
    (retained h (foldLines cfg file)).map (fun l => l.record.key cfg) =
      ((foldLines cfg file).entries.filter fun e => e.1.2 ∈ h.published e.1.1).map Prod.fst := by
  have own : ∀ e ∈ (foldLines cfg file).entries, e.1 = e.2.record.key cfg :=
    fun e member => (fold_lines_keys member).1
  unfold retained
  generalize (foldLines cfg file).entries = entries at own ⊢
  induction entries with
  | nil => rfl
  | cons e entries ih =>
    have rest := ih fun e' member => own e' (List.mem_cons_of_mem e member)
    by_cases published : e.1.2 ∈ h.published e.1.1
    · have key := restamped_key (h := h) (own e List.mem_cons_self)
      simp [published, rest, key]
    · simp [published, rest]

theorem synthesized_keys (leg : Leg) (lowered : ∀ rid ∈ h.published leg, cfg.toLowerCase rid = rid) :
    (synthesized h stamp (foldLines cfg file) leg).map (fun l => l.record.key cfg) =
      ((h.published leg).items.filter fun rid => ((foldLines cfg file).get (leg, rid)).isNone).map
        fun rid => (leg, rid) := by
  unfold synthesized
  have each : ∀ rid ∈ (h.published leg).items, cfg.toLowerCase rid = rid := lowered
  generalize (h.published leg).items = items at each
  induction items with
  | nil => rfl
  | cons rid items ih =>
    have rest := ih fun r member => each r (List.mem_cons_of_mem rid member)
    have own := each rid List.mem_cons_self
    cases found : (foldLines cfg file).get (leg, rid) with
    | none => simpa [found, Record.key, own] using rest
    | some line => simpa [found] using rest

/- A published key is kept in lower case. -/
def PublishedLowered (cfg : Params) (h : Hub) : Prop :=
  ∀ leg, ∀ rid ∈ h.published leg, cfg.toLowerCase rid = rid

theorem compacted_keys_nodup (lowered : PublishedLowered cfg h) :
    ((compacted cfg h stamp file).map fun l => l.record.key cfg).Nodup := by
  have absent : ∀ leg, ∀ k ∈ (synthesized h stamp (foldLines cfg file) leg).map
      (fun l => l.record.key cfg), k.1 = leg ∧ (foldLines cfg file).get k = none := by
    intro leg k member
    rw [synthesized_keys leg (lowered leg)] at member
    obtain ⟨rid, inside, rfl⟩ := List.mem_map.mp member
    exact ⟨rfl, Option.isNone_iff_eq_none.mp (List.mem_filter.mp inside).2⟩
  have present : ∀ k ∈ (retained h (foldLines cfg file)).map (fun l => l.record.key cfg),
      (foldLines cfg file).get k ≠ none := by
    intro k member
    rw [retained_keys] at member
    obtain ⟨e, inside, rfl⟩ := List.mem_map.mp member
    rw [OrderedMap.get_of_mem (List.mem_of_mem_filter inside)]
    simp
  have distinct : ∀ leg, ((synthesized h stamp (foldLines cfg file) leg).map
      fun l => l.record.key cfg).Nodup := by
    intro leg
    rw [synthesized_keys leg (lowered leg)]
    exact ((h.published leg).nodup.filter _).map fun a b same => (Prod.mk.inj same).2
  unfold compacted
  dsimp only
  rw [List.map_append, List.map_append]
  refine List.nodup_append.mpr ⟨List.nodup_append.mpr ⟨?_, distinct .request, ?_⟩, distinct .response, ?_⟩
  · rw [retained_keys]
    exact (foldLines cfg file).nodup.sublist (List.filter_sublist.map Prod.fst)
  · rintro k kept _ made rfl
    exact present k kept (absent .request k made).2
  · rintro k before _ made rfl
    rcases List.mem_append.mp before with kept | request
    · exact present k kept (absent .response k made).2
    · have apart := (absent .request k request).1.symm.trans (absent .response k made).1
      cases apart

/- A line of the compacted file is a published key's: its deciding line restamped, or a
   'sent' where no line decides it. -/
theorem mem_compacted (lowered : PublishedLowered cfg h) {l : Line} :
    l ∈ compacted cfg h stamp file ↔ ∃ k : Key, k.2 ∈ h.published k.1 ∧ l.record.key cfg = k ∧
      match (foldLines cfg file).get k with
      | some line => l = { line with record := restamped h k line.record, compacted := true }
      | none => l = ⟨⟨k.2, k.1, .sent, h.deadlines.get k.2⟩, [("ts", stamp)], true, true⟩ := by
  have made : ∀ leg, l ∈ synthesized h stamp (foldLines cfg file) leg ↔ ∃ rid ∈ h.published leg,
      (foldLines cfg file).get (leg, rid) = none ∧
        l = ⟨⟨rid, leg, .sent, h.deadlines.get rid⟩, [("ts", stamp)], true, true⟩ := by
    intro leg
    unfold synthesized
    rw [List.mem_filterMap]
    constructor
    · rintro ⟨rid, published, written⟩
      split at written
      · cases written
      · rename_i unset
        rw [Option.not_isSome_iff_eq_none] at unset
        rw [Option.some.injEq] at written
        exact ⟨rid, published, unset, written.symm⟩
    · rintro ⟨rid, published, unset, rfl⟩
      exact ⟨rid, published, by rw [unset]; rfl⟩
  have key : ∀ leg, ∀ rid ∈ h.published leg,
      (Line.mk ⟨rid, leg, .sent, h.deadlines.get rid⟩ [("ts", stamp)] true true).record.key cfg = (leg, rid) := by
    intro leg rid published
    rw [Record.key, lowered leg rid published]
  unfold compacted
  dsimp only
  rw [List.mem_append, List.mem_append, made, made]
  constructor
  · rintro ((kept | ⟨rid, published, unset, rfl⟩) | ⟨rid, published, unset, rfl⟩)
    · obtain ⟨e, inside, written⟩ := List.mem_filterMap.mp kept
      split at written
      · rename_i published
        rw [Option.some.injEq] at written
        refine ⟨e.1, published, ?_, ?_⟩
        · rw [← written]
          exact restamped_key (fold_lines_keys inside).1
        · rw [OrderedMap.get_of_mem (b := e.2) inside]
          exact written.symm
      · cases written
    · refine ⟨(.request, rid), published, key .request rid published, ?_⟩
      rw [unset]
    · refine ⟨(.response, rid), published, key .response rid published, ?_⟩
      rw [unset]
  · rintro ⟨⟨leg, rid⟩, published, -, shape⟩
    cases found : (foldLines cfg file).get (leg, rid) with
    | some line =>
      rw [found] at shape
      refine Or.inl (Or.inl (List.mem_filterMap.mpr ⟨((leg, rid), line), OrderedMap.mem_of_get found, ?_⟩))
      rw [if_pos published, shape]
    | none =>
      rw [found] at shape
      cases leg with
      | request => exact Or.inl (Or.inr ⟨rid, published, found, shape⟩)
      | response => exact Or.inr ⟨rid, published, found, shape⟩

theorem published_compacted (lowered : PublishedLowered cfg h) {k : Key} (published : k.2 ∈ h.published k.1) :
    ∃ l ∈ compacted cfg h stamp file, l.record.key cfg = k := by
  cases found : (foldLines cfg file).get k with
  | some line =>
    have key := restamped_key (h := h) (fold_lines_keys (OrderedMap.mem_of_get found)).1
    exact ⟨_, (mem_compacted lowered).mpr ⟨k, published, key, by rw [found]⟩, key⟩
  | none =>
    have key : (Line.mk ⟨k.2, k.1, .sent, h.deadlines.get k.2⟩ [("ts", stamp)] true true).record.key cfg = k := by
      rw [Record.key, lowered k.1 k.2 published]
    exact ⟨_, (mem_compacted lowered).mpr ⟨k, published, key, by rw [found]⟩, key⟩

end Rewritten

section Recovery
variable {cfg : Params} {h : Hub} {stamp : String} {file : List Line}

/- In a file of one line a key, that line decides it. -/
theorem single_line_decides {lines : List Line} {l : Line}
    (distinct : (lines.map fun l => l.record.key cfg).Nodup) (member : l ∈ lines)
    (named : (l.record.key cfg).2 ≠ "") :
    (foldWalRecords cfg (records lines)).get (l.record.key cfg) = some l.record := by
  obtain ⟨front, back, rfl⟩ := List.append_of_mem member
  rw [List.map_append, List.map_cons] at distinct
  have apart := List.nodup_append.mp distinct
  have own : ∀ other ∈ records front ++ records back, other.key cfg ≠ l.record.key cfg := by
    intro other inside same
    rcases List.mem_append.mp inside with before | after
    · obtain ⟨l', placed, rfl⟩ := List.mem_map.mp before
      exact apart.2.2 _ (List.mem_map_of_mem placed) _ List.mem_cons_self same
    · obtain ⟨l', placed, rfl⟩ := List.mem_map.mp after
      refine (List.nodup_cons.mp apart.2.1).1 ?_
      rw [← same]
      exact List.mem_map.mpr ⟨l', placed, rfl⟩
  have none_front : (records front).filter (fun rec => rec.key cfg = l.record.key cfg) = [] :=
    List.filter_eq_nil_iff.mpr fun rec inside => by
      simpa using own rec (List.mem_append_left _ inside)
  have none_back : (records back).filter (fun rec => rec.key cfg = l.record.key cfg) = [] :=
    List.filter_eq_nil_iff.mpr fun rec inside => by
      simpa using own rec (List.mem_append_right _ inside)
  rw [fold_wal_get named, records, List.map_append, List.map_cons, ← records, ← records, List.filter_append,
    List.filter_cons, none_front, none_back]
  simp only [decide_true, if_true, List.nil_append, List.foldl_cons, List.foldl_nil]
  rw [decideRecord]
  cases l.record.phase <;> rfl

theorem decided_line {lines : List Line} {k : Key} (decided : Decided cfg (records lines) k) :
    ∃ l ∈ lines, l.record.key cfg = k := by
  have named := decided_named decided
  obtain ⟨rec, found, -⟩ := decided
  rw [fold_wal_get named] at found
  by_contra none'
  have empty : (records lines).filter (fun rec => rec.key cfg = k) = [] :=
    List.filter_eq_nil_iff.mpr fun rec inside => by
      obtain ⟨l, member, rfl⟩ := List.mem_map.mp inside
      simpa using fun same => none' ⟨l, member, same⟩
  rw [empty] at found
  cases found

/-- What the compacted file decides: the published keys whose deciding line is no 'failed'. -/
theorem decided_compacted_iff (lowered : PublishedLowered cfg h) {k : Key} :
    Decided cfg (records (compacted cfg h stamp file)) k ↔ k.2 ∈ h.published k.1 ∧ k.2 ≠ "" ∧
      ∀ rec, (foldWalRecords cfg (records file)).get k = some rec → marks rec = true := by
  have value : ∀ l ∈ compacted cfg h stamp file, l.record.key cfg = k → k.2 ∈ h.published k.1 ∧
      (marks l.record = true ↔
        ∀ rec, (foldWalRecords cfg (records file)).get k = some rec → marks rec = true) := by
    intro l member key
    obtain ⟨k', published, key', shape⟩ := (mem_compacted lowered).mp member
    rw [key] at key'
    subst key'
    refine ⟨published, ?_⟩
    rw [← fold_lines_get]
    cases found : (foldLines cfg file).get k with
    | some line =>
      rw [found] at shape
      rw [shape]
      have same : marks (restamped h k line.record) = marks line.record := rfl
      rw [same]
      simp
    | none =>
      rw [found] at shape
      rw [shape]
      simp [marks]
  constructor
  · intro decided
    have named := decided_named decided
    obtain ⟨l, member, key⟩ := decided_line decided
    obtain ⟨rec, found, marked⟩ := decided
    have single := single_line_decides (compacted_keys_nodup lowered) member (by rwa [key])
    rw [key, found, Option.some.injEq] at single
    rw [single] at marked
    exact ⟨(value l member key).1, named, (value l member key).2.mp marked⟩
  · rintro ⟨published, named, unfailed⟩
    obtain ⟨l, member, key⟩ : ∃ l ∈ compacted cfg h stamp file, l.record.key cfg = _ :=
      published_compacted lowered published
    have single := single_line_decides (compacted_keys_nodup lowered) member (by rwa [key])
    rw [key] at single
    exact ⟨l.record, single, (value l member key).2.mpr unfailed⟩

theorem fold_lines_distinct {lines : List Line}
    (distinct : (lines.map fun l => l.record.key cfg).Nodup)
    (named : ∀ l ∈ lines, (l.record.key cfg).2 ≠ "") :
    (foldLines cfg lines).entries = lines.map fun l => (l.record.key cfg, l) := by
  have all : ∀ (rest : List Line) (keep : OrderedMap Key Line),
      (keep.entries.map Prod.fst ++ rest.map fun l => l.record.key cfg).Nodup →
      (∀ l ∈ rest, (l.record.key cfg).2 ≠ "") →
      (rest.foldl (foldLine cfg) keep).entries =
        keep.entries ++ rest.map fun l => (l.record.key cfg, l) := by
    intro rest
    induction rest with
    | nil => exact fun keep _ _ => by simp
    | cons l rest ih =>
      intro keep apart each
      have new : l.record.key cfg ∉ keep.entries.map Prod.fst := by
        intro old
        exact (List.nodup_append.mp apart).2.2 _ old _ List.mem_cons_self rfl
      have unset : keep.get (l.record.key cfg) = none := by
        cases found : keep.get (l.record.key cfg) with
        | none => rfl
        | some old => exact absurd (List.mem_map_of_mem (OrderedMap.mem_of_get found)) new
      have added : (foldLine cfg keep l).entries = keep.entries ++ [(l.record.key cfg, l)] := by
        rw [foldLine, if_neg (each l List.mem_cons_self), unset]
        have written : (keep.set (l.record.key cfg) l).entries = keep.entries ++ [(l.record.key cfg, l)] := by
          rw [OrderedMap.set, dif_neg new]
        cases l.record.phase <;> exact written
      rw [List.foldl_cons, ih, added, List.append_assoc]
      · rfl
      · rw [added, List.map_append, List.append_assoc]
        exact apart
      · exact fun l' member => each l' (List.mem_cons_of_mem l member)
  exact all lines OrderedMap.empty (by simpa [OrderedMap.empty] using distinct) named

/-- A second compaction writes the file that the first one wrote. -/
theorem compacted_twice (lowered : PublishedLowered cfg h)
    (named : ∀ k : Key, k.2 ∈ h.published k.1 → k.2 ≠ "") (later : String) :
    compacted cfg h later (compacted cfg h stamp file) = compacted cfg h stamp file := by
  have shape : ∀ l ∈ compacted cfg h stamp file, (l.record.key cfg).2 ∈ h.published (l.record.key cfg).1 ∧
      { l with record := restamped h (l.record.key cfg) l.record, compacted := true } = l := by
    intro l member
    obtain ⟨k, published, key, shape⟩ := (mem_compacted lowered).mp member
    rw [key]
    refine ⟨published, ?_⟩
    cases found : (foldLines cfg file).get k with
    | some line =>
      rw [found] at shape
      rw [shape]
      simp [restamped, ← Option.or_assoc]
    | none =>
      rw [found] at shape
      rw [shape]
      simp [restamped]
  have entries : (foldLines cfg (compacted cfg h stamp file)).entries =
      (compacted cfg h stamp file).map fun l => (l.record.key cfg, l) :=
    fold_lines_distinct (compacted_keys_nodup lowered) fun l member => named _ (shape l member).1
  have kept : retained h (foldLines cfg (compacted cfg h stamp file)) = compacted cfg h stamp file := by
    rw [retained, entries, List.filterMap_map]
    calc (compacted cfg h stamp file).filterMap _
        = (compacted cfg h stamp file).filterMap some := by
          refine List.filterMap_congr fun l member => ?_
          simp only [Function.comp]
          rw [if_pos (shape l member).1, (shape l member).2]
      _ = compacted cfg h stamp file := List.filterMap_some
  have none' : ∀ leg, synthesized h later (foldLines cfg (compacted cfg h stamp file)) leg = [] := by
    intro leg
    refine List.filterMap_eq_nil_iff.mpr fun rid published => ?_
    obtain ⟨l, member, key⟩ : ∃ l ∈ compacted cfg h stamp file, l.record.key cfg = (leg, rid) :=
      published_compacted lowered published
    have inside : ((leg, rid), l) ∈ (foldLines cfg (compacted cfg h stamp file)).entries := by
      rw [entries]
      exact List.mem_map.mpr ⟨l, member, by rw [key]⟩
    rw [OrderedMap.get_of_mem inside]
    rfl
  rw [compacted]
  rw [kept, none', none', List.append_nil, List.append_nil]

/-- A restart publishes the keys that the file decides. -/
theorem recovered_iff (wal : List Record) (k : Key) : recovered cfg wal k ↔ Decided cfg wal k := by
  unfold recovered
  rw [mem_load_published]
  simp [Hub.started]

end Recovery

section Reachable
variable {cfg : Params}

/- The keys that a relay holds are in lower case. -/
structure KeysLowered (cfg : Params) (h : Hub) : Prop where
  wire : Lowered cfg h.wire
  published : PublishedLowered cfg h
  flying : ∀ k ∈ inFlight h, cfg.toLowerCase k.2 = k.2

theorem KeysLowered.same {h g : Hub} (low : KeysLowered cfg h) (wire : g.wire = h.wire)
    (published : g.published = h.published) (sends : g.sends = h.sends) : KeysLowered cfg g := by
  obtain ⟨first, second, third⟩ := low
  unfold PublishedLowered at second
  unfold inFlight at third
  rw [← wire] at first
  rw [← published] at second
  rw [← sends] at third
  exact ⟨first, second, third⟩

theorem KeysLowered.append {h : Hub} (low : KeysLowered cfg h) (outcome : Append) (rec : Record) :
    KeysLowered cfg (appendWal cfg h outcome rec) := by
  rcases append_wal_cases cfg h outcome rec with ⟨-, same⟩ | ⟨d, same⟩
  · rw [same]
    exact low
  · rw [same]
    exact low.same rfl rfl rfl

theorem KeysLowered.broadcast {h : Hub} (low : KeysLowered cfg h) (env : Env) {k : Key}
    (lower : cfg.toLowerCase k.2 = k.2) : KeysLowered cfg (broadcast env cfg h k).1 := by
  unfold Relay.broadcast
  rcases prepare_cases env h k with same | ⟨-, d, held | ⟨entry, goes⟩⟩
  · rw [same]
    exact low
  · rw [held]
    exact low.same rfl rfl rfl
  · rw [goes]
    refine ⟨low.wire, low.published, fun key member => ?_⟩
    rw [inFlight, occupied_append, List.map_append] at member
    rcases List.mem_append.mp member with old | new
    · exact low.flying key old
    · rw [List.mem_singleton.mp new]
      exact lower

theorem PublishedLowered.add {h : Hub} (low : PublishedLowered cfg h) {k : Key}
    (lower : cfg.toLowerCase k.2 = k.2) :
    PublishedLowered cfg
      { h with published := Function.update h.published k.1 ((h.published k.1).add k.2) } := by
  intro leg rid member
  dsimp only at member
  by_cases own : leg = k.1
  · rw [own, Function.update_self, OrderedSet.mem_add] at member
    rcases member with new | old
    · rw [new]
      exact lower
    · exact low k.1 rid old
  · rw [Function.update_of_ne own] at member
    exact low leg rid member

/- A settled send leaves the sends under way. -/
theorem KeysLowered.ended {h g : Hub} (low : KeysLowered cfg h) {n : ℕ} {send : Send}
    (held : h.sends[n]?.join = some send) (sends : g.sends = h.sends.set n none)
    (wire : Lowered cfg g.wire) (published : PublishedLowered cfg g) : KeysLowered cfg g := by
  refine ⟨wire, published, fun k member => low.flying k ?_⟩
  obtain ⟨front, back, before, after⟩ := occupied_clear held
  rw [inFlight, sends, after, List.map_append] at member
  rw [inFlight, before, List.map_append, List.map_cons]
  rw [List.mem_append] at member ⊢
  exact member.imp_right (List.mem_cons_of_mem _)

theorem KeysLowered.settle {h : Hub} (low : KeysLowered cfg h) (n : ℕ) (error : Option (Bool × SendError))
    (append : Append) : KeysLowered cfg (settle cfg h n error append) := by
  unfold Relay.settle
  cases held : h.sends[n]?.join with
  | none => exact low
  | some send =>
    have lower : cfg.toLowerCase send.key.2 = send.key.2 :=
      low.flying _ (List.mem_map.mpr ⟨send, mem_occupied held, rfl⟩)
    cases error with
    | none =>
      simp only [noteLegSent]
      refine KeysLowered.append (low.ended held rfl ?_ ?_) append _
      · exact low.wire.erase send.key.1 send.key.2
      · exact low.published.add lower
    | some error =>
      simp only [noteLegSendFailed]
      split
      · refine KeysLowered.append (low.ended held rfl ?_ ?_) append _
        · exact low.wire
        · exact low.published.add lower
      · refine KeysLowered.append (low.ended held rfl ?_ ?_) append _
        · exact low.wire
        · exact low.published

theorem KeysLowered.compact {h : Hub} (low : KeysLowered cfg h) (done : Bool) :
    KeysLowered cfg (compactWal cfg h done) := by
  unfold compactWal
  split
  · exact low.same rfl rfl rfl
  · exact low

theorem KeysLowered.evict {h : Hub} (low : KeysLowered cfg h) (rid : String) :
    KeysLowered cfg (evict h rid) := by
  refine ⟨fun leg key member => low.wire leg key (mem_keys_erase member), fun leg key member => ?_, low.flying⟩
  exact low.published leg key (OrderedSet.mem_erase.mp member).2

theorem KeysLowered.evict_expired {h : Hub} (low : KeysLowered cfg h) (compacted : Bool) :
    KeysLowered cfg (evictExpired cfg h compacted) := by
  unfold evictExpired
  split
  · exact low
  · refine KeysLowered.compact ?_ compacted
    have all : ∀ (rids : List String) (g : Hub), KeysLowered cfg g →
        KeysLowered cfg (rids.foldl Relay.evict g) := by
      intro rids
      induction rids with
      | nil => exact fun g keeps => keeps
      | cons rid rids ih => exact fun g keeps => ih _ (keeps.evict rid)
    exact all _ h low

theorem keys_lowered_start (wal : List Record) (log : List (Mark Key)) (forgotten : List Key)
    (compacted : Bool) : KeysLowered cfg (start cfg (Hub.started wal log forgotten) compacted) := by
  have loaded : KeysLowered cfg (loadWal cfg (Hub.started wal log forgotten)) := by
    obtain ⟨d, p, shape, -⟩ := load_frame cfg (Hub.started wal log forgotten)
    refine ⟨?_, fun leg rid member => ?_, ?_⟩
    · rw [shape]
      exact fun leg key member => absurd member OrderedSet.not_mem_empty
    · rcases (mem_load_published _ (leg, rid)).mp member with decided | started
      · exact decided_lowered decided
      · exact absurd started OrderedSet.not_mem_empty
    · rw [shape]
      exact fun k member => absurd member (by simp [inFlight, occupied, Hub.started])
  unfold start
  split
  · exact loaded.compact compacted
  · exact loaded

/-- The step lemma of the keys. -/
theorem step_keys_lowered {h : Hub} (low : KeysLowered cfg h) (ev : Event) :
    KeysLowered cfg (step cfg h ev) := by
  cases ev with
  | finalized env row sigs =>
    simp only [step, onRoundFinalized]
    split
    · exact low
    · rename_i leg _
      split
      · exact low
      · split
        · exact low
        · have stored : ∀ entry, KeysLowered cfg
              { h with
                wire := Function.update h.wire leg
                  ((h.wire leg).set (cfg.toLowerCase row.requestId) entry) } :=
            fun entry => ⟨low.wire.set leg row.requestId entry, low.published, low.flying⟩
          split
          · exact (stored _).broadcast env (cfg.lower_idem _)
          · exact stored _
  | sweepStart =>
    simp only [step]
    split
    · exact low
    · exact low.same rfl rfl rfl
  | sweepVisit env rid =>
    simp only [step]
    split
    · exact low
    · rename_i leg _
      unfold sweepVisit
      split
      · exact low
      · rename_i entry found
        have lower : cfg.toLowerCase rid = rid :=
          low.wire leg rid (OrderedMap.mem_keys.mpr ⟨entry, OrderedMap.mem_of_get found⟩)
        split
        · exact ⟨low.wire.erase leg rid, low.published, low.flying⟩
        · split
          · exact (low.broadcast env (k := (leg, rid)) lower).same rfl rfl rfl
          · exact low
  | sweepNext =>
    simp only [step]
    split
    · exact low.same rfl rfl rfl
    · exact low
  | sweepEnd compacted =>
    simp only [step]
    split
    · exact KeysLowered.evict_expired (h := { h with sweep := none }) (low.same rfl rfl rfl) compacted
    · exact low
  | settled n error append => exact low.settle n error append
  | deadline coin rid block =>
    obtain ⟨d, same⟩ := note_deadline_frame cfg h coin rid block
    simp only [step, same]
    exact low.same rfl rfl rfl
  | tip coin height => exact low.same rfl rfl rfl
  | restart compacted => exact keys_lowered_start _ _ _ compacted

theorem run_keys_lowered (wal : List Record) (first : Bool) (evs : List Event) :
    KeysLowered cfg (run (step cfg) (fresh cfg wal first) evs) :=
  run_preserves (KeysLowered cfg) (fun _ ev low => step_keys_lowered low ev)
    (keys_lowered_start wal [] [] first) evs

/- A key that an eviction dropped, and that nothing has published since. -/
def Evicted (h : Hub) (k : Key) : Prop := k ∈ h.forgotten ∧ k.2 ∉ h.published k.1

/- A published key has a name and no 'failed' line decides it; a key decided as sent or as
   intent is published or was evicted. -/
structure Settled (cfg : Params) (h : Hub) (file : List Line) : Prop where
  published : ∀ k : Key, k.2 ∈ h.published k.1 → k.2 ≠ "" ∧
    ∀ rec, (foldWalRecords cfg (records file)).get k = some rec → rec.phase ≠ .failed
  decided : ∀ k, Decided cfg (records file) k → k.2 ∈ h.published k.1 ∨ k ∈ h.forgotten

/-- A restart after a compaction learns what one before it would have, with the published
    keys and without the evicted ones, and a second compaction changes nothing, exactly in
    the states that are settled. -/
theorem compaction_invisible_iff (wal : List Record) (first : Bool) (evs : List Event) (text : Text)
    (stamp : String) :
    ((∀ k, recovered cfg (records (compacted cfg (run (step cfg) (fresh cfg wal first) evs) stamp (readable text))) k ↔
          (recovered cfg (records (readable text)) k ∨
            k.2 ∈ (run (step cfg) (fresh cfg wal first) evs).published k.1) ∧
          ¬ Evicted (run (step cfg) (fresh cfg wal first) evs) k) ∧
      ∀ later, compacted cfg (run (step cfg) (fresh cfg wal first) evs) later
          (compacted cfg (run (step cfg) (fresh cfg wal first) evs) stamp (readable text)) =
        compacted cfg (run (step cfg) (fresh cfg wal first) evs) stamp (readable text)) ↔
      Settled cfg (run (step cfg) (fresh cfg wal first) evs) (readable text) := by
  have low : PublishedLowered cfg (run (step cfg) (fresh cfg wal first) evs) :=
    (run_keys_lowered wal first evs).published
  generalize run (step cfg) (fresh cfg wal first) evs = h at low ⊢
  generalize readable text = file
  simp only [recovered_iff, decided_compacted_iff low, Evicted]
  constructor
  · rintro ⟨same, -⟩
    refine ⟨fun k published => ?_, fun k decided => ?_⟩
    · obtain ⟨-, named, unfailed⟩ := (same k).mpr ⟨Or.inr published, fun gone => gone.2 published⟩
      refine ⟨named, fun rec found failed => ?_⟩
      have marked := unfailed rec found
      simp [marks, failed] at marked
    · by_contra lost
      rw [not_or] at lost
      have kept := (same k).mpr ⟨Or.inl decided, fun gone => lost.2 gone.1⟩
      exact lost.1 kept.1
  · rintro ⟨live, known⟩
    refine ⟨fun k => ⟨?_, ?_⟩, fun later => compacted_twice low (fun k published => (live k published).1) later⟩
    · rintro ⟨published, -, -⟩
      exact ⟨Or.inr published, fun gone => gone.2 published⟩
    · rintro ⟨held, present⟩
      have published : k.2 ∈ h.published k.1 := by
        rcases held with decided | published
        · rcases known k decided with published | gone
          · exact published
          · by_contra unpublished
            exact present ⟨gone, unpublished⟩
        · exact published
      refine ⟨published, (live k published).1, fun rec found => ?_⟩
      simp [marks, (live k published).2 rec found]

end Reachable

section Lost

/- The file that the process itself has written. -/
def ownText (h : Hub) : Text := h.wal.map fun rec => some ⟨rec, [], false, false⟩

/- A relay whose first send is awaited. -/
def sampleHub : Hub := run (step sampleParams) (fresh sampleParams [] false) [sampleFinalized]

theorem sample_intent_lost :
    Decided sampleParams (records (readable (ownText sampleHub))) (.request, zeros 64) ∧
      (Leg.request, zeros 64) ∉ sampleHub.forgotten ∧
      ¬ Decided sampleParams (records (compacted sampleParams sampleHub "" (readable (ownText sampleHub))))
        (.request, zeros 64) := by
  decide +kernel

/-- A compaction beside a send drops the send's intent. -/
theorem compaction_drops_intent :
    ¬ ∀ k, recovered sampleParams
          (records (compacted sampleParams sampleHub "" (readable (ownText sampleHub)))) k ↔
        (recovered sampleParams (records (readable (ownText sampleHub))) k ∨ k.2 ∈ sampleHub.published k.1) ∧
          ¬ Evicted sampleHub k := by
  intro same
  obtain ⟨armed, kept, lost⟩ := sample_intent_lost
  have learned := (same (.request, zeros 64)).mpr
    ⟨Or.inl ((recovered_iff _ _).mpr armed), fun gone => kept gone.1⟩
  exact lost ((recovered_iff _ _).mp learned)

end Lost
end XChainHub.Attestation.Relay
