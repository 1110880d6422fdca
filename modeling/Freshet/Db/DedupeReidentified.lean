/-
**The cleanup of re-identified updates.**

The migration groups the rows of `vector_records` by incident, timestamp and text and deletes the rows
of a group that were indexed before its newest. The group does not ask for the event: two chunks of one
event with one text, stamped one after the other, are a group as well.

* **`superseded_iff`** — only superseded copies are removed exactly where every row with a later copy has
  one of another event among the newest.
* **`repeated_sentence_lost`** — an event that says the same thing in two chunks.
-/

import Freshet.Pipeline.Chunking
import Freshet.Pipeline.Index
import Mathlib.Data.List.Dedup

namespace Freshet.Db

open Freshet.Lib Freshet.Pipeline
open Freshet.Autopilot (Time)

/-! ### The migration -/

/-- What `GROUP BY incident_id, ts, text` groups by, where there is an incident. -/
structure Group where
  incidentId : String
  ts : Time
  text : List Char
deriving DecidableEq

def groupOf (row : Chunk) : Option Group := row.incidentId.map fun incidentId =>
  ⟨incidentId, row.ts, row.text⟩

/-- A row of `_dupes`. -/
structure Dupe where
  group : Group
  keepAfter : Time

/-- `CREATE TEMP TABLE _dupes`. -/
def dupes (rows : List Chunk) : List Dupe :=
  (rows.filterMap groupOf).dedup.filterMap fun group =>
    let members := rows.filter fun row => groupOf row = some group
    if 1 < members.length then (members.map Chunk.indexedAt).max?.map fun newest => ⟨group, newest⟩
    else none

/-- The `WHERE` of the first `DELETE`. -/
def outdated (duplicates : List Dupe) (row : Chunk) : Bool :=
  duplicates.any fun d => groupOf row = some d.group && row.indexedAt < d.keepAfter

def rowsOf (table : Table String Chunk) : List Chunk := table.entries.map Sigma.snd

/-- The first `DELETE`. -/
def deleteOutdated (table : Table String Chunk) : Table String Chunk :=
  table.deleteWhere fun _ row => outdated (dupes (rowsOf table)) row

/-- **The migration.** -/
def dedupeReidentified (index : Index) : Index :=
  let vectorRecords := deleteOutdated index.vectorRecords
  { index with
    vectorRecords := vectorRecords
    incidentEvents := index.incidentEvents.deleteWhere fun key _ =>
      !(rowsOf vectorRecords).any fun row => row.eventId = key.2 }

/-! ### What it deletes -/

/-- A row of the table in the same group. -/
def Copy (table : Table String Chunk) (row other : Chunk) : Prop :=
  (∃ key, table.lookup key = some other) ∧ groupOf row ≠ none ∧ groupOf other = groupOf row

section Rows

variable {table : Table String Chunk} {key : String} {row other : Chunk}

theorem mem_rowsOf : row ∈ rowsOf table ↔ ∃ key, table.lookup key = some row := by
  unfold rowsOf
  rw [List.mem_map]
  constructor
  · rintro ⟨⟨key, row⟩, member, rfl⟩
    exact ⟨key, Table.mem_entries_iff.mp member⟩
  · rintro ⟨key, found⟩
    exact ⟨⟨key, row⟩, Table.mem_entries_iff.mpr found, rfl⟩

/-- The rows of a group. -/
def membersOf (table : Table String Chunk) (group : Group) : List Chunk :=
  (rowsOf table).filter fun row => groupOf row = some group

theorem mem_membersOf {group : Group} :
    row ∈ membersOf table group ↔
      (∃ key, table.lookup key = some row) ∧ groupOf row = some group := by
  unfold membersOf
  rw [List.mem_filter, mem_rowsOf, decide_eq_true_iff]

omit table key row other in
/-- One of some rows is the newest, and what `max` gives is its stamp. -/
theorem exists_latest {rows : List Chunk} {row : Chunk} (member : row ∈ rows) :
    ∃ newest ∈ rows, (rows.map Chunk.indexedAt).max? = some newest.indexedAt ∧
      ∀ other ∈ rows, other.indexedAt ≤ newest.indexedAt := by
  cases most : (rows.map Chunk.indexedAt).max? with
  | none =>
    rw [List.max?_eq_none_iff, List.map_eq_nil_iff] at most
    rw [most] at member
    cases member
  | some latest =>
    obtain ⟨newest, among, rfl⟩ := List.mem_map.mp (List.max?_mem most)
    exact ⟨newest, among, rfl, fun other inside =>
      (List.max?_le_iff most).mp le_rfl _ (List.mem_map_of_mem inside)⟩

omit table key row other in
theorem one_lt_length_of_ne {rows : List Chunk} {row other : Chunk} (member : row ∈ rows)
    (member' : other ∈ rows) (apart : row ≠ other) : 1 < rows.length := by
  by_contra few
  obtain ⟨only, one⟩ := List.length_eq_one_iff.mp
    (Nat.le_antisymm (not_lt.mp few) (List.length_pos_of_mem member))
  rw [one] at member member'
  exact apart ((List.mem_singleton.mp member).trans (List.mem_singleton.mp member').symm)

/-- A group of two rows or more is in `_dupes` with its newest stamp. -/
theorem mem_dupes {d : Dupe} : d ∈ dupes (rowsOf table) ↔
    1 < (membersOf table d.group).length ∧
      ((membersOf table d.group).map Chunk.indexedAt).max? = some d.keepAfter := by
  constructor
  · intro member
    obtain ⟨group, -, made⟩ := List.mem_filterMap.mp member
    dsimp only at made
    split at made
    · rename_i many
      obtain ⟨newest, most, rfl⟩ := Option.map_eq_some_iff.mp made
      exact ⟨many, most⟩
    · cases made
  · rintro ⟨many, most⟩
    obtain ⟨row, inside⟩ := List.exists_mem_of_length_pos (Nat.zero_lt_of_lt many)
    obtain ⟨among, grouped⟩ := mem_membersOf.mp inside
    refine List.mem_filterMap.mpr ⟨d.group, List.mem_dedup.mpr
      (List.mem_filterMap.mpr ⟨row, mem_rowsOf.mpr among, grouped⟩), ?_⟩
    dsimp only
    unfold membersOf at many most
    rw [if_pos many, most]
    rfl

/-- **A row is outdated exactly where it has a later copy.** -/
theorem outdated_iff (found : table.lookup key = some row) :
    outdated (dupes (rowsOf table)) row = true ↔
      ∃ other, Copy table row other ∧ row.indexedAt < other.indexedAt := by
  unfold outdated
  rw [List.any_eq_true]
  constructor
  · rintro ⟨d, member, matched⟩
    obtain ⟨mine, earlier⟩ := Bool.and_eq_true_iff.mp matched
    have mine : groupOf row = some d.group := of_decide_eq_true mine
    obtain ⟨-, most⟩ := mem_dupes.mp member
    obtain ⟨other, inside, same⟩ := List.mem_map.mp (List.max?_mem most)
    obtain ⟨there, grouped⟩ := mem_membersOf.mp inside
    refine ⟨other, ⟨there, ?_, grouped.trans mine.symm⟩, ?_⟩
    · rw [mine]
      exact Option.some_ne_none _
    · rw [same]
      exact of_decide_eq_true earlier
  · rintro ⟨other, ⟨there, grouped, same⟩, later⟩
    obtain ⟨group, mine⟩ := Option.ne_none_iff_exists'.mp grouped
    have among : row ∈ membersOf table group := mem_membersOf.mpr ⟨⟨key, found⟩, mine⟩
    have among' : other ∈ membersOf table group := mem_membersOf.mpr ⟨there, same.trans mine⟩
    have many := one_lt_length_of_ne among among' fun equal => later.ne (by rw [equal])
    obtain ⟨newest, -, stamp, most⟩ := exists_latest among
    exact ⟨⟨group, newest.indexedAt⟩, mem_dupes.mpr ⟨many, stamp⟩, Bool.and_eq_true_iff.mpr
      ⟨decide_eq_true mine, decide_eq_true (lt_of_lt_of_le later (most other among'))⟩⟩

/-- **What is left**: the rows that have no later copy. -/
theorem lookup_deleteOutdated :
    (deleteOutdated table).lookup key = some row ↔ table.lookup key = some row ∧
      ∀ other, Copy table row other → other.indexedAt ≤ row.indexedAt := by
  unfold deleteOutdated
  rw [Table.lookup_deleteWhere, Option.filter_eq_some_iff]
  refine and_congr_right fun found => ?_
  rw [Bool.not_eq_true', Bool.eq_false_iff, Ne, outdated_iff found]
  push Not
  rfl

/-- **Every row has a newest copy**, perhaps itself. -/
theorem exists_newest (found : table.lookup key = some row) :
    ∃ key' newest, (deleteOutdated table).lookup key' = some newest ∧
      row.indexedAt ≤ newest.indexedAt ∧ (newest = row ∨ Copy table row newest) := by
  cases grouped : groupOf row with
  | none =>
    refine ⟨key, row, lookup_deleteOutdated.mpr ⟨found, ?_⟩, le_rfl, Or.inl rfl⟩
    rintro other ⟨-, absurd, -⟩
    exact absurd.elim grouped
  | some group =>
    have here : row ∈ membersOf table group := mem_membersOf.mpr ⟨⟨key, found⟩, grouped⟩
    obtain ⟨newest, member, -, most⟩ := exists_latest here
    obtain ⟨⟨key', found'⟩, same⟩ := mem_membersOf.mp member
    have grouped' : groupOf row ≠ none := by
      rw [grouped]
      exact Option.some_ne_none _
    refine ⟨key', newest, lookup_deleteOutdated.mpr ⟨found', ?_⟩, most row here,
      Or.inr ⟨⟨key', found'⟩, grouped', same.trans grouped.symm⟩⟩
    rintro other ⟨there, -, equal⟩
    exact most other (mem_membersOf.mpr ⟨there, equal.trans same⟩)

end Rows

/-! ### What it is for -/

/-- Of one event and of another, the same text of the same moment of the same incident. -/
def Twin (table : Table String Chunk) (row other : Chunk) : Prop :=
  Copy table row other ∧ other.eventId ≠ row.eventId

/-- **Only superseded copies are removed.** -/
structure Superseded (index : Index) : Prop where
  /-- An incident keeps what was said in it and when. -/
  told : ∀ incidentId ts text,
    (∃ key row, index.vectorRecords.lookup key = some row ∧
      row.incidentId = some incidentId ∧ row.ts = ts ∧ row.text = text) ↔
    ∃ key row, (dedupeReidentified index).vectorRecords.lookup key = some row ∧
      row.incidentId = some incidentId ∧ row.ts = ts ∧ row.text = text
  /-- A row goes for a later one of another event. -/
  replaced : ∀ key row, index.vectorRecords.lookup key = some row →
    (dedupeReidentified index).vectorRecords.lookup key = none →
    ∃ key' other, (dedupeReidentified index).vectorRecords.lookup key' = some other ∧
      Twin index.vectorRecords row other ∧ row.indexedAt < other.indexedAt
  /-- An event that no other repeats keeps its chunks. -/
  single : ∀ eventId,
    (∀ key row, index.vectorRecords.lookup key = some row → row.eventId = eventId →
      ∀ other, ¬ Twin index.vectorRecords row other) →
    ∀ key row, index.vectorRecords.lookup key = some row → row.eventId = eventId →
      (dedupeReidentified index).vectorRecords.lookup key = some row
  /-- Nothing is left for a second run. -/
  settled : (dedupeReidentified (dedupeReidentified index)).vectorRecords =
    (dedupeReidentified index).vectorRecords

section Cleanup

variable {index : Index} {key : String} {row : Chunk}

/-- The migration brings no row and changes none. -/
theorem lookup_of_dedupe (left : (dedupeReidentified index).vectorRecords.lookup key = some row) :
    index.vectorRecords.lookup key = some row :=
  (lookup_deleteOutdated.mp left).1

/-- The rows of a group are of one incident. -/
theorem groupOf_eq {incidentId : String} (named : row.incidentId = some incidentId) :
    groupOf row = some ⟨incidentId, row.ts, row.text⟩ := by
  unfold groupOf
  rw [named]
  rfl

theorem incidentId_of_groupOf {group : Group} (grouped : groupOf row = some group) :
    row.incidentId = some group.incidentId ∧ row.ts = group.ts ∧ row.text = group.text := by
  obtain ⟨incidentId, named, rfl⟩ := Option.map_eq_some_iff.mp grouped
  exact ⟨named, rfl, rfl⟩

/-- **What an incident says stays**, whatever is deleted. -/
theorem told_dedupe (index : Index) (incidentId : String) (ts : Time) (text : List Char) :
    (∃ key row, index.vectorRecords.lookup key = some row ∧
      row.incidentId = some incidentId ∧ row.ts = ts ∧ row.text = text) ↔
    ∃ key row, (dedupeReidentified index).vectorRecords.lookup key = some row ∧
      row.incidentId = some incidentId ∧ row.ts = ts ∧ row.text = text := by
  constructor
  · rintro ⟨key, row, found, named, rfl, rfl⟩
    obtain ⟨key', newest, left, -, rfl | ⟨-, -, same⟩⟩ := exists_newest found
    · exact ⟨key', newest, left, named, rfl, rfl⟩
    · exact ⟨key', newest, left, incidentId_of_groupOf (same.trans (groupOf_eq named))⟩
  · rintro ⟨key, row, left, same⟩
    exact ⟨key, row, lookup_of_dedupe left, same⟩

/-- **A second run deletes nothing**: what is left has no later copy. -/
theorem dedupe_dedupe (index : Index) :
    (dedupeReidentified (dedupeReidentified index)).vectorRecords =
      (dedupeReidentified index).vectorRecords := by
  refine AList.ext (List.filter_eq_self.mpr ?_)
  rintro ⟨key, row⟩ member
  have left := Table.mem_entries_iff.mp member
  rw [Bool.not_eq_true', Bool.eq_false_iff, Ne, outdated_iff left]
  rintro ⟨other, ⟨⟨key', found⟩, grouped, same⟩, later⟩
  exact absurd ((lookup_deleteOutdated.mp left).2 other
    ⟨⟨key', lookup_of_dedupe found⟩, grouped, same⟩) (not_le.mpr later)

/-- A row that is deleted has a later copy. -/
theorem later_of_deleted (found : index.vectorRecords.lookup key = some row)
    (deleted : (dedupeReidentified index).vectorRecords.lookup key ≠ some row) :
    ∃ other, Copy index.vectorRecords row other ∧ row.indexedAt < other.indexedAt := by
  by_contra none
  push Not at none
  exact deleted (lookup_deleteOutdated.mpr ⟨found, none⟩)

end Cleanup

/-- **The migration removes only superseded copies exactly where every row with a later copy has one
of another event among the newest of its group.** -/
theorem superseded_iff (index : Index) :
    Superseded index ↔ ∀ key row, index.vectorRecords.lookup key = some row →
      (∃ other, Copy index.vectorRecords row other ∧ row.indexedAt < other.indexedAt) →
      ∃ newest, Twin index.vectorRecords row newest ∧
        ∀ other, Copy index.vectorRecords row other → other.indexedAt ≤ newest.indexedAt := by
  constructor
  · intro kept key row found later
    have deleted : (dedupeReidentified index).vectorRecords.lookup key = none := by
      cases left : (dedupeReidentified index).vectorRecords.lookup key with
      | none => rfl
      | some row' =>
        obtain rfl : row' = row := Option.some_injective _ ((lookup_of_dedupe left).symm.trans found)
        obtain ⟨other, copy, after⟩ := later
        exact absurd ((lookup_deleteOutdated.mp left).2 other copy) (not_le.mpr after)
    obtain ⟨key', newest, left, twin, after⟩ := kept.replaced key row found deleted
    refine ⟨newest, twin, fun other copy => (lookup_deleteOutdated.mp left).2 other ?_⟩
    have grouped : groupOf newest ≠ none := by
      rw [twin.1.2.2]
      exact copy.2.1
    exact ⟨copy.1, grouped, copy.2.2.trans twin.1.2.2.symm⟩
  · intro repeated
    refine ⟨told_dedupe index, fun key row found deleted => ?_, fun eventId alone key row found mine => ?_,
      dedupe_dedupe index⟩
    · have deleted : (dedupeReidentified index).vectorRecords.lookup key ≠ some row := by
        rw [deleted]
        exact (Option.some_ne_none row).symm
      obtain ⟨other, copy, later⟩ := later_of_deleted found deleted
      obtain ⟨newest, twin, most⟩ := repeated key row found ⟨other, copy, later⟩
      obtain ⟨key', there⟩ := twin.1.1
      refine ⟨key', newest, lookup_deleteOutdated.mpr ⟨there, fun next copied => ?_⟩, twin,
        lt_of_lt_of_le later (most other copy)⟩
      exact most next ⟨copied.1, twin.1.2.1, copied.2.2.trans twin.1.2.2⟩
    · by_contra deleted
      obtain ⟨newest, twin, -⟩ := repeated key row found (later_of_deleted found deleted)
      exact alone key row found mine newest twin

/-! ### An event that says the same thing twice -/

def heading : List Char := "Elevated errors: ".toList

/-- A sentence of which no two fit into one chunk. -/
def sentence : List Char :=
  ("We are investigating elevated errors on requests for issues, pull requests, webhooks and " ++
    "actions, and customers may see delays or failures of these until the work of our engineers " ++
    "on the affected databases is complete.").toList

/-- What the embedder stores of an update that says it three times. -/
def chunk (chunkIndex : Nat) (text : List Char) : Chunk where
  chunkIndex := some chunkIndex
  eventId := "github:REID1:aaaaaaaaaaaa"
  incidentId := some "github:REID1"
  service := "github"
  ts := 0
  indexedAt := chunkIndex
  source := .alert
  text := text
  title := none
  severity := none
  type := ""
  model := none
  embedding := .replicate 768 0

def oneEvent : Index where
  vectorRecords := List.toAList
    [⟨"chk_github:REID1:aaaaaaaaaaaa_0", chunk 0 (heading ++ sentence)⟩,
      ⟨"chk_github:REID1:aaaaaaaaaaaa_1", chunk 1 sentence⟩,
      ⟨"chk_github:REID1:aaaaaaaaaaaa_2", chunk 2 sentence⟩]
  eventIndexing := ∅
  incidents := ∅
  incidentServices := ∅
  incidentEvents := ∅

/-- **A repeated sentence is lost**: the only event of the table repeats it, and the row that was
stored first is deleted. -/
theorem repeated_sentence_lost :
    chunkText (heading ++ sentence ++ ' ' :: sentence ++ ' ' :: sentence) =
        [heading ++ sentence, sentence, sentence] ∧
      (dedupeReidentified oneEvent).vectorRecords.lookup "chk_github:REID1:aaaaaaaaaaaa_1" = none ∧
      ¬ Superseded oneEvent := by
  have found : oneEvent.vectorRecords.lookup "chk_github:REID1:aaaaaaaaaaaa_1" =
      some (chunk 1 sentence) := rfl
  have only : ∀ key row, oneEvent.vectorRecords.lookup key = some row →
      row.eventId = "github:REID1:aaaaaaaaaaaa" := by
    intro key row here
    have every : oneEvent.vectorRecords.entries.all fun entry =>
        entry.2.eventId = "github:REID1:aaaaaaaaaaaa" := by decide +kernel
    exact of_decide_eq_true (List.all_eq_true.mp every _ (Table.mem_entries_iff.mpr here))
  have gone : (dedupeReidentified oneEvent).vectorRecords.lookup
      "chk_github:REID1:aaaaaaaaaaaa_1" = none := by
    refine Option.eq_none_iff_forall_ne_some.mpr fun row left => ?_
    obtain rfl : row = chunk 1 sentence :=
      Option.some_injective _ ((lookup_of_dedupe left).symm.trans found)
    have later : (2 : Time) ≤ 1 := (lookup_deleteOutdated.mp left).2 (chunk 2 sentence)
      ⟨⟨"chk_github:REID1:aaaaaaaaaaaa_2", rfl⟩, Option.some_ne_none _, rfl⟩
    exact absurd later (by decide)
  refine ⟨by decide +kernel, gone, fun kept => ?_⟩
  have stays := kept.single "github:REID1:aaaaaaaaaaaa" (fun key row here mine other twin => ?_)
    "chk_github:REID1:aaaaaaaaaaaa_1" (chunk 1 sentence) found rfl
  · rw [gone] at stays
    cases stays
  · obtain ⟨⟨⟨key', there⟩, -⟩, apart⟩ := twin
    exact apart ((only key' other there).trans mine.symm)

end Freshet.Db
