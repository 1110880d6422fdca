/-
**The index and every SQL statement the embedder sends it.**

A chunk's key is made of its event's id and its number, and names both (`chunkId_inj`). So in a
table whose keys are those of its rows (`WellKeyed`) the chunks of an event are what is found under
`chunkId` (`Index.chunk`), and each statement has one lemma that says which of them it changes.
-/

import Freshet.Autopilot.Incidents
import Freshet.Lib.Numbering
import Freshet.Pipeline.VecLiteral

namespace Freshet.Pipeline

open Freshet.Lib
open Freshet.Autopilot (Time Incidents ensureIncidentSql)

/-! ### Rows -/

inductive EventSource
  | alert
  | deploy
  | metric
  | chat
  | postmortem
  | runbook
deriving DecidableEq, Repr

def EventSource.value : EventSource → String
  | alert => "alert"
  | deploy => "deploy"
  | metric => "metric"
  | chat => "chat"
  | postmortem => "postmortem"
  | runbook => "runbook"

inductive Severity
  | sev1
  | sev2
  | sev3
  | sev4
deriving DecidableEq, Repr

/-- `VectorRecord`. -/
structure VectorRecord where
  chunkId : String
  chunkIndex : Nat
  eventId : String
  incidentId : Option String
  service : String
  ts : Time
  indexedAt : Time
  text : List Char
  title : Option String
  source : EventSource
  severity : Option Severity
  type : String
deriving DecidableEq

/-- The columns of `vector_records` behind `chunk_id`. -/
structure Chunk where
  chunkIndex : Option Nat
  eventId : String
  incidentId : Option String
  service : String
  ts : Time
  indexedAt : Time
  source : EventSource
  text : List Char
  title : Option String
  severity : Option Severity
  type : String
  model : Option String
  embedding : Column
deriving DecidableEq

/-- The `VALUES` of `UPSERT_SQL`; `embedding` is what `%s::vector` makes of the literal. -/
def Chunk.fresh (rec : VectorRecord) (embedding : Column) (model : Option String) : Chunk where
  chunkIndex := some rec.chunkIndex
  eventId := rec.eventId
  incidentId := rec.incidentId
  service := rec.service
  ts := rec.ts
  indexedAt := rec.indexedAt
  source := rec.source
  text := rec.text
  title := rec.title
  severity := rec.severity
  type := rec.type
  model := model
  embedding := embedding

/-- The `SET` of its `ON CONFLICT (chunk_id) DO UPDATE`. -/
def Chunk.updated (row : Chunk) (rec : VectorRecord) (embedding : Column)
    (model : Option String) : Chunk :=
  { row with
    indexedAt := rec.indexedAt
    chunkIndex := some rec.chunkIndex
    text := rec.text
    severity := rec.severity
    type := rec.type
    embedding := embedding
    model := model
    title := rec.title }

/-- The columns of `event_indexing` behind `event_id`. -/
structure Receipt where
  firstIndexObserved : Bool
  firstQueryableAt : Option Time
  lastQueryableAt : Option Time
deriving DecidableEq, Repr

structure Index where
  vectorRecords : Table String Chunk
  eventIndexing : Table String Receipt
  incidents : Incidents
  incidentServices : Table (String × String) Unit
  incidentEvents : Table (String × String) Unit

/-! ### Statements -/

inductive Statement
  | registerIndexing (eventId : String)
  | upsertRecord (rec : VectorRecord) (embedding : Column) (model : Option String)
  | deleteOrphanChunks (eventId : String) (count : Nat)
  | ensureIncident (incidentId title : String) (openedAt : Time) (service : String)
  | ensureService (incidentId service : String)
  | incidentEvent (incidentId eventId : String)
  | completeIndexing (eventId : String)
deriving DecidableEq

/-- What a statement's caller fetches: the receipt's `RETURNING last_queryable_at`, if there is a
row. -/
abbrev Statement.Ans : Statement → Type
  | completeIndexing _ => Option Time
  | _ => Unit

namespace Index

/-- `EXISTS (SELECT 1 FROM vector_records WHERE event_id = …)`. -/
def hasChunks (index : Index) (eventId : String) : Bool :=
  index.vectorRecords.entries.any fun entry => decide (entry.2.eventId = eventId)

/-- What a receipt becomes when `_COMPLETE_INDEXING_SQL` runs at `now`. -/
def complete (now : Time) (receipt : Receipt) : Receipt :=
  { receipt with
    firstQueryableAt :=
      if receipt.firstIndexObserved then some (receipt.firstQueryableAt.getD now) else none
    lastQueryableAt := some now }

/-- **What a statement does**, `now` being the database's clock. -/
def exec (now : Time) : Statement → Index → Index
  | .registerIndexing eventId, index =>
    { index with
      eventIndexing :=
        index.eventIndexing.upsert eventId ⟨!index.hasChunks eventId, none, none⟩ id }
  | .upsertRecord rec embedding model, index =>
    { index with
      vectorRecords :=
        index.vectorRecords.upsert rec.chunkId (.fresh rec embedding model)
          fun row => row.updated rec embedding model }
  | .deleteOrphanChunks eventId count, index =>
    { index with
      vectorRecords :=
        index.vectorRecords.deleteWhere fun _ row =>
          decide (row.eventId = eventId) && row.chunkIndex.any fun i => decide (count ≤ i) }
  | .ensureIncident incidentId title openedAt service, index =>
    { index with incidents := ensureIncidentSql incidentId title openedAt service index.incidents }
  | .ensureService incidentId service, index =>
    { index with incidentServices := index.incidentServices.upsert (incidentId, service) () id }
  | .incidentEvent incidentId eventId, index =>
    { index with incidentEvents := index.incidentEvents.upsert (incidentId, eventId) () id }
  | .completeIndexing eventId, index =>
    { index with eventIndexing := index.eventIndexing.modify eventId (complete now) }

/-- What it answers. -/
def answer (now : Time) : (statement : Statement) → Index → statement.Ans
  | .completeIndexing eventId, index => (index.eventIndexing.lookup eventId).map fun _ => now
  | .registerIndexing _, _ => ()
  | .upsertRecord _ _ _, _ => ()
  | .deleteOrphanChunks _ _, _ => ()
  | .ensureIncident _ _ _ _, _ => ()
  | .ensureService _ _, _ => ()
  | .incidentEvent _ _, _ => ()

end Index

/-! ### Keys -/

/-- `f"chk_{ev.event_id}_{i}"`. -/
def chunkId (eventId : String) (i : Nat) : String := "chk_" ++ eventId ++ "_" ++ toString i

theorem toList_chunkId (eventId : String) (i : Nat) :
    (chunkId eventId i).toList = suffixed ("chk_".toList ++ eventId.toList) '_' i := by
  unfold chunkId suffixed
  rw [String.toList_append, String.toList_append, String.toList_append, List.append_assoc]
  congr 1
  show '_' :: (Nat.repr i).toList = _
  rw [Nat.toList_repr]

/-- **A chunk's id names its event and its number.** -/
theorem chunkId_inj {eventId eventId' : String} {i i' : Nat}
    (same : chunkId eventId i = chunkId eventId' i') : eventId = eventId' ∧ i = i' := by
  have eq := congrArg String.toList same
  rw [toList_chunkId, toList_chunkId] at eq
  obtain ⟨names, numbers⟩ := suffixed_inj (by decide) eq
  exact ⟨String.toList_injective (List.append_cancel_left names), numbers⟩

/-- The chunk of an event with a number. -/
def Index.chunk (index : Index) (eventId : String) (i : Nat) : Option Chunk :=
  index.vectorRecords.lookup (chunkId eventId i)

/-- Every row stands under the key its columns make. -/
def Index.WellKeyed (index : Index) : Prop :=
  ∀ key row, index.vectorRecords.lookup key = some row →
    ∃ i, row.chunkIndex = some i ∧ key = chunkId row.eventId i

namespace Index

/-- The statements that do not write `vector_records`. -/
def Spares : Statement → Prop
  | .upsertRecord _ _ _ => False
  | .deleteOrphanChunks _ _ => False
  | _ => True

theorem vectorRecords_exec {statement : Statement} (spares : Spares statement) (now : Time)
    (index : Index) : (index.exec now statement).vectorRecords = index.vectorRecords := by
  cases statement with
  | upsertRecord rec embedding model => exact spares.elim
  | deleteOrphanChunks eventId count => exact spares.elim
  | registerIndexing eventId => rfl
  | ensureIncident incidentId title openedAt service => rfl
  | ensureService incidentId service => rfl
  | incidentEvent incidentId eventId => rfl
  | completeIndexing eventId => rfl

theorem chunk_spared {statement : Statement} (spares : Spares statement) (now : Time)
    (index : Index) (eventId : String) (i : Nat) :
    (index.exec now statement).chunk eventId i = index.chunk eventId i := by
  unfold chunk
  rw [vectorRecords_exec spares]

/-- The rows of an event are its chunks. -/
theorem WellKeyed.columns {index : Index} (keyed : index.WellKeyed) {eventId : String} {i : Nat}
    {row : Chunk} (found : index.chunk eventId i = some row) :
    row.eventId = eventId ∧ row.chunkIndex = some i := by
  obtain ⟨j, numbered, same⟩ := keyed _ row found
  obtain ⟨rfl, rfl⟩ := chunkId_inj same
  exact ⟨rfl, numbered⟩

theorem WellKeyed.exists_chunk {index : Index} (keyed : index.WellKeyed) {key : String}
    {row : Chunk} (found : index.vectorRecords.lookup key = some row) :
    ∃ i, index.chunk row.eventId i = some row := by
  obtain ⟨i, -, rfl⟩ := keyed key row found
  exact ⟨i, found⟩

/-- A record stands under its own key. -/
def Keyed (rec : VectorRecord) : Prop := rec.chunkId = chunkId rec.eventId rec.chunkIndex

/-- **What an upsert changes**: one chunk, which is new or has some of its columns overwritten. -/
theorem chunk_upsert {rec : VectorRecord} (keyed : Keyed rec) (embedding : Column)
    (model : Option String) (now : Time) (index : Index) (eventId : String) (i : Nat) :
    (index.exec now (.upsertRecord rec embedding model)).chunk eventId i =
      if eventId = rec.eventId ∧ i = rec.chunkIndex then
        some (((index.chunk eventId i).map fun row => row.updated rec embedding model).getD
          (.fresh rec embedding model))
      else index.chunk eventId i := by
  unfold chunk
  show (index.vectorRecords.upsert rec.chunkId _ _).lookup _ = _
  rw [Table.lookup_upsert]
  by_cases same : eventId = rec.eventId ∧ i = rec.chunkIndex
  · obtain ⟨rfl, rfl⟩ := same
    rw [if_pos keyed.symm, if_pos ⟨rfl, rfl⟩, keyed]
  · have other : chunkId eventId i ≠ rec.chunkId := by
      intro eq
      exact same (chunkId_inj (eq.trans keyed))
    rw [if_neg other, if_neg same]

/-- **What the deletion of the orphans changes**: the event's chunks from the count on are gone. -/
theorem chunk_delete {index : Index} (keyed : index.WellKeyed) (eventId : String) (count : Nat)
    (now : Time) (other : String) (i : Nat) :
    (index.exec now (.deleteOrphanChunks eventId count)).chunk other i =
      if other = eventId ∧ count ≤ i then none else index.chunk other i := by
  unfold chunk
  show (index.vectorRecords.deleteWhere _).lookup _ = _
  rw [Table.lookup_deleteWhere]
  cases found : index.vectorRecords.lookup (chunkId other i) with
  | none => simp
  | some row =>
    obtain ⟨same, numbered⟩ := keyed.columns found
    have matched : (decide (row.eventId = eventId) && row.chunkIndex.any fun i => decide (count ≤ i))
        = decide (other = eventId ∧ count ≤ i) := by
      rw [same, numbered, Option.any_some, Bool.decide_and]
    rw [Option.filter_some, matched]
    by_cases orphan : other = eventId ∧ count ≤ i
    · simp [orphan]
    · simp [orphan]

/-- The records that a statement writes stand under their keys. -/
def KeyedStatement : Statement → Prop
  | .upsertRecord rec _ _ => Keyed rec
  | _ => True

/-- **Every statement keeps the keys right.** -/
theorem WellKeyed.exec {index : Index} (keyed : index.WellKeyed) {statement : Statement}
    (fits : KeyedStatement statement) (now : Time) : (index.exec now statement).WellKeyed := by
  by_cases spares : Spares statement
  · unfold WellKeyed
    rw [vectorRecords_exec spares]
    exact keyed
  intro key row found
  cases statement with
  | upsertRecord rec embedding model =>
    have found' : (index.vectorRecords.upsert rec.chunkId (.fresh rec embedding model)
        fun row => row.updated rec embedding model).lookup key = some row := found
    rw [Table.lookup_upsert] at found'
    split_ifs at found' with same
    · subst same
      cases old : index.vectorRecords.lookup rec.chunkId with
      | none =>
        rw [old] at found'
        obtain rfl := Option.some.inj found'
        exact ⟨rec.chunkIndex, rfl, fits⟩
      | some before =>
        rw [old] at found'
        obtain rfl := Option.some.inj found'
        have old' : index.chunk rec.eventId rec.chunkIndex = some before := by
          unfold chunk
          rw [← show rec.chunkId = _ from fits]
          exact old
        refine ⟨rec.chunkIndex, rfl, ?_⟩
        show rec.chunkId = chunkId before.eventId rec.chunkIndex
        rw [(keyed.columns old').1]
        exact fits
    · exact keyed key row found'
  | deleteOrphanChunks eventId count =>
    have found' : (index.vectorRecords.deleteWhere fun _ row =>
        decide (row.eventId = eventId) && row.chunkIndex.any fun i => decide (count ≤ i)).lookup
          key = some row := found
    rw [Table.lookup_deleteWhere] at found'
    exact keyed key row (Option.filter_eq_some_iff.mp found').1
  | registerIndexing eventId => exact absurd trivial spares
  | ensureIncident incidentId title openedAt service => exact absurd trivial spares
  | ensureService incidentId service => exact absurd trivial spares
  | incidentEvent incidentId eventId => exact absurd trivial spares
  | completeIndexing eventId => exact absurd trivial spares

end Index

end Freshet.Pipeline
