/-
**The legacy section of the schema.**

`init.sql` is applied to volumes of earlier versions. Its last section adds the columns that are missing,
numbers the chunks, moves the arrays of `incidents` into tables of their own and puts the service in
front of every incident id that is still without it. The ids of the four tables are put together from
four columns, while the foreign keys are dropped; none of them is checked before.

A statement is a function of the volume that may raise. The rows of a table are a list, in the order in
which they lie.
-/

import Freshet.Lib.Rows
import Freshet.Pipeline.Keys

namespace Freshet.Db

open Freshet.Lib Freshet.Pipeline

/-! ### A volume -/

/-- The columns of `vector_records` that a volume may be without. -/
inductive VectorColumn
  | model
  | title
  | chunkIndex
  | severity
  | type
  | textTsv
deriving DecidableEq, Repr

/-- The columns of `incidents` that a volume may be without, and the two that it may still have. -/
inductive IncidentColumn
  | primaryService
  | briefAsOf
  | autoOpened
  | briefedAt
  | postmortemAt
  | slackTs
  | briefDeliveredAt
  | postmortemDeliveredAt
  | progressAt
  | progressDeliveredAt
  | progressNeeded
  | briefDueAt
  | postmortemNeeded
  | threadSeenTs
  | slackChannelId
  | services
  | eventIds
deriving DecidableEq, Repr

/-- A row of `vector_records`. -/
structure LegacyChunk where
  chunkId : String
  chunkIndex : Option Nat
  incidentId : Option String
  service : String
  text : String
deriving DecidableEq, Repr

/-- A row of `incidents`. -/
structure LegacyIncident where
  incidentId : String
  primaryService : Option String
  services : Option (List (Option String))
  eventIds : Option (List (Option String))
deriving DecidableEq, Repr

/-- **What a volume holds**, as far as the section reads it. A row holds NULL in a column that is not
there. The rows of `incident_services` and `incident_events` are their keys, and the two flags say
whether their foreign keys are in force. -/
structure Volume where
  vectorColumns : List VectorColumn
  vectorRecords : List LegacyChunk
  incidentColumns : List IncidentColumn
  incidents : List LegacyIncident
  incidentServices : List (String × String)
  incidentEvents : List (String × String)
  servicesFkey : Bool
  eventsFkey : Bool
deriving DecidableEq, Repr

/-- What a statement raises. -/
inductive SqlError
  | notNullViolation
  | uniqueViolation
  | foreignKeyViolation
  | undefinedColumn
  | undefinedObject
  | programLimitExceeded
  | cast (error : CastError)
deriving DecidableEq, Repr

/-- What the section takes from the database: `\d`, and whether `to_tsvector` takes a text. -/
structure Engine where
  isDigit : Char → Bool
  fitsTsvector : String → Bool

namespace Volume

/-- The rows refer to incidents. -/
def Refers (rows : List (String × String)) (incidents : List LegacyIncident) : Prop :=
  ∀ row ∈ rows, row.1 ∈ incidents.map LegacyIncident.incidentId

instance (rows : List (String × String)) (incidents : List LegacyIncident) :
    Decidable (Refers rows incidents) := by
  unfold Refers
  infer_instance

/-- **The constraints of an earlier schema.** -/
structure Constrained (db : Volume) : Prop where
  chunkIds : (db.vectorRecords.map LegacyChunk.chunkId).Nodup
  incidentIds : (db.incidents.map LegacyIncident.incidentId).Nodup
  services : db.incidentServices.Nodup
  events : db.incidentEvents.Nodup
  servicesFkey : db.servicesFkey = true ∧ Refers db.incidentServices db.incidents
  eventsFkey : db.eventsFkey = true ∧ Refers db.incidentEvents db.incidents
  chunkIndex : .chunkIndex ∉ db.vectorColumns → ∀ v ∈ db.vectorRecords, v.chunkIndex = none
  primaryService : .primaryService ∉ db.incidentColumns → ∀ i ∈ db.incidents, i.primaryService = none
  arrays : (.services ∉ db.incidentColumns → ∀ i ∈ db.incidents, i.services = none) ∧
    (.eventIds ∉ db.incidentColumns → ∀ i ∈ db.incidents, i.eventIds = none)

/-! ### The columns -/

/-- `ALTER TABLE vector_records ADD COLUMN IF NOT EXISTS`. Only the last column is computed. -/
def addVectorColumn (engine : Engine) (db : Volume) (column : VectorColumn) :
    Except SqlError Volume :=
  if column ∈ db.vectorColumns then .ok db
  else if column = .textTsv ∧ ¬ ∀ v ∈ db.vectorRecords, engine.fitsTsvector v.text = true then
    .error .programLimitExceeded
  else .ok { db with vectorColumns := db.vectorColumns ++ [column] }

/-- `ALTER TABLE incidents ADD COLUMN IF NOT EXISTS`. -/
def addIncidentColumn (db : Volume) (column : IncidentColumn) : Volume :=
  if column ∈ db.incidentColumns then db
  else { db with incidentColumns := db.incidentColumns ++ [column] }

def vectorAdditions : List VectorColumn := [.model, .title, .chunkIndex, .severity, .type, .textTsv]

def incidentAdditions : List IncidentColumn :=
  [.primaryService, .briefAsOf, .autoOpened, .briefedAt, .postmortemAt, .slackTs, .briefDeliveredAt,
    .postmortemDeliveredAt, .progressAt, .progressDeliveredAt, .progressNeeded, .briefDueAt,
    .postmortemNeeded, .threadSeenTs, .slackChannelId]

/-! ### The numbers of the chunks -/

/-- `SET chunk_index = coalesce(…) WHERE chunk_index IS NULL`, of one row. -/
def numberChunk (engine : Engine) (v : LegacyChunk) : Except SqlError LegacyChunk :=
  match v.chunkIndex with
  | some _ => .ok v
  | none => ((legacyChunkIndex engine.isDigit v.chunkId).mapError SqlError.cast).map fun n =>
    { v with chunkIndex := some n }

def numberChunks (engine : Engine) (db : Volume) : Except SqlError Volume :=
  (db.vectorRecords.mapM (numberChunk engine)).map fun rows => { db with vectorRecords := rows }

/-! ### The arrays -/

/-- `SELECT incident_id, unnest(…) FROM incidents`. -/
def unnest (array : LegacyIncident → Option (List (Option String))) (incidents : List LegacyIncident) :
    List (String × Option String) :=
  incidents.flatMap fun i => ((array i).getD []).map fun element => (i.incidentId, element)

/-- `INSERT INTO … ON CONFLICT DO NOTHING`. The ids are those of incidents, so the foreign key
holds. -/
def insertMissing (rows : List (String × String)) :
    List (String × Option String) → Except SqlError (List (String × String))
  | [] => .ok rows
  | (_, none) :: _ => .error .notNullViolation
  | (id, some element) :: later =>
    insertMissing (if (id, element) ∈ rows then rows else rows ++ [(id, element)]) later

/-- The first `DO` block. -/
def unnestArrays (db : Volume) : Except SqlError Volume :=
  if .services ∈ db.incidentColumns then do
    let services ← insertMissing db.incidentServices (unnest LegacyIncident.services db.incidents)
    if .eventIds ∉ db.incidentColumns then .error .undefinedColumn
    else do
      let events ← insertMissing db.incidentEvents (unnest LegacyIncident.eventIds db.incidents)
      return { db with
        incidentServices := services
        incidentEvents := events
        incidentColumns := db.incidentColumns.filter fun c => c ≠ .services ∧ c ≠ .eventIds
        incidents := db.incidents.map fun i => { i with services := none, eventIds := none } }
  else .ok db

/-! ### The services in front of the ids -/

/-- `NOT LIKE '%:%'`. -/
def isRaw (id : String) : Bool := decide (':' ∉ id.toList)

/-- `service || ':' || incident_id`. -/
def qualified (service id : String) : String := service ++ ":" ++ id

/-- `split_part(event_id, ':', 1)`. -/
def splitPart (eventId : String) : String := String.ofList (eventId.toList.takeWhile (· ≠ ':'))

/-- A chunk names the incident. -/
def mentions (db : Volume) (id : String) : Bool :=
  db.vectorRecords.any fun v => v.incidentId = some id

/-- The condition of the second `DO` block. -/
def hasRaw (db : Volume) : Bool :=
  (db.incidents.any fun i => isRaw i.incidentId) ||
    db.vectorRecords.any fun v => v.incidentId.any isRaw

/-- The `WHERE` of the first `DELETE`. -/
def isNameless (db : Volume) (i : LegacyIncident) : Bool :=
  i.primaryService.isNone && !db.mentions i.incidentId

/-- The first `DELETE`, with what its foreign keys cascade to. -/
def deleteNameless (db : Volume) : Volume :=
  let gone := (db.incidents.filter db.isNameless).map LegacyIncident.incidentId
  { db with
    incidents := db.incidents.filter fun i => !db.isNameless i
    incidentServices := db.incidentServices.filter fun row => !(db.servicesFkey && row.1 ∈ gone)
    incidentEvents := db.incidentEvents.filter fun row => !(db.eventsFkey && row.1 ∈ gone) }

/-- `DROP CONSTRAINT`, twice. -/
def dropFkeys (db : Volume) : Except SqlError Volume :=
  if db.servicesFkey && db.eventsFkey then .ok { db with servicesFkey := false, eventsFkey := false }
  else .error .undefinedObject

def qualifyChunk (v : LegacyChunk) : LegacyChunk :=
  { v with incidentId := v.incidentId.map fun id => if isRaw id then qualified v.service id else id }

/-- `SET incident_id = primary_service || ':' || incident_id`, of one row. -/
def qualifyIncident (i : LegacyIncident) : Except SqlError LegacyIncident :=
  match i.primaryService with
  | none => .error .notNullViolation
  | some service => .ok { i with incidentId := qualified service i.incidentId }

def qualifyService (row : String × String) : String × String := (qualified row.2 row.1, row.2)

def qualifyEvent (row : String × String) : String × String := (qualified (splitPart row.2) row.1, row.2)

/-- The four `UPDATE`s. -/
def qualifyIds (db : Volume) : Except SqlError Volume := do
  let incidents ← rekey LegacyIncident.incidentId (fun i => isRaw i.incidentId) qualifyIncident
    SqlError.uniqueViolation [] db.incidents
  let services ← rekey id (fun row => isRaw row.1) (fun row => .ok (qualifyService row))
    SqlError.uniqueViolation [] db.incidentServices
  let events ← rekey id (fun row => isRaw row.1) (fun row => .ok (qualifyEvent row))
    SqlError.uniqueViolation [] db.incidentEvents
  return { db with
    vectorRecords := db.vectorRecords.map qualifyChunk
    incidents := incidents
    incidentServices := services
    incidentEvents := events }

/-- The last two `DELETE`s. -/
def deleteOrphans (db : Volume) : Volume :=
  let ids := db.incidents.map LegacyIncident.incidentId
  { db with
    incidentEvents := db.incidentEvents.filter fun row => row.1 ∈ ids
    incidentServices := db.incidentServices.filter fun row => row.1 ∈ ids }

/-- `ADD CONSTRAINT`, twice. -/
def addFkeys (db : Volume) : Except SqlError Volume :=
  if Refers db.incidentServices db.incidents ∧ Refers db.incidentEvents db.incidents then
    .ok { db with servicesFkey := true, eventsFkey := true }
  else .error .foreignKeyViolation

/-- The second `DO` block. -/
def qualify (db : Volume) : Except SqlError Volume :=
  if db.hasRaw then do
    let db ← db.deleteNameless.dropFkeys
    let db ← db.qualifyIds
    db.deleteOrphans.addFkeys
  else .ok db

/-- **The legacy section.** -/
def legacySection (engine : Engine) (db : Volume) : Except SqlError Volume := do
  let db ← vectorAdditions.foldlM (addVectorColumn engine) db
  let db := incidentAdditions.foldl addIncidentColumn db
  let db ← db.numberChunks engine
  let db ← db.unnestArrays
  db.qualify

end Volume

end Freshet.Db
