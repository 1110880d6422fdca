/-
**The deduplication of the stream job**: `INSERT INTO normalized_updates`.

A column that JSON leaves out is NULL, and `||` with a NULL is NULL. A row number counts the rows of
one partition in the order in which they arrive, so row number one is the first of its partition.
-/

import Freshet.Ingest.Sources
import Freshet.Lib.KeepFirst

namespace Freshet.Stream

open Freshet.Ingest Freshet.Lib

/-- A row of `raw_incidents`. -/
structure RawIncident where
  v : Option Int
  provider : Option String
  incidentId : Option String
  updateId : Option String
  bodyDigest : Option String
  createdAt : Option Int
  status : Option String
  text : Option String
  incidentName : Option String
  procTime : Int
deriving DecidableEq, Repr

/-- A row of `normalized_updates`. -/
structure NormalizedUpdate where
  v : Int
  eventId : Option String
  ts : Option Int
  ingestedAt : Int
  service : Option String
  source : String
  type : String
  incidentId : Option String
  text : Option String
  title : Option String
deriving DecidableEq, Repr

/-- `||`. -/
def joined (first second : Option String) : Option String := do
  let a ← first
  let b ← second
  return a ++ b

namespace RawIncident

/-- What `ROW_NUMBER` partitions by. -/
structure Partition where
  provider : Option String
  incidentId : Option String
  updateId : Option String
  bodyDigest : String
deriving DecidableEq, Repr

def partition (row : RawIncident) : Partition where
  provider := row.provider
  incidentId := row.incidentId
  updateId := row.updateId
  bodyDigest := row.bodyDigest.getD ""

/-- What the outer `SELECT` makes of a row. -/
def normalized (row : RawIncident) : NormalizedUpdate where
  v := row.v.getD 1
  eventId := joined (joined (joined (joined row.provider (some ":")) row.incidentId) (some ":"))
    row.updateId
  ts := row.createdAt
  ingestedAt := row.procTime
  service := row.provider
  source := "alert"
  type := "status_update"
  incidentId := joined (joined row.provider (some ":")) row.incidentId
  text := joined (joined row.incidentName (some ": ")) row.text
  title := row.incidentName

end RawIncident

/-- The inner `SELECT`, with `seq = 1`. -/
def firsts (rows : List RawIncident) : List RawIncident :=
  keepFirst RawIncident.partition [] (rows.filter fun row => row.createdAt.isSome)

/-- `INSERT INTO normalized_updates`. -/
def normalizedUpdates (rows : List RawIncident) : List NormalizedUpdate :=
  (firsts rows).map RawIncident.normalized

/-- A message as the table reads it; `readStamp` is the reader of its ISO-8601 timestamps. -/
def received (readStamp : String → Option Int) (message : Message) (procTime : Int) :
    RawIncident where
  v := some message.v
  provider := some message.provider
  incidentId := some message.incidentId
  updateId := some message.updateId
  bodyDigest := some message.bodyDigest
  createdAt := readStamp message.createdAt
  status := some message.status
  text := some message.text
  incidentName := some message.incidentName
  procTime := procTime

/-- **Every partition of rows that have a timestamp is emitted exactly once.** -/
theorem firsts_once {rows : List RawIncident} {row : RawIncident} (member : row ∈ rows)
    (stamped : row.createdAt.isSome) :
    ∃ first ∈ rows, first.partition = row.partition ∧
      (firsts rows).filter (fun other => other.partition = row.partition) = [first] := by
  have kept : row ∈ rows.filter fun row => row.createdAt.isSome :=
    List.mem_filter.mpr ⟨member, stamped⟩
  obtain ⟨first, among, same, once⟩ := keepFirst_once RawIncident.partition kept
  exact ⟨first, List.mem_of_mem_filter among, same, once⟩

end Freshet.Stream
