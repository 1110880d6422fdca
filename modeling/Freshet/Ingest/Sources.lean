/-
**The wire model of one status-feed update**: `sources.IncidentUpdate`, and the message the poller
makes of it.

An instant is a number of microseconds since the Unix epoch, in UTC.
-/

import Freshet.Kafka.BufferedProducer

namespace Freshet.Ingest

open Freshet.Kafka

/-- One update posted to one incident by one provider. -/
structure IncidentUpdate where
  provider : String
  incidentId : String
  updateId : String
  createdAt : Int
  status : String
  text : String
  incidentName : String
  bodyDigest : String := ""
deriving DecidableEq, Repr

namespace IncidentUpdate

/-- `dedup_key`: the update's identity. -/
def dedupKey (u : IncidentUpdate) : String :=
  u.provider ++ ":" ++ u.incidentId ++ ":" ++ u.updateId

/-- `partition_key`: the incident it belongs to. -/
def partitionKey (u : IncidentUpdate) : String := u.provider ++ ":" ++ u.incidentId

end IncidentUpdate

/-- `to_message`, as the object that is dumped. -/
structure Message where
  v : Nat
  provider : String
  incidentId : String
  updateId : String
  bodyDigest : String
  createdAt : String
  status : String
  text : String
  incidentName : String
deriving DecidableEq, Repr

def wireVersion : Nat := 1

def rawTopic : String := "raw.incidents"

/-- What the poller takes from the standard library: `json.dumps` of the message, the ISO form of an
instant with a literal `Z`, and the host of a URL, `urlsplit(url).netloc.lower()`. -/
structure Library where
  dumps : Message → String
  isoformatZ : Int → String
  hostOf : String → String

/-- `to_message`. -/
def toMessage (library : Library) (u : IncidentUpdate) : Message where
  v := wireVersion
  provider := u.provider
  incidentId := u.incidentId
  updateId := u.updateId
  bodyDigest := u.bodyDigest
  createdAt := library.isoformatZ u.createdAt
  status := u.status
  text := u.text
  incidentName := u.incidentName

/-- What `run` produces for an update. -/
def recordOf (library : Library) (u : IncidentUpdate) : Record where
  topic := rawTopic
  value := library.dumps (toMessage library u)
  key := some u.partitionKey

end Freshet.Ingest
