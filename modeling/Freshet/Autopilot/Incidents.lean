/-
**The `incidents` table and every SQL statement that writes it.**

One row per incident carries three delivery slots (the opening brief, the in-progress update, the
postmortem), each with a lease column, a delivered column and an owed marker. The claims, releases
and markers of the three slots are separate SQL texts in the source; here each keeps its own
definition, as the one guarded update `takeLease` (or its siblings) at its own slot and guard.

Timestamps are microseconds, as Postgres stores them. `now` is the server's `now()` while the
statement runs.
-/

import Freshet.Lib.Table

namespace Freshet.Autopilot

open Freshet.Lib

/-- Microseconds. -/
abbrev Time := Int

def seconds (n : Int) : Time := n * 1000000

def minutes (n : Int) : Time := seconds (n * 60)

def leaseMinutes : Int := 15

def maxBriefAgeS : Int := 24 * 3600

/-- The follow-ups posted into a brief's thread. -/
inductive Followup
  | progress
  | postmortem
deriving DecidableEq, Repr

/-- The delivery slots of one incident. -/
inductive Slot
  | brief
  | followup (kind : Followup)
deriving DecidableEq, Repr

/-- The columns of one incident. -/
structure Row where
  title : String
  openedAt : Time
  resolvedAt : Option Time := none
  resolutionSummary : Option String := none
  briefAsOf : Option Time := none
  primaryService : Option String
  briefedAt : Option Time := none
  postmortemAt : Option Time := none
  slackTs : Option String := none
  briefDeliveredAt : Option Time := none
  postmortemDeliveredAt : Option Time := none
  progressAt : Option Time := none
  progressDeliveredAt : Option Time := none
  progressNeeded : Bool := false
  briefDueAt : Option Time := none
  postmortemNeeded : Bool := false
  threadSeenTs : Option String := none
  slackChannelId : Option String := none
deriving DecidableEq, Repr

abbrev Incidents := Table String Row

namespace Row

/-- The lease column of a slot. -/
def lease (row : Row) : Slot → Option Time
  | .brief => row.briefedAt
  | .followup .progress => row.progressAt
  | .followup .postmortem => row.postmortemAt

/-- The delivered column of a slot. -/
def delivered (row : Row) : Slot → Option Time
  | .brief => row.briefDeliveredAt
  | .followup .progress => row.progressDeliveredAt
  | .followup .postmortem => row.postmortemDeliveredAt

/-- Whether a slot's owed marker is set: the due time of a brief, the `needed` flag of a
follow-up. -/
def owed (row : Row) : Slot → Bool
  | .brief => row.briefDueAt.isSome
  | .followup .progress => row.progressNeeded
  | .followup .postmortem => row.postmortemNeeded

def setLease (row : Row) (slot : Slot) (value : Option Time) : Row :=
  match slot with
  | .brief => { row with briefedAt := value }
  | .followup .progress => { row with progressAt := value }
  | .followup .postmortem => { row with postmortemAt := value }

/-- Record a delivery: the delivered column is stamped and the owed marker cleared. -/
def record (row : Row) (slot : Slot) (now : Time) : Row :=
  match slot with
  | .brief => { row with briefDeliveredAt := some now, briefDueAt := none }
  | .followup .progress => { row with progressDeliveredAt := some now, progressNeeded := false }
  | .followup .postmortem =>
    { row with postmortemDeliveredAt := some now, postmortemNeeded := false }

/-- Set a follow-up's `needed` flag. -/
def defer (row : Row) : Followup → Row
  | .progress => { row with progressNeeded := true }
  | .postmortem => { row with postmortemNeeded := true }

end Row

/-- A lease column that is NULL or older than `LEASE_MINUTES`. -/
def leaseFree (now : Time) (lease : Option Time) : Bool :=
  lease.all fun taken => decide (taken < now - minutes leaseMinutes)

/-! ### Claims, releases, deliveries -/

/-- The shape of all five claims: `UPDATE … SET lease = now() WHERE incident_id = … AND delivered
IS NULL AND guard AND (lease IS NULL OR lease < now() - interval) RETURNING …`. -/
def takeLease (slot : Slot) (guard : Row → Bool) (now : Time) (incidentId : String) :
    Incidents → Option Row × Incidents :=
  Table.updateWhere incidentId
    (fun row => (row.delivered slot).isNone && guard row && leaseFree now (row.lease slot))
    (fun row => row.setLease slot (some now))

def claimSql := takeLease .brief fun _ => true

/-- Only postmortem what we briefed. -/
def postmortemClaimSql := takeLease (.followup .postmortem) fun row => row.briefDeliveredAt.isSome

def progressClaimSql := takeLease (.followup .progress) fun row => row.briefDeliveredAt.isSome

def claimDeferredPostmortemSql :=
  takeLease (.followup .postmortem) fun row => row.postmortemNeeded && row.briefDeliveredAt.isSome

def claimDeferredProgressSql :=
  takeLease (.followup .progress) fun row => row.progressNeeded && row.briefDeliveredAt.isSome

/-- The shape of the three releases, which name no holder. -/
def clearLease (slot : Slot) (incidentId : String) : Incidents → Incidents :=
  Table.modify incidentId fun row => row.setLease slot none

def releaseSql := clearLease .brief

def releasePostmortemSql := clearLease (.followup .postmortem)

def releaseProgressSql := clearLease (.followup .progress)

def markBriefSql (now : Time) (slackTs channelId : Option String) (incidentId : String) :
    Incidents → Incidents :=
  Table.modify incidentId fun row =>
    { row.record .brief now with
      slackTs := slackTs.or row.slackTs
      slackChannelId := channelId.or row.slackChannelId }

/-- The shape of the two follow-up marks. -/
def markFollowup (kind : Followup) (now : Time) (incidentId : String) : Incidents → Incidents :=
  Table.modify incidentId fun row => row.record (.followup kind) now

def markPostmortemSql := markFollowup .postmortem

def markProgressSql := markFollowup .progress

/-! ### Owed markers -/

def scheduleSql (now : Time) (window : Time) (incidentId : String) (table : Incidents) :
    Incidents :=
  (Table.updateWhere incidentId
    (fun row => row.briefDeliveredAt.isNone && row.briefDueAt.isNone)
    (fun row => { row with briefDueAt := some (now + window) }) table).2

/-- The shape of the two deferrals. Their `RETURNING` is read by nobody. -/
def setNeeded (kind : Followup) (incidentId : String) (table : Incidents) : Incidents :=
  (Table.updateWhere incidentId (fun row => (row.delivered (.followup kind)).isNone)
    (fun row => row.defer kind) table).2

def deferPostmortemSql := setNeeded .postmortem

def deferProgressSql := setNeeded .progress

/-! ### Selections -/

/-- The `WHERE` of `_DUE_SQL`. -/
def isDue (now : Time) (row : Row) : Bool :=
  row.briefDueAt.any (fun due => decide (due ≤ now)) && row.briefDeliveredAt.isNone

/-- `_DUE_SQL` without its `LIMIT`. -/
def dueSql (now : Time) (table : Incidents) : List (String × String) :=
  (Table.select (fun _ row => isDue now row)
    (fun first second => decide (first.2.briefDueAt.getD 0 ≤ second.2.briefDueAt.getD 0))
    table).map fun entry => (entry.1, entry.2.primaryService.getD "")

/-- One arm of the `WHERE` of `_PENDING_FOLLOWUPS_SQL`. -/
def isPendingArm (now : Time) (kind : Followup) (row : Row) : Bool :=
  row.owed (.followup kind) && (row.delivered (.followup kind)).isNone &&
    leaseFree now (row.lease (.followup kind))

/-- The `WHERE` of `_PENDING_FOLLOWUPS_SQL`. -/
def isPending (now : Time) (row : Row) : Bool :=
  row.briefDeliveredAt.isSome && (isPendingArm now .progress row || isPendingArm now .postmortem row)

/-- `_PENDING_FOLLOWUPS_SQL` without its `LIMIT`. -/
def pendingFollowupsSql (now : Time) (table : Incidents) : List String :=
  (Table.select (fun _ row => isPending now row)
    (fun first second =>
      decide (first.2.briefDeliveredAt.getD 0 < second.2.briefDeliveredAt.getD 0) ||
        (decide (first.2.briefDeliveredAt.getD 0 = second.2.briefDeliveredAt.getD 0) &&
          decide (first.1 ≤ second.1)))
    table).map fun entry => entry.1

def getSlackTsSql (incidentId : String) (table : Incidents) : Option (Option String) :=
  (table.lookup incidentId).map fun row => row.slackTs

def getOpenedAtSql (incidentId : String) (table : Incidents) : Option Time :=
  (table.lookup incidentId).map fun row => row.openedAt

/-- `_INCIDENT_META_SQL`: opened_at, resolved_at, brief_as_of. -/
def incidentMetaSql (incidentId : String) (table : Incidents) :
    Option (Time × Option Time × Option Time) :=
  (table.lookup incidentId).map fun row => (row.openedAt, row.resolvedAt, row.briefAsOf)

/-- `_INCIDENT_ROW_SQL`: opened_at, resolved_at, resolution_summary. -/
def incidentRowSql (incidentId : String) (table : Incidents) :
    Option (Time × Option Time × Option String) :=
  (table.lookup incidentId).map fun row => (row.openedAt, row.resolvedAt, row.resolutionSummary)

/-! ### The other writers -/

def markResolvedSql (resolvedAt : Time) (incidentId : String) : Incidents → Incidents :=
  Table.modify incidentId fun row => { row with resolvedAt := row.resolvedAt.or (some resolvedAt) }

/-- The row `ENSURE_INCIDENT_SQL` inserts: no slot claimed, delivered or owed. -/
def freshRow (title : String) (openedAt : Time) (service : String) : Row :=
  { title, openedAt, primaryService := some service }

def ensureIncidentSql (incidentId title : String) (openedAt : Time) (service : String) :
    Incidents → Incidents :=
  Table.upsert incidentId (freshRow title openedAt service) fun row =>
    { row with
      title := if row.title = "" then title else row.title
      primaryService := row.primaryService.or (some service) }

/-- The thread agent's `_MARK_SEEN_SQL`. -/
def markSeenSql (seenTs : String) (incidentId : String) : Incidents → Incidents :=
  Table.modify incidentId fun row => { row with threadSeenTs := some seenTs }

end Freshet.Autopilot
