/-
**The lifecycle consumer**: `handle_lifecycle`, `drain_due_briefs`, `drain_pending_followups` and
`handle_and_drain`, statement by statement.

`try … except` is `Prog.attempt` followed by a match on the outcome, so the statements inside and
outside each `try` are the source's.
-/

import Freshet.Autopilot.Investigate

namespace Freshet.Autopilot

open Freshet.Lib

/-! ### Lifecycle events -/

structure LifecycleEvent where
  type : String
  incidentId : String
  service : String
  ts : String
  title : String := ""
deriving DecidableEq, Repr

/-- The string fields of a decoded lifecycle record. `status` is the legacy name of `type`. -/
structure RawLifecycle where
  type : Option String := none
  status : Option String := none
  incidentId : Option String := none
  service : Option String := none
  ts : Option String := none
  title : Option String := none
deriving DecidableEq, Repr

/-- `LifecycleEvent.from_json` on the decoded record. -/
def LifecycleEvent.fromJson (raw : RawLifecycle) : Except Exn LifecycleEvent :=
  match raw.type.or raw.status with
  | none => .error (.error "lifecycle event has neither 'type' nor 'status'")
  | some type =>
    match raw.incidentId, raw.service, raw.ts with
    | some incidentId, some service, some ts =>
      .ok { type, incidentId, service, ts, title := raw.title.getD "" }
    | _, _, _ => .error (.error "Field required")

/-- `_event_ts`: the lifecycle ts, or now if it is unparseable. -/
def eventTs (config : Config) (ev : LifecycleEvent) : Auto Time :=
  match config.parseTs ev.ts with
  | some ts => pure ts
  | none => ask .utcNow

/-! ### Statements under their Python names -/

def claimIncident (incidentId : String) : Auto Bool :=
  sql (.claim .brief incidentId)

def claimPostmortem (incidentId : String) : Auto Bool :=
  sql (.claim (.followup .postmortem) incidentId)

def claimProgress (incidentId : String) : Auto Bool :=
  sql (.claim (.followup .progress) incidentId)

def scheduleBrief (incidentId : String) (window : Time) : Auto Unit :=
  sql (.schedule window incidentId)

def dueIncidents (limit : Nat) : Auto (List (String × String)) :=
  sql (.due limit)

def markBriefDelivered (incidentId : String) (slackTs channelId : Option String) : Auto Unit :=
  sql (.markBrief slackTs channelId incidentId)

def markPostmortemDelivered (incidentId : String) : Auto Unit :=
  sql (.markFollowup .postmortem incidentId)

def markProgressDelivered (incidentId : String) : Auto Unit :=
  sql (.markFollowup .progress incidentId)

def releaseIncident (incidentId : String) : Auto Unit :=
  sql (.release .brief incidentId)

def releasePostmortem (incidentId : String) : Auto Unit :=
  sql (.release (.followup .postmortem) incidentId)

def releaseProgress (incidentId : String) : Auto Unit :=
  sql (.release (.followup .progress) incidentId)

/-- `ensure_incident`: nothing for an empty id, else the row and its service. -/
def ensureIncident (incidentId service : String) (openedAt : Time) (title : String) : Auto Unit :=
  if incidentId = "" then pure ()
  else do
    sql (.ensureIncident incidentId title openedAt service)
    ask (.ensureService incidentId service)

/-- The polls of `wait_for_index`. Every sleep moves the monotonic clock by at least half a second,
so after `2 * timeout` of them the deadline has passed and the last poll returns what it counts. -/
def pollIndex (incidentId : String) (deadline : Time) : Nat → Auto Nat
  | 0 => ask (.indexedCount incidentId)
  | polls + 1 => do
    let n ← ask (.indexedCount incidentId)
    if n ≠ 0 then pure n
    else do
      let now ← ask .monotonic
      if now ≥ deadline then pure n
      else do
        ask .sleep
        pollIndex incidentId deadline polls

def waitForIndex (incidentId : String) (timeoutS : Nat) : Auto Nat := do
  let start ← ask .monotonic
  pollIndex incidentId (start + seconds timeoutS) (2 * timeoutS)

/-- `except Exception: cleanup; raise`. -/
def onError {α : Type} (body : Auto α) (cleanup : Auto Unit) : Auto α := do
  match ← body.attempt with
  | .ok value => pure value
  | .error exn => do
    cleanup
    .raise exn

/-! ### Handling one event -/

def handleOpened (config : Config) (ev : LifecycleEvent) : Auto Unit := do
  let now ← ask .utcNow
  let ts ← eventTs config ev
  if now - ts > seconds maxBriefAgeS then pure ()
  else do
    let openedAt ← eventTs config ev
    ensureIncident ev.incidentId ev.service openedAt ev.title
    scheduleBrief ev.incidentId config.window

/-- `opened and opened[0] and _event_ts(ev) < opened[0]`: the timestamp is only read when there is
a row to compare it with. -/
def isStale (config : Config) (ev : LifecycleEvent) (opened : Option Time) : Auto Bool :=
  match opened with
  | none => pure false
  | some openedAt => do
    let ts ← eventTs config ev
    pure (decide (ts < openedAt))

/-- The body of the `try` of the in-progress branch. -/
def postProgress (config : Config) (ev : LifecycleEvent) : Auto Unit := do
  let row ← sql (.getSlackTs ev.incidentId)
  let findings ← gatherFindings config.hasComposer false ev.service ev.incidentId "in_progress"
  let _ ← ask (.deliver ev.incidentId (.followup .progress) findings row.join)
  markProgressDelivered ev.incidentId

def handleInProgress (config : Config) (ev : LifecycleEvent) : Auto Unit := do
  let opened ← sql (.getOpenedAt ev.incidentId)
  if ← isStale config ev opened then pure ()
  else do
    -- a monitoring update may be the first one seen: keep the transition useful
    let openedAt ← eventTs config ev
    ensureIncident ev.incidentId ev.service openedAt ev.title
    scheduleBrief ev.incidentId config.window
    sql (.defer .progress ev.incidentId)
    if ← claimProgress ev.incidentId then
      onError (postProgress config ev) (releaseProgress ev.incidentId)
    else pure ()

/-- The body of the `try` of the resolved branch. -/
def postPostmortem (config : Config) (ev : LifecycleEvent) : Auto Unit := do
  let row ← sql (.getSlackTs ev.incidentId)
  let findings ← gatherPostmortem config.hasComposer ev.service ev.incidentId
  let _ ← ask (.deliver ev.incidentId (.followup .postmortem) findings row.join)
  markPostmortemDelivered ev.incidentId

def handleResolved (config : Config) (ev : LifecycleEvent) : Auto Unit := do
  let ts ← eventTs config ev
  let opened ← sql (.getOpenedAt ev.incidentId)
  if opened.any (fun openedAt => decide (ts < openedAt)) then pure ()
  else do
    sql (.markResolved ts ev.incidentId)
    sql (.defer .postmortem ev.incidentId)
    if ← claimPostmortem ev.incidentId then
      onError (postPostmortem config ev) (releasePostmortem ev.incidentId)
    else pure ()

def handleLifecycle (config : Config) (raw : RawLifecycle) : Auto Unit :=
  match LifecycleEvent.fromJson raw with
  | .error exn => .raise exn
  | .ok ev =>
    if ev.type = "opened" then handleOpened config ev
    else if ev.type = "in_progress" then handleInProgress config ev
    else if ev.type = "resolved" then handleResolved config ev
    else pure ()

/-! ### Draining -/

/-- The body of the `try` of `drain_due_briefs`. -/
def postBrief (config : Config) (incidentId service : String) : Auto (Option String) := do
  let _ ← waitForIndex incidentId config.indexTimeoutS
  let findings ← gatherFindings config.hasComposer config.hasEmbedder service incidentId "open"
  ask (.deliver incidentId .brief findings none)

/-- The loop of `drain_due_briefs`: an exhausted budget ends it, any other failure is raised. -/
def drainBriefs (config : Config) : List (String × String) → Auto Nat
  | [] => pure 0
  | (incidentId, service) :: later => do
    if ← claimIncident incidentId then
      match ← (postBrief config incidentId service).attempt with
      | .ok ts => do
        let channelId ← ask .lastChannelId
        markBriefDelivered incidentId ts channelId
        let delivered ← drainBriefs config later
        pure (delivered + 1)
      | .error (.budgetExhausted _) => do
        releaseIncident incidentId
        pure 0
      | .error (.error message) => do
        releaseIncident incidentId
        .raise (.error message)
    else drainBriefs config later

/-- What both deferred deliveries do: claim, gather and post under the lease, then record. -/
def deliverDeferred (kind : Followup) (incidentId : String)
    (gathered : String → Auto Findings) (release mark : Auto Unit) : Auto Bool := do
  match ← sql (.claimDeferred kind incidentId) with
  | none => pure false
  | some (service, slackTs) => do
    onError
      (do
        let findings ← gathered service
        let _ ← ask (.deliver incidentId (.followup kind) findings slackTs)
        pure ())
      release
    mark
    pure true

def deliverDeferredProgress (config : Config) (incidentId : String) : Auto Bool :=
  deliverDeferred .progress incidentId
    (fun service => gatherFindings config.hasComposer false service incidentId "in_progress")
    (releaseProgress incidentId) (markProgressDelivered incidentId)

def deliverDeferredPostmortem (config : Config) (incidentId : String) : Auto Bool :=
  deliverDeferred .postmortem incidentId
    (fun service => gatherPostmortem config.hasComposer service incidentId)
    (releasePostmortem incidentId) (markPostmortemDelivered incidentId)

/-- Both deferred deliveries of one incident, the body of the `try` of `drain_pending_followups`. -/
def deliverPending (config : Config) (incidentId : String) : Auto Nat := do
  let progress ← deliverDeferredProgress config incidentId
  let postmortem ← deliverDeferredPostmortem config incidentId
  pure (progress.toNat + postmortem.toNat)

/-- The loop of `drain_pending_followups`: an exhausted budget ends it. -/
def drainFollowups (config : Config) : List String → Auto Nat
  | [] => pure 0
  | incidentId :: later => do
    match ← (deliverPending config incidentId).attempt with
    | .ok delivered => do
      let rest ← drainFollowups config later
      pure (delivered + rest)
    | .error (.budgetExhausted _) => pure 0
    | .error (.error message) => .raise (.error message)

def drainPendingFollowups (config : Config) : Auto Nat := do
  let pending ← sql (.pendingFollowups config.limit)
  drainFollowups config pending

def drainDueBriefs (config : Config) : Auto Nat := do
  let due ← dueIncidents config.limit
  let delivered ← drainBriefs config due
  let _ ← drainPendingFollowups config
  pure delivered

def handleAndDrain (config : Config) (raw : RawLifecycle) : Auto Nat := do
  handleLifecycle config raw
  drainDueBriefs config

/-! ### What a worker takes up -/

/-- The entry points that touch `incidents`: the consumer's, the embedder's `ensure_incident` and
the thread agent's marker. The idle tick is `drainDueBriefs`. -/
inductive Job
  | handleLifecycle (config : Config) (raw : RawLifecycle)
  | drainDueBriefs (config : Config)
  | drainPendingFollowups (config : Config)
  | handleAndDrain (config : Config) (raw : RawLifecycle)
  | indexed (incidentId service : String) (openedAt : Time) (title : String)
  | markSeen (seenTs incidentId : String)

def Job.program : Job → Auto Unit
  | handleLifecycle config raw => Autopilot.handleLifecycle config raw
  | drainDueBriefs config => do let _ ← Autopilot.drainDueBriefs config
  | drainPendingFollowups config => do let _ ← Autopilot.drainPendingFollowups config
  | handleAndDrain config raw => do let _ ← Autopilot.handleAndDrain config raw
  | indexed incidentId service openedAt title => ensureIncident incidentId service openedAt title
  | markSeen seenTs incidentId => sql (.markSeen seenTs incidentId)

/-- A configuration that reads every stamp as time 0 and briefs at once. -/
def calmConfig : Config := { parseTs := fun _ => some 0, window := 0 }

/-- A lifecycle record of one incident. -/
def calmEvent (type : String) : RawLifecycle :=
  { type := some type, incidentId := some "inc", service := some "github",
    ts := some "2026-07-01T00:00:00Z" }

/-- The record above, decoded. -/
def calmLifecycle (type : String) : LifecycleEvent :=
  { type, incidentId := "inc", service := "github", ts := "2026-07-01T00:00:00Z" }

def calmJob (type : String) : Job := .handleAndDrain calmConfig (calmEvent type)

end Freshet.Autopilot
