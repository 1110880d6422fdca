/-
**Gathering one incident's evidence**: `gather_findings` and `gather_postmortem`.

Everything is read by incident key; the only call that can exhaust the LLM budget is the
composer's, inside `summarise`, which lets that exception through and swallows every other.
-/

import Freshet.Autopilot.Effects

namespace Freshet.Autopilot

open Freshet.Lib

/-- What the entry point hands to the consumer. `parseTs` stands for `datetime.fromisoformat` with
the trailing `Z` replaced and a naive value read as UTC; it answers `none` where that raises. -/
structure Config where
  parseTs : String → Option Time
  window : Time
  hasComposer : Bool := true
  hasEmbedder : Bool := true
  limit : Nat := 10
  indexTimeoutS : Nat := 10

def maxNarrativeUpdates : Nat := 20

def findingsQuestion : String :=
  "Summarise the incident described by these provider updates in two sentences. Name the affected " ++
  "product, region, and current state exactly as supported by the updates. Treat the provider " ++
  "label as metadata; do not reject the evidence because the product name differs from that " ++
  "label. Do not add meta-commentary about missing fields such as region unless it materially " ++
  "changes the incident summary."

def postmortemQuestion : String :=
  "The incident lifecycle state is resolved. Summarise the resolved incident described by these " ++
  "provider updates in two sentences. Name the affected product and state exactly as supported " ++
  "by the updates, and do not invent resolution details. If the updates do not describe what " ++
  "completed, say that the incident was marked resolved without additional provider detail. Do " ++
  "not repeat the same citation for the same claim."

/-- `_summarise`: a missing composer is a programming error, no updates need no narrative. -/
def summarise (hasComposer : Bool) (updates : List Update) (question : String) :
    Auto (Option String) :=
  if !hasComposer then
    .raise (.error "gather_findings/gather_postmortem need an explicit composer")
  else if updates.isEmpty then pure none
  else do
    match ← (ask (.compose question (updates.take maxNarrativeUpdates))).attempt with
    | .ok narrative => pure (some narrative)
    | .error (.budgetExhausted message) => .raise (.budgetExhausted message)
    | .error (.error _) => pure none

/-- The only field resolved by retrieval rather than key lookup. -/
def recurrenceOf (hasEmbedder : Bool) (service incidentId : String) (own : List Update) :
    Auto (Option String) :=
  if hasEmbedder && !own.isEmpty then ask (.recurrenceFor service incidentId own) else pure none

/-- `_gather`: everything a brief or a postmortem needs, from this incident alone. -/
def gather (hasComposer hasEmbedder : Bool) (service incidentId status question : String)
    (summary : Option String) (asOf : Option Time) : Auto Findings := do
  let own ← ask (.incidentUpdates incidentId asOf)
  let runbook ← ask (.fetchRunbook service)
  let narrative ← summarise hasComposer own question
  let row ← sql (.incidentMeta incidentId)
  let services ← ask (.incidentServices incidentId)
  let recurrence ← recurrenceOf hasEmbedder service incidentId own
  pure
    { service, status, updates := own, runbook, narrative, summary
      openedAt := row.map fun found => found.1
      resolvedAt := row.bind fun found => found.2.1
      services := if services.isEmpty then [service] else services
      recurrence }

/-- The evidence cut-off of a brief: the demo's for an opening brief that has one, else the opening
time of an incident that is already resolved. -/
def asOfCutoff (status : String) (row : Option (Time × Option Time × Option Time)) : Option Time :=
  match row with
  | none => none
  | some (openedAt, resolvedAt, briefAsOf) =>
    if status = "open" ∧ briefAsOf.isSome then briefAsOf
    else if resolvedAt.isSome then some openedAt else none

def gatherFindings (hasComposer hasEmbedder : Bool) (service incidentId status : String) :
    Auto Findings := do
  let row ← sql (.incidentMeta incidentId)
  gather hasComposer hasEmbedder service incidentId status findingsQuestion none
    (asOfCutoff status row)

/-- `_format_duration`. -/
def formatDuration (openedAt resolvedAt : Option Time) : Option String :=
  match openedAt, resolvedAt with
  | some opened, some resolved =>
    let secs := (resolved - opened).tdiv 1000000
    if secs < 0 then none
    else if secs < 60 then some s!"{secs}s"
    else if secs / 60 < 60 then some s!"{secs / 60}m"
    else some s!"{secs / 60 / 60}h {secs / 60 % 60}m"
  | _, _ => none

/-- `resolution_summary or "resolved"`. -/
def resolutionOr (summary : Option String) : String :=
  match summary with
  | some text => if text = "" then "resolved" else text
  | none => "resolved"

def gatherPostmortem (hasComposer : Bool) (service incidentId : String) : Auto Findings := do
  let row ← sql (.incidentRow incidentId)
  let duration := formatDuration (row.map fun found => found.1) (row.bind fun found => found.2.1)
  let summary := resolutionOr (row.bind fun found => found.2.2)
  gather hasComposer false service incidentId "resolved" postmortemQuestion
    (some (duration.elim summary fun text => s!"Duration {text} · {summary}")) none

end Freshet.Autopilot
