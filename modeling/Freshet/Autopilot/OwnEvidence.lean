/-
**A brief reads only its own incident.**

`gather_findings` and `gather_postmortem` are run against an index. Every statement they send is keyed by
the incident, or by the service and the type `runbook`; the recurrence alone is searched for. So two
indexes with the same rows under those keys give the same findings, the recurrence aside.

* `Agree` — the rows that may be read.
* `Session.read_gather` — what `_gather` returns, as a function of the answers of its queries.
* **`own_evidence`** — the findings of two indexes that agree.
-/

import Freshet.Autopilot.Investigate
import Freshet.Autopilot.Quotes
import Freshet.Pipeline.Index
import Mathlib.Data.String.Basic

namespace Freshet.Autopilot

open Freshet.Lib Freshet.Pipeline
open Freshet.Pipeline (Index)

/-! ### The queries -/

/-- **The collation of the database**: the order of its texts, by which what a query leaves open is
settled too. -/
structure Collation where
  before : String → String → Bool
  total : ∀ a b, before a b = true ∨ before b a = true
  trans : ∀ a b c, before a b = true → before b c = true → before a c = true
  antisymm : ∀ a b, before a b = true → before b a = true → a = b

namespace Collation

variable (collation : Collation)

/-- `min(…)` over texts. -/
def least (texts : List String) : String := (texts.mergeSort collation.before).head?.getD ""

/-- The rows of `vector_records` that a `WHERE` matches. -/
def chunks (matched : Chunk → Bool) (table : Table String Chunk) : List Chunk :=
  (table.select (fun _ row => matched row) fun first second =>
    collation.before first.1 second.1).map Sigma.snd

end Collation

/-- `ORDER BY chunk_index`, which puts nulls last. -/
def byChunkIndex (first second : Chunk) : Bool :=
  match first.chunkIndex, second.chunkIndex with
  | _, none => true
  | none, some _ => false
  | some i, some j => i ≤ j

/-- A group of `_INCIDENT_UPDATES_SQL`. -/
def updateOf (collation : Collation) (eventId : String) (rows : List Chunk) : Update where
  eventId := eventId
  ts := ((rows.map Chunk.ts).max?).getD 0
  text := String.ofList ([' '].intercalate ((rows.mergeSort byChunkIndex).map Chunk.text))
  service := collation.least (rows.map Chunk.service)
  type := collation.least (rows.map Chunk.type)
  source := collation.least (rows.map fun row => row.source.value)

/-- `fetch_incident_updates`. -/
def fetchIncidentUpdates (collation : Collation) (incidentId : String) (asOf : Option Time)
    (index : Index) : List Update :=
  let rows := collation.chunks (fun row => row.incidentId = some incidentId &&
    asOf.all fun cutoff => row.ts ≤ cutoff) index.vectorRecords
  ((rows.map Chunk.eventId).dedup.map fun eventId =>
    updateOf collation eventId (rows.filter fun row => row.eventId = eventId)).mergeSort
      fun first second => second.ts ≤ first.ts

/-- The placeholders of `fetch_runbook`. -/
def noRunbook : List String := ["none", "none found", "no runbook found", "n/a"]

/-- `fetch_runbook`. -/
def fetchRunbook (collation : Collation) (unicode : Unicode) (service : String) (index : Index) :
    Option String :=
  let rows := collation.chunks (fun row => row.service = service && row.type = "runbook")
    index.vectorRecords
  match (rows.mergeSort fun first second => first.ts ≤ second.ts).head? with
  | none => none
  | some row =>
    if row.text = [] then none
    else
      let value := strip row.text
      if unicode.lower value ∈ noRunbook.map String.toList then none else some (String.ofList value)

/-- `_INCIDENT_SERVICES_SQL`. -/
def fetchServices (collation : Collation) (incidentId : String) (index : Index) : List String :=
  (index.incidentServices.select (fun key _ => key.1 = incidentId) fun first second =>
    collation.before first.1.2 second.1.2).map fun entry => entry.1.2

/-! ### The code around them -/

/-- **What a brief is made with.** The search for a recurrence may fail over the incident's own text,
and answers from the index. `estimate_impact` works on floats; it is a function of its four arguments. -/
structure Session where
  collation : Collation
  unicode : Unicode
  now : Time
  moment : Time → Moment
  compose : String → List Update → Except Exn String
  recurrenceFor : String → String → List Update → Except Exn (Index → Option String)
  estimateImpact : List String → Option Time → Option Time → List String → String

namespace Session

variable (session : Session)

/-- What a call answers over an index. -/
def answer (index : Index) : (op : Op) → Except Exn op.Ans
  | .sql stmt => .ok (stmt.exec session.now index.incidents).1
  | .incidentUpdates incidentId asOf =>
    .ok (fetchIncidentUpdates session.collation incidentId asOf index)
  | .fetchRunbook service => .ok (fetchRunbook session.collation session.unicode service index)
  | .incidentServices incidentId => .ok (fetchServices session.collation incidentId index)
  | .recurrenceFor service incidentId own =>
    (session.recurrenceFor service incidentId own).map fun search => search index
  | .compose question hits => session.compose question hits
  | op => .ok (calmReply op)

/-- What a program that only reads returns. -/
def read (index : Index) {α : Type} (program : Auto α) : Except Exn α :=
  (program.run (fun op index => (session.answer index op, index)) index).1

end Session

/-- `gather_postmortem`, with an embedder or without. -/
def gatherPostmortemWith (hasComposer hasEmbedder : Bool) (service incidentId : String) :
    Auto Findings := do
  let row ← sql (.incidentRow incidentId)
  let duration := formatDuration (row.map fun found => found.1) (row.bind fun found => found.2.1)
  let summary := resolutionOr (row.bind fun found => found.2.2)
  gather hasComposer hasEmbedder service incidentId "resolved" postmortemQuestion
    (some (duration.elim summary fun text => s!"Duration {text} · {summary}")) none

theorem gatherPostmortem_eq (hasComposer : Bool) (service incidentId : String) :
    gatherPostmortem hasComposer service incidentId =
      gatherPostmortemWith hasComposer false service incidentId := rfl

/-- The fields of `Findings`, the recurrence aside. -/
structure Brief where
  service : String
  status : String
  causeText : Option (List Char)
  causeCite : Option (List Char)
  fixText : Option (List Char)
  fixCite : Option (List Char)
  runbook : Option String
  narrative : Option String
  summary : Option String
  impact : String
  updates : List (List Char)
deriving DecidableEq

namespace Session

variable (session : Session)

/-- An update, as the brief quotes it. -/
def hit (update : Update) : Hit := ⟨update.eventId.toList, session.moment update.ts, update.text.toList⟩

/-- **What `_gather` makes of its ingredients.** -/
def brief (found : Findings) : Brief where
  service := found.service
  status := found.status
  causeText := (causeFromUpdates session.unicode (found.updates.map session.hit)).map Prod.fst
  causeCite := (causeFromUpdates session.unicode (found.updates.map session.hit)).map Prod.snd
  fixText := none
  fixCite := none
  runbook := found.runbook
  narrative := found.narrative
  summary := found.summary
  impact := session.estimateImpact found.services found.openedAt found.resolvedAt
    (found.updates.map Update.text)
  updates := updateLines (found.updates.map session.hit)

/-! ### What is read -/

theorem run_snd (index : Index) {α : Type} (program : Auto α) :
    (program.run (fun op index => (session.answer index op, index)) index).2 = index := by
  induction program with
  | ret value => rfl
  | raise exn => rfl
  | call op next ih => exact ih _

theorem read_bind (index : Index) {α β : Type} (first : Auto α) (next : α → Auto β) :
    session.read index (first.bind next) =
      (session.read index first).bind fun value => session.read index (next value) := by
  have same := session.run_snd index first
  unfold read
  rw [Prog.run_bind]
  cases ran : first.run (fun op index => (session.answer index op, index)) index with
  | mk outcome after =>
    rw [ran] at same
    obtain rfl : after = index := same
    cases outcome <;> rfl

theorem read_ask (index : Index) (op : Op) : session.read index (ask op) = session.answer index op := by
  unfold read ask
  rw [Prog.run_perform]

/-- What `_summarise` returns. -/
def narrative (hasComposer : Bool) (updates : List Update) (question : String) :
    Except Exn (Option String) :=
  if !hasComposer then
    .error (.error "gather_findings/gather_postmortem need an explicit composer")
  else if updates.isEmpty then .ok none
  else match session.compose question (updates.take maxNarrativeUpdates) with
    | .ok text => .ok (some text)
    | .error (.budgetExhausted message) => .error (.budgetExhausted message)
    | .error (.error _) => .ok none

/-- **The summary reads nothing but the updates it is given.** -/
theorem read_summarise (index : Index) (hasComposer : Bool) (updates : List Update)
    (question : String) : session.read index (summarise hasComposer updates question) =
      session.narrative hasComposer updates question := by
  unfold summarise narrative
  by_cases missing : (!hasComposer) = true
  · rw [if_pos missing, if_pos missing]
    rfl
  · rw [if_neg missing, if_neg missing]
    by_cases none : updates.isEmpty = true
    · rw [if_pos none, if_pos none]
      rfl
    · rw [if_neg none, if_neg none]
      have asked : session.read index
          (ask (.compose question (updates.take maxNarrativeUpdates))).attempt =
            .ok (session.compose question (updates.take maxNarrativeUpdates)) := by
        unfold read
        rw [Prog.run_attempt]
        exact congrArg Except.ok (session.read_ask index _)
      refine (session.read_bind index _ _).trans ?_
      rw [asked]
      cases session.compose question (updates.take maxNarrativeUpdates) with
      | ok text => rfl
      | error exn => cases exn <;> rfl

/-- The search for a recurrence, which may fail before it reads the index. -/
def recurrence (hasEmbedder : Bool) (service incidentId : String) (own : List Update) :
    Except Exn (Index → Option String) :=
  if hasEmbedder && !own.isEmpty then session.recurrenceFor service incidentId own
  else .ok fun _ => none

theorem read_recurrenceOf (index : Index) (hasEmbedder : Bool) (service incidentId : String)
    (own : List Update) : session.read index (recurrenceOf hasEmbedder service incidentId own) =
      (session.recurrence hasEmbedder service incidentId own).map fun search => search index := by
  unfold recurrenceOf recurrence
  split_ifs with searched
  · exact session.read_ask index _
  · rfl

/-- **What `_gather` returns**, in terms of what its queries answer. -/
theorem read_gather (index : Index) (hasComposer hasEmbedder : Bool)
    (service incidentId status question : String) (summary : Option String) (asOf : Option Time) :
    session.read index (gather hasComposer hasEmbedder service incidentId status question summary asOf) =
      let own := fetchIncidentUpdates session.collation incidentId asOf index
      let row := incidentMetaSql incidentId index.incidents
      let services := fetchServices session.collation incidentId index
      (session.narrative hasComposer own question).bind fun narrative =>
        (session.recurrence hasEmbedder service incidentId own).map fun search =>
            { service, status, updates := own
              runbook := fetchRunbook session.collation session.unicode service index
              narrative, summary
              openedAt := row.map fun found => found.1
              resolvedAt := row.bind fun found => found.2.1
              services := if services.isEmpty then [service] else services
              recurrence := search index } := by
  have updates : session.read index (ask (.incidentUpdates incidentId asOf)) =
      .ok (fetchIncidentUpdates session.collation incidentId asOf index) := session.read_ask index _
  have runbook : session.read index (ask (.fetchRunbook service)) =
      .ok (fetchRunbook session.collation session.unicode service index) := session.read_ask index _
  have row : session.read index (sql (.incidentMeta incidentId)) =
      .ok (incidentMetaSql incidentId index.incidents) := session.read_ask index _
  have services : session.read index (ask (.incidentServices incidentId)) =
      .ok (fetchServices session.collation incidentId index) := session.read_ask index _
  unfold gather
  simp only [Prog.bind_eq, read_bind, updates, runbook, row, services, read_summarise, Except.bind]
  cases session.narrative hasComposer (fetchIncidentUpdates session.collation incidentId asOf index)
    question with
  | error exn => rfl
  | ok narrative =>
    dsimp only
    rw [read_recurrenceOf]
    cases session.recurrence hasEmbedder service incidentId
      (fetchIncidentUpdates session.collation incidentId asOf index) with
    | error exn => rfl
    | ok search => rfl

end Session

/-! ### Two indexes -/

/-- **The rows that a brief may read are the same.** -/
structure Agree (incidentId service : String) (first second : Index) : Prop where
  updates : ∀ key row, row.incidentId = some incidentId →
    (first.vectorRecords.lookup key = some row ↔ second.vectorRecords.lookup key = some row)
  runbooks : ∀ key row, row.service = service → row.type = "runbook" →
    (first.vectorRecords.lookup key = some row ↔ second.vectorRecords.lookup key = some row)
  incident : first.incidents.lookup incidentId = second.incidents.lookup incidentId
  services : ∀ other, first.incidentServices.lookup (incidentId, other) =
    second.incidentServices.lookup (incidentId, other)

section Agreement

variable {incidentId service : String} {first second : Index}

/-- A query of `vector_records` is answered from the rows that match. -/
theorem chunks_congr (collation : Collation) {matched : Chunk → Bool} {table table' : Table String Chunk}
    (same : ∀ key row, matched row = true →
      (table.lookup key = some row ↔ table'.lookup key = some row)) :
    collation.chunks matched table = collation.chunks matched table' := by
  have rows := @Table.select_congr String Chunk _ (fun _ row => matched row)
    (fun first second => collation.before first.1 second.1) (fun a b => collation.total a.1 b.1)
    (fun a b c => collation.trans a.1 b.1 c.1) (fun a b _ _ => collation.antisymm a.1 b.1)
    table table' same
  exact congrArg (List.map Sigma.snd) rows

theorem Agree.fetchIncidentUpdates (agree : Agree incidentId service first second)
    (collation : Collation) (asOf : Option Time) :
    fetchIncidentUpdates collation incidentId asOf first =
      fetchIncidentUpdates collation incidentId asOf second := by
  unfold Autopilot.fetchIncidentUpdates
  rw [chunks_congr collation fun key row matched =>
    agree.updates key row (of_decide_eq_true (Bool.and_eq_true_iff.mp matched).1)]

theorem Agree.fetchRunbook (agree : Agree incidentId service first second) (collation : Collation)
    (unicode : Unicode) :
    fetchRunbook collation unicode service first = fetchRunbook collation unicode service second := by
  unfold Autopilot.fetchRunbook
  rw [chunks_congr collation fun key row matched =>
    agree.runbooks key row (of_decide_eq_true (Bool.and_eq_true_iff.mp matched).1)
      (of_decide_eq_true (Bool.and_eq_true_iff.mp matched).2)]

theorem Agree.fetchServices (agree : Agree incidentId service first second) (collation : Collation) :
    fetchServices collation incidentId first = fetchServices collation incidentId second := by
  have rows := @Table.select_congr (String × String) Unit _ (fun key _ => key.1 = incidentId)
    (fun first second => collation.before first.1.2 second.1.2)
    (fun a b => collation.total a.1.2 b.1.2) (fun a b c => collation.trans a.1.2 b.1.2 c.1.2)
    (fun a b mine mine' ahead behind => Prod.ext
      ((of_decide_eq_true mine).trans (of_decide_eq_true mine').symm)
      (collation.antisymm a.1.2 b.1.2 ahead behind)) first.incidentServices second.incidentServices
    (fun key row mine => by
      obtain ⟨incident, other⟩ := key
      obtain rfl : incident = incidentId := of_decide_eq_true mine
      rw [agree.services other])
  exact congrArg (List.map fun entry => entry.1.2) rows

theorem Agree.incidentMeta (agree : Agree incidentId service first second) :
    incidentMetaSql incidentId first.incidents = incidentMetaSql incidentId second.incidents := by
  unfold incidentMetaSql
  rw [agree.incident]

theorem Agree.incidentRow (agree : Agree incidentId service first second) :
    incidentRowSql incidentId first.incidents = incidentRowSql incidentId second.incidents := by
  unfold incidentRowSql
  rw [agree.incident]

/-- **`_gather` over two indexes that agree.** -/
theorem brief_gather (session : Session) (agree : Agree incidentId service first second)
    (hasComposer hasEmbedder : Bool) (status question : String) (summary : Option String)
    (asOf : Option Time) :
    (session.read first (gather hasComposer hasEmbedder service incidentId status question summary
        asOf)).map session.brief =
      (session.read second (gather hasComposer hasEmbedder service incidentId status question summary
        asOf)).map session.brief := by
  rw [Session.read_gather, Session.read_gather]
  dsimp only
  rw [agree.fetchIncidentUpdates, agree.fetchRunbook, agree.fetchServices, agree.incidentMeta]
  -- only the answer of the search is left of the two indexes
  cases session.narrative hasComposer
    (fetchIncidentUpdates session.collation incidentId asOf second) question with
  | error exn => rfl
  | ok narrative =>
    cases session.recurrence hasEmbedder service incidentId
      (fetchIncidentUpdates session.collation incidentId asOf second) with
    | error exn => rfl
    | ok search => rfl

end Agreement

/-- **A brief reads only its own incident**: what `gather_findings` and `gather_postmortem` return is
the same over two indexes that agree on the incident's rows and on the service's runbooks. -/
theorem own_evidence (session : Session) {incidentId service : String} {first second : Index}
    (agree : Agree incidentId service first second) (hasComposer hasEmbedder : Bool)
    (status : String) :
    (session.read first (gatherFindings hasComposer hasEmbedder service incidentId status)).map
        session.brief =
      (session.read second (gatherFindings hasComposer hasEmbedder service incidentId status)).map
        session.brief ∧
    (session.read first (gatherPostmortemWith hasComposer hasEmbedder service incidentId)).map
        session.brief =
      (session.read second (gatherPostmortemWith hasComposer hasEmbedder service incidentId)).map
        session.brief := by
  have findings : ∀ index, session.read index (sql (.incidentMeta incidentId)) =
      .ok (incidentMetaSql incidentId index.incidents) := fun index => session.read_ask index _
  have postmortem : ∀ index, session.read index (sql (.incidentRow incidentId)) =
      .ok (incidentRowSql incidentId index.incidents) := fun index => session.read_ask index _
  constructor
  · unfold gatherFindings
    simp only [Prog.bind_eq, Session.read_bind, findings, Except.bind, agree.incidentMeta]
    exact brief_gather session agree hasComposer hasEmbedder _ _ _ _
  · unfold gatherPostmortemWith
    simp only [Prog.bind_eq, Session.read_bind, postmortem, Except.bind, agree.incidentRow]
    exact brief_gather session agree hasComposer hasEmbedder _ _ _ _

/-! ### Another incident of the service -/

/-- A session in UTC, over texts ordered by their code points. -/
def utcSession : Session where
  collation :=
    { before := fun a b => decide (a ≤ b)
      total := fun a b => by
        rw [decide_eq_true_iff, decide_eq_true_iff]
        exact le_total a b
      trans := fun a b c ahead behind =>
        decide_eq_true ((of_decide_eq_true ahead).trans (of_decide_eq_true behind))
      antisymm := fun a b ahead behind =>
        le_antisymm (of_decide_eq_true ahead) (of_decide_eq_true behind) }
  unicode := ⟨fun text => text.map Char.toLower, fun c => c.isAlphanum || c == '_'⟩
  now := 0
  moment ts := ⟨Clock.ofInstant ts, 0⟩
  compose _ _ := .ok "Requests fail."
  recurrenceFor _ _ _ := .ok fun _ => none
  estimateImpact _ _ _ _ := "Impact: Medium — 1 service, ongoing"

/-- An update that is its event's only chunk. -/
def onlyChunk (eventId incidentId text : String) : Chunk where
  chunkIndex := some 0
  eventId := eventId
  incidentId := some incidentId
  service := "github"
  ts := 0
  indexedAt := 0
  source := .alert
  text := text.toList
  title := none
  severity := none
  type := "incident"
  model := none
  embedding := .replicate 768 0

/-- One update of the incident, and perhaps one of another. -/
def updatesIndex (others : List (Σ _ : String, Chunk)) : Index where
  vectorRecords := List.toAList
    (⟨"chk_a_0", onlyChunk "github:A:1" "github:A" "Requests fail."⟩ :: others)
  eventIndexing := ∅
  incidents := ∅
  incidentServices := ∅
  incidentEvents := ∅

/-- The other incident's errors are not read. -/
theorem own_evidence_beside :
    let other := updatesIndex [⟨"chk_b_0", onlyChunk "github:B:1" "github:B" "92% errors."⟩]
    (utcSession.read other (gatherFindings true true "github" "github:A" "open")).map
        utcSession.brief =
      (utcSession.read (updatesIndex []) (gatherFindings true true "github" "github:A" "open")).map
        utcSession.brief := by
  intro other
  have both : other.vectorRecords.entries =
      [⟨"chk_a_0", onlyChunk "github:A:1" "github:A" "Requests fail."⟩,
        ⟨"chk_b_0", onlyChunk "github:B:1" "github:B" "92% errors."⟩] := rfl
  have one : (updatesIndex []).vectorRecords.entries =
      [⟨"chk_a_0", onlyChunk "github:A:1" "github:A" "Requests fail."⟩] := rfl
  have same : ∀ key row, row ≠ onlyChunk "github:B:1" "github:B" "92% errors." →
      (other.vectorRecords.lookup key = some row ↔
        (updatesIndex []).vectorRecords.lookup key = some row) := by
    intro key row apart
    rw [← Table.mem_entries_iff, ← Table.mem_entries_iff, both, one, List.mem_cons,
      List.mem_singleton, List.mem_singleton]
    refine or_iff_left fun second => apart ?_
    cases second
    rfl
  have agree : Agree "github:A" "github" other (updatesIndex []) := by
    refine ⟨fun key row mine => same key row ?_, fun key row _ runbook => same key row ?_, rfl,
      fun _ => rfl⟩
    · rintro rfl
      exact absurd mine (by decide)
    · rintro rfl
      exact absurd runbook (by decide)
  exact (own_evidence utcSession agree true true "open").1

end Freshet.Autopilot
