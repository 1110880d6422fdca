/-
**A thread's answer rests on what was said last.**

`answer_question` gathers its evidence in two ways: the updates of the thread's own incident, by key,
and the hits of `hybrid_search`. Once the log has been consumed, whatever the lives of the embedder
were, nothing in the evidence of any call of the composer is superseded: a hit is a chunk of the last
version of its event, an update the whole of it (`evidence_current`). That is so in every poll of the
threads, whatever Slack and the composer answer and whichever calls fail.
-/

import Freshet.Autopilot.Gathered
import Freshet.Autopilot.ThreadAgent
import Freshet.Rag.Search

namespace Freshet.Autopilot.ThreadAgent

open Freshet.Lib Freshet.Kafka Freshet.Pipeline Freshet.Rag

/-! ### A session on an index -/

/-- What the session is given: the embedder, what Postgres computes, and the centroids. -/
structure Searching where
  embedder : Embedder
  ranking : Ranking
  collation : Collation
  getCentroid : String → Option String
  incidentOf : List String → List (String × Option String × String)

/-- What the composer is shown of a retrieved hit. -/
def shownHit (hit : RetrievedHit) : Rag.Evidence.Hit where
  eventId := hit.eventId.toList
  source := hit.source.value.toList
  text := hit.text

/-- What it is shown of an update. -/
def shownUpdate (u : Update) : Rag.Evidence.Hit where
  eventId := u.eventId.toList
  source := u.source.toList
  text := u.text.toList

section Session

variable (searching : Searching) (index : Index)

/-- `hybrid_search(conn, embedder, question, k=6, since=since)`. -/
def Searching.search (question : List Char) (since : Option Int) : SearchResult :=
  let result := hybridSearch (searching.ranking.connection searching.collation searching.getCentroid
    searching.incidentOf index) searching.embedder (String.ofList question) 6 none since
  ⟨result.hits.map shownHit, result.abstained⟩

/-- `fetch_incident_updates(conn, incident_id)`. -/
def Searching.updates (incidentId : String) : List Rag.Evidence.Hit :=
  (fetchIncidentUpdates searching.collation incidentId none index).map shownUpdate

/-- **An answer's calls on an index.** The clock and the composer answer as they like, any call may
fail, and a composer is only to be shown `evidence`. -/
def session (evidence : Rag.Evidence.Hit → Prop) : Machine questionSig Exn Unit where
  safe op _ := match op with
    | .compose _ hits => ∀ hit ∈ hits, evidence hit
    | .utcnow => True
    | .search _ _ => True
    | .updates _ => True
  step op _ answer _ := match op, answer with
    | .search question since, .ok result => result = searching.search index question since
    | .updates incidentId, .ok updates => updates = searching.updates index incidentId
    | .search _ _, .error _ => True
    | .updates _, .error _ => True
    | .utcnow, _ => True
    | .compose _ _, _ => True

/-- The calls of a poll, those of Slack answered as it likes. -/
def pollSession (evidence : Rag.Evidence.Hit → Prop) : Machine pollSig Exn Unit where
  safe op s := match op with
    | .inl _ => True
    | .inr op => (session searching index evidence).safe op s
  step op s answer after := match op, answer with
    | .inl _, _ => True
    | .inr op, answer => (session searching index evidence).step op s answer after

end Session

/-! ### What the composer is shown -/

section Shown

variable {searching : Searching} {index : Index} {evidence : Rag.Evidence.Hit → Prop}

theorem wp_reply {question : List Char} {hits : List Rag.Evidence.Hit} {window : Option (List Char)}
    (shown : ∀ hit ∈ hits, evidence hit) :
    (reply question hits window).wp (session searching index evidence)
      (Prog.Ends (fun _ => True) fun _ _ => True) () := by
  unfold reply
  split
  · trivial
  · refine Prog.wp_seq (fun _ _ => True) (Prog.wp_perform.mpr ⟨shown, fun answer after _ => ?_⟩) ?_
    · cases answer <;> trivial
    · intro answer s _
      match answer with
      | none => trivial
      | some [] => trivial
      | some (_ :: _) => trivial

/-- **If all that is found may be shown, all that is shown may be.** -/
theorem wp_answerQuestion (py : Timeframe.Interpreter) (question : List Char) (incidentId : String)
    (hits : ∀ question since, ∀ hit ∈ (searching.search index question since).hits, evidence hit)
    (updates : ∀ incidentId, ∀ hit ∈ searching.updates index incidentId, evidence hit) :
    (answerQuestion py question incidentId).wp (session searching index evidence)
      (Prog.Ends (fun _ => True) fun _ _ => True) () := by
  refine Prog.wp_seq (fun _ _ => True)
    (Prog.wp_perform.mpr ⟨trivial, fun answer after _ => by cases answer <;> trivial⟩) ?_
  intro now s _
  refine Prog.wp_seq (fun _ _ => True) ?_ ?_
  · unfold inferred
    split <;> trivial
  intro window s _
  -- what is found by the search
  refine Prog.wp_seq (fun result _ => ∀ hit ∈ result.hits, evidence hit)
    (Prog.wp_perform.mpr ⟨trivial, ?_⟩) ?_
  · intro answer after moved
    cases answer with
    | error exn => trivial
    | ok result =>
      obtain rfl : result = searching.search index _ _ := moved
      exact hits _ _
  intro result s found
  -- and by key
  refine Prog.wp_seq (fun own _ => ∀ hit ∈ own, evidence hit) ?_ ?_
  · unfold threadEvidence
    split
    · exact fun hit member => absurd member List.not_mem_nil
    · refine Prog.wp_seq (fun own _ => ∀ hit ∈ own, evidence hit)
        (Prog.wp_perform.mpr ⟨trivial, ?_⟩) ?_
      · intro answer after moved
        cases answer with
        | error exn => trivial
        | ok own =>
          obtain rfl : own = searching.updates index incidentId := moved
          exact updates incidentId
      · exact fun own s every hit member => every hit (List.mem_of_mem_take member)
  intro own s every
  refine wp_reply fun hit member => ?_
  unfold merged at member
  split at member
  · exact every hit member
  · rcases List.mem_append.mp member with here | there
    · exact every hit here
    · exact found hit (List.mem_of_mem_filter there)

/-- So it is in a poll. -/
theorem wp_pollSession (py : Timeframe.Interpreter) (channel : String) (limit : Int)
    (hits : ∀ question since, ∀ hit ∈ (searching.search index question since).hits, evidence hit)
    (updates : ∀ incidentId, ∀ hit ∈ searching.updates index incidentId, evidence hit) :
    (poll py channel limit).wp (pollSession searching index evidence) (fun _ _ => True) () := by
  let free : Machine sig Exn Unit := ⟨fun _ _ => True, fun _ _ _ _ => True⟩
  have loose : (pollThreads channel limit).wp free (fun _ _ => True) () := by
    generalize pollThreads channel limit = program
    induction program with
    | ret value => trivial
    | raise exn => trivial
    | call op next ih => exact ⟨trivial, fun answer _ _ => ih answer⟩
  refine Prog.wp_mono (fun _ _ _ => trivial)
    (@Prog.wp_interpret _ _ _ _ _ _ (run py) free (pollSession searching index evidence)
      (fun _ _ => True) _ _ () () ?_ trivial loose)
  intro op s t _ _
  cases op with
  | answer asking incident =>
    refine Prog.wp_mono (fun _ _ _ => ⟨(), trivial, trivial⟩) (Prog.wp_inr_of (fun _ _ safe => safe)
      (fun _ _ _ _ moved => moved) (wp_answerQuestion py (asking.text.getD []) incident hits updates))
  | openThreads channel limit =>
    exact Prog.wp_perform.mpr ⟨trivial, fun _ _ _ => ⟨(), trivial, trivial⟩⟩
  | replies channel ts oldest =>
    exact Prog.wp_perform.mpr ⟨trivial, fun _ _ _ => ⟨(), trivial, trivial⟩⟩
  | post answering channel threadTs text =>
    exact Prog.wp_perform.mpr ⟨trivial, fun _ _ _ => ⟨(), trivial, trivial⟩⟩
  | markSeen newest incident =>
    exact Prog.wp_perform.mpr ⟨trivial, fun _ _ _ => ⟨(), trivial, trivial⟩⟩

end Shown

/-! ### After the log has been consumed -/

section UpToDate

variable {around : Pipeline.Surroundings} {config : HandlerConfig} {topic : Int → List String}
  {s : Consumption}

/-- **Not superseded**: a chunk of the last version of its event, or the whole of it. -/
def Current (around : Pipeline.Surroundings) (topic : Int → List String) (hit : Rag.Evidence.Hit) : Prop :=
  ∃ p k ev, LastVersion around topic p k ev ∧ hit.eventId = ev.eventId.toList ∧
    (hit.text ∈ chunkText ev.text ∨ hit.text = unwords (words ev.text))

/-- A row of the index is a chunk of the last version of its event. -/
theorem current_row (upToDate : UpToDate around config topic s) {key : String} {row : Chunk}
    (found : s.world.index.vectorRecords.lookup key = some row) :
    ∃ p k ev, LastVersion around topic p k ev ∧ row.eventId = ev.eventId ∧
      row.text ∈ chunkText ev.text := by
  obtain ⟨p, k, ev, version, same, -⟩ := upToDate.row found
  obtain ⟨k', ev', last, same'⟩ := exists_last version
  have event : row.eventId = ev'.eventId := (same'.trans same).symm
  refine ⟨p, k', ev', last, event, ?_⟩
  have inside : (row.chunkIndex, row.text, row.title, row.severity, row.type) ∈
      s.world.index.contents ev'.eventId :=
    List.mem_map.mpr ⟨row, List.mem_filter.mpr
      ⟨List.mem_map.mpr ⟨⟨key, row⟩, Table.mem_entries_iff.mpr found, rfl⟩, decide_eq_true event⟩, rfl⟩
  obtain ⟨⟨chunk, i⟩, member, shown⟩ := List.mem_map.mp ((upToDate.contents last).mem_iff.mp inside)
  have text : chunk = row.text := congrArg (fun content => content.2.1) shown
  exact text ▸ List.mem_of_getElem? (List.mk_mem_zipIdx_iff_getElem?.mp member)

theorem current_hit (upToDate : UpToDate around config topic s) {searching : Searching}
    {question : List Char} {since : Option Int} {hit : Rag.Evidence.Hit}
    (member : hit ∈ (searching.search s.world.index question since).hits) :
    Current around topic hit := by
  obtain ⟨retrieved, inside, rfl⟩ := List.mem_map.mp member
  rw [hits_eq] at inside
  obtain ⟨row, found, -, shown⟩ := (mem_fused_iff rfl).mp (List.mem_of_mem_take inside)
  obtain ⟨p, k, ev, last, event, text⟩ := current_row upToDate found
  rw [shown]
  exact ⟨p, k, ev, last, congrArg String.toList event, Or.inl text⟩

theorem current_update (upToDate : UpToDate around config topic s) (steady : Steady around topic)
    {searching : Searching} {incidentId : String} {hit : Rag.Evidence.Hit}
    (member : hit ∈ searching.updates s.world.index incidentId) : Current around topic hit := by
  obtain ⟨u, inside, rfl⟩ := List.mem_map.mp member
  obtain ⟨p, k, ev, last, -, event, text⟩ :=
    (upToDate.mem_updates searching.collation steady).mp ⟨u, inside, rfl, rfl⟩
  refine ⟨p, k, ev, last, congrArg String.toList event.symm, Or.inr ?_⟩
  show u.text.toList = _
  rw [text, String.toList_ofList]

/-- **Nothing superseded is in the evidence of an answer**, in any poll of the threads. -/
theorem evidence_current (upToDate : UpToDate around config topic s) (steady : Steady around topic)
    (searching : Searching) (py : Timeframe.Interpreter) (channel : String) (limit : Int) :
    (poll py channel limit).wp (pollSession searching s.world.index (Current around topic))
      (fun _ _ => True) () :=
  wp_pollSession py channel limit (fun _ _ _ member => current_hit upToDate member)
    fun _ _ member => current_update upToDate steady member

end UpToDate

/-! ### A poll -/

/-- A session whose ranking says nothing. -/
def plainSearching : Searching where
  embedder := ⟨some "stub", none, none, fun _ => []⟩
  ranking := ⟨fun _ _ => 0, fun _ _ _ => 0, fun _ _ => false, fun _ _ => 0⟩
  collation := codePoints
  getCentroid _ := none
  incidentOf _ := []

/-- What is shown of one message's index is that message. -/
theorem evidence_current_named :
    (poll ⟨fun _ => false, 0, Or.inl rfl⟩ "C1" 20).wp
      (pollSession plainSearching namedConsumed.world.index (Current namedAround oneTopic))
      (fun _ _ => True) () ∧
    (plainSearching.search namedConsumed.world.index "status?".toList none).hits ≠ [] :=
  ⟨evidence_current ⟨named_normalized, named_encodes, ⟨_, named_lives, rfl, fun _ => rfl⟩,
    named_consumed⟩ named_steady plainSearching _ "C1" 20, by decide +kernel⟩

end Freshet.Autopilot.ThreadAgent
