/-
**From the feed to the evidence of a brief.**

Sweeps of a feed, the poller's messages in the order of their keys, the stream job's first of each
wording, the topic of the normalized updates, any lives of the embedder: once the topic has been
consumed, `fetch_incident_updates` of an incident finds the updates that any sweep has shown of it, each
once, with the wording that was the last to be new (`feed_to_evidence`). What the sink does to a row is
`SinkTopic`; here it keeps the row's incident too.
-/

import Freshet.Autopilot.Gathered
import Freshet.Pipeline.Converges

namespace Freshet.Autopilot

open Freshet.Lib Freshet.Kafka Freshet.Pipeline Freshet.Ingest Freshet.Stream

/-- **The worker reads the incident of a row** in its message. -/
def ReadsIncident (around : Pipeline.Surroundings) (encode : NormalizedUpdate → String)
    (rows : List NormalizedUpdate) : Prop :=
  ∀ row ∈ rows, ∀ fields, around.validate (encode row) = .ok fields →
    fields.incidentId = row.incidentId

section Versions

variable {around : Pipeline.Surroundings} {place : Option String → Int} {encode : NormalizedUpdate → String}
  {topic : Int → List String} {library : Library} {readStamp : String → Option Int}
  {passed : List Arrival}

/-- A version is of an arrival's update and of its incident. -/
theorem arrival_of_version
    (sink : SinkTopic around place encode (passed.map (Arrival.normalized library readStamp)) topic)
    (reads : ReadsIncident around encode (passed.map (Arrival.normalized library readStamp)))
    {p : Int} {k : Nat} {ev : Event} (version : Version around topic p k ev) :
    ∃ arrival ∈ passed, ev.eventId = arrival.update.dedupKey ∧
      ev.incidentId = some arrival.update.partitionKey := by
  obtain ⟨value, here, parsed⟩ := version
  have member := List.mem_of_getElem? here
  rw [sink.messages] at member
  obtain ⟨row, among, rfl⟩ := List.mem_map.mp member
  obtain ⟨arrival, inside, rfl⟩ := List.mem_map.mp (List.mem_of_mem_filter among)
  refine ⟨arrival, inside, (sink.read inside parsed).1, ?_⟩
  obtain ⟨fields, newId, now, valid, rfl⟩ := parsed
  exact reads _ (List.mem_map_of_mem inside) fields valid

/-- An event has one last version. -/
theorem text_of_lastVersion (normalized : Normalized around topic) {p p' : Int} {k k' : Nat}
    {ev ev' : Event} (last : LastVersion around topic p k ev)
    (last' : LastVersion around topic p' k' ev') (same : ev.eventId = ev'.eventId) :
    ev.text = ev'.text := by
  obtain rfl := normalized.keyed p p' k k' ev ev' last.1 last'.1 same
  have place : k = k' := by
    by_contra other
    rcases Nat.lt_or_gt_of_ne other with before | after
    · exact last.2 k' ev' before last'.1 same.symm
    · exact last'.2 k ev after last.1 same
  subst place
  obtain ⟨value, here, fields, newId, now, valid, rfl⟩ := last.1
  obtain ⟨value', here', fields', newId', now', valid', rfl⟩ := last'.1
  obtain rfl := Option.some.inj (here.symm.trans here')
  obtain rfl := Except.ok.inj (valid.symm.trans valid')
  rfl

end Versions

section Feed

variable {lib : Adapter} {provider : String} {feeds : List (List Char)}
  {sweeps : List (List IncidentUpdate)} {arrivals : List Arrival} {library : Library}
  {readStamp : String → Option Int} {around : Pipeline.Surroundings} {place : Option String → Int}
  {encode : NormalizedUpdate → String} {topic : Int → List String} {config : HandlerConfig}
  {first s : Consumption}

/-- **What was shown last of an update**: its last wording to be new, under the title it had then. -/
def ShownLast (history : List IncidentUpdate) (u : IncidentUpdate) (text : String) : Prop :=
  ∃ w, LastNew IncidentUpdate.bodyDigest (history.filter fun v => v.dedupKey = u.dedupKey) w ∧
    text = String.ofList (unwords (words (currentText w)))

/-- **The evidence of a brief is what the feed has shown of its incident.** -/
theorem feed_to_evidence (collation : Collation) (colon : lib.isWord ':' = false)
    (swept : FeedSweeps lib provider feeds sweeps) (arrived : ArrivedInOrder sweeps arrivals)
    (stamped : ∀ u ∈ sweeps.flatten, (readStamp (library.isoformatZ u.createdAt)).isSome)
    (sink : SinkTopic around place encode
      (normalizedUpdates (arrivals.map (Arrival.row library readStamp))) topic)
    (reads : ReadsIncident around encode
      (normalizedUpdates (arrivals.map (Arrival.row library readStamp))))
    (encodes : ¬ around.Fails) (lives : Lives around config topic first s)
    (empty : first.world.index.vectorRecords = ∅) (new : ∀ p, first.committed p = 0)
    (consumed : Consumed topic s) (incidentId : String) :
    ((fetchIncidentUpdates collation incidentId none s.world.index).map Update.eventId).Nodup ∧
      ∀ eventId text, (∃ v ∈ fetchIncidentUpdates collation incidentId none s.world.index,
          v.eventId = eventId ∧ v.text = text) ↔
        ∃ u ∈ sweeps.flatten, u.partitionKey = incidentId ∧ u.dedupKey = eventId ∧
          ShownLast sweeps.flatten u text := by
  rw [normalizedUpdates_arrivals arrived stamped] at sink reads
  have inside : ∀ a ∈ kept library readStamp arrivals, a.update ∈ sweeps.flatten := fun a passed =>
    arrived.mem_iff.mp (List.mem_map_of_mem (mem_of_mem_keepFirst _ passed))
  have normalized := sink.normalized fun a among b among' same =>
    swept.partitionKey colon (inside a among) (inside b among') same
  have upToDate : UpToDate around config topic s :=
    ⟨normalized, encodes, ⟨first, lives, empty, new⟩, consumed⟩
  have steady : Steady around topic := by
    intro p p' k k' ev ev' version version' same
    obtain ⟨a, passed, named, incident⟩ := arrival_of_version sink reads version
    obtain ⟨b, passed', named', incident'⟩ := arrival_of_version sink reads version'
    rw [incident, incident', swept.partitionKey colon (inside a passed) (inside b passed')
      (named.symm.trans (same.trans named'))]
  refine ⟨nodup_updates collation, fun eventId text => ?_⟩
  rw [upToDate.mem_updates collation steady]
  constructor
  · rintro ⟨p, k, ev, last, incident, rfl, rfl⟩
    obtain ⟨a, passed, named, incident'⟩ := arrival_of_version sink reads last.1
    obtain ⟨w, newest, p', k', ev', last', named', text⟩ :=
      exists_lastVersion colon swept arrived sink (inside a passed)
    refine ⟨a.update, inside a passed, Option.some.inj (incident'.symm.trans incident), named.symm, w,
      newest, ?_⟩
    rw [text_of_lastVersion normalized last last' (named.trans named'.symm), text]
  · rintro ⟨u, member, rfl, rfl, w, newest, rfl⟩
    obtain ⟨w', newest', p, k, ev, last, named, text⟩ :=
      exists_lastVersion colon swept arrived sink member
    have once := (getLast_keepFirst_iff _).mpr newest
    rw [(getLast_keepFirst_iff _).mpr newest'] at once
    obtain rfl := Option.some.inj once
    obtain ⟨a, passed, named', incident⟩ := arrival_of_version sink reads last.1
    refine ⟨p, k, ev, last, ?_, named, by rw [text]⟩
    rw [incident, swept.partitionKey colon (inside a passed) member (named'.symm.trans named)]

end Feed

/-! ### An edit -/

theorem edited_reads : ReadsIncident editedAround editedEncode
    (normalizedUpdates (editedArrivals.map (Arrival.row editedLibrary noonStamp))) := by
  obtain ⟨-, -, -, rows, -⟩ := edited_evaluated
  have posted : (editedAround.validate (editedEncode (Arrival.normalized editedLibrary noonStamp
      ⟨olderUpdate, 0⟩))) = .ok (loginFields "Login: Logins fail.") := by decide +kernel
  have edited : (editedAround.validate (editedEncode (Arrival.normalized editedLibrary noonStamp
      ⟨editedUpdate, 1⟩))) = .ok (loginFields "Login: Logins are slow.") := by decide +kernel
  rw [rows]
  refine List.forall_mem_cons.mpr ⟨fun fields valid => ?_, List.forall_mem_singleton.mpr
    fun fields valid => ?_⟩
  · obtain rfl := Except.ok.inj (posted.symm.trans valid)
    decide +kernel
  · obtain rfl := Except.ok.inj (edited.symm.trans valid)
    decide +kernel

/-- The evidence has the edited wording. -/
theorem feed_to_evidence_edited :
    ∃ v ∈ fetchIncidentUpdates codePoints "openai:7" none editedConsumed.world.index,
      v.eventId = "openai:7:967aa107deda" ∧ v.text = "Login: Logins are slow." := by
  have newest : LastNew IncidentUpdate.bodyDigest
      (([[olderUpdate], [editedUpdate]] ++ [[olderUpdate]]).flatten.filter
        fun v => v.dedupKey = olderUpdate.dedupKey) editedUpdate :=
    (getLast_keepFirst_iff _).mp (by decide +kernel)
  exact ((feed_to_evidence codePoints (by decide) edited_swept (fun _ => rfl) edited_stamped edited_sink
    edited_reads edited_encodes edited_lives rfl (fun _ => rfl) edited_consumed "openai:7").2 _ _).mpr
    ⟨olderUpdate, by decide, by decide +kernel, by decide +kernel, editedUpdate, newest,
      by decide +kernel⟩

end Freshet.Autopilot
