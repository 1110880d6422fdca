/-
**What a brief reads is what the feed said last.**

The embedder cuts an update into chunks and `fetch_incident_updates` joins them again. Once the log has
been consumed, whatever the lives of the embedder were, the query finds each update of the incident
once, with the text of its last version, whitespace collapsed (`updates_gathered`): the rows of an
event are the chunks of its last version (`Lives.contents`), each row has the incident of its event
(`FromTopic`), and sorted by their numbers the chunks are the text again (`map_text_sorted`).
-/

import Freshet.Autopilot.OwnEvidence
import Freshet.Pipeline.EveryLife
import Freshet.Pipeline.Lossless

namespace Freshet.Autopilot

open Freshet.Lib Freshet.Kafka Freshet.Pipeline

/-! ### Chunks in their order -/

theorem byChunkIndex_total (first second : Chunk) :
    byChunkIndex first second = true ∨ byChunkIndex second first = true := by
  unfold byChunkIndex
  cases first.chunkIndex with
  | none =>
    cases second.chunkIndex with
    | none => exact Or.inl rfl
    | some j => exact Or.inr rfl
  | some i =>
    cases second.chunkIndex with
    | none => exact Or.inl rfl
    | some j => simpa using Nat.le_total i j

theorem byChunkIndex_trans {first second third : Chunk} (one : byChunkIndex first second = true)
    (two : byChunkIndex second third = true) : byChunkIndex first third = true := by
  unfold byChunkIndex at one two ⊢
  cases h₁ : first.chunkIndex <;> cases h₂ : second.chunkIndex <;> cases h₃ : third.chunkIndex <;>
    simp_all
  omega

/-- **Sorted by their numbers, the chunks of a text are in the text's order.** -/
theorem map_text_sorted {rows : List Chunk} {texts : List (List Char)}
    (same : (rows.map fun row => (row.chunkIndex, row.text)).Perm
      (texts.zipIdx.map fun (text, i) => (some i, text))) :
    (rows.mergeSort byChunkIndex).map Chunk.text = texts := by
  let numbered : Chunk → Option Nat × List Char := fun row => (row.chunkIndex, row.text)
  let ahead : Option Nat × List Char → Option Nat × List Char → Prop := fun a b =>
    ∀ i j, a.1 = some i → b.1 = some j → i ≤ j
  have perm : ((rows.mergeSort byChunkIndex).map numbered).Perm
      (texts.zipIdx.map fun (text, i) => (some i, text)) :=
    ((List.mergeSort_perm rows byChunkIndex).map numbered).trans same
  have sorted : ((rows.mergeSort byChunkIndex).map numbered).Pairwise ahead := by
    refine List.pairwise_map.mpr ((@List.pairwise_mergeSort _ byChunkIndex
      (fun _ _ _ one two => byChunkIndex_trans one two)
      (fun a b => Bool.or_eq_true_iff.mpr (byChunkIndex_total a b)) rows).imp ?_)
    intro a b before i j at' at''
    unfold byChunkIndex at before
    rw [show a.chunkIndex = some i from at', show b.chunkIndex = some j from at''] at before
    simpa using before
  have ordered : (texts.zipIdx.map fun (text, i) => ((some i, text) : Option Nat × List Char)).Pairwise
      ahead := by
    refine List.pairwise_map.mpr (List.pairwise_iff_getElem.mpr ?_)
    intro i j here there below i' j' at' at''
    simp only [List.getElem_zipIdx, Option.some.injEq] at at' at''
    omega
  have equal := perm.eq_of_pairwise (fun a b here there one two => ?_) sorted ordered
  · have texts' := congrArg (List.map Prod.snd) equal
    rw [List.map_map, List.map_map] at texts'
    exact texts'.trans (List.zipIdx_map_fst 0 texts)
  · obtain ⟨⟨text, i⟩, inside, rfl⟩ := List.mem_map.mp (perm.mem_iff.mp here)
    obtain ⟨⟨text', j⟩, inside', rfl⟩ := List.mem_map.mp there
    obtain rfl : i = j := Nat.le_antisymm (one i j rfl rfl) (two j i rfl rfl)
    have at' := List.mk_mem_zipIdx_iff_getElem?.mp inside
    have at'' := List.mk_mem_zipIdx_iff_getElem?.mp inside'
    rw [Option.some.inj (at'.symm.trans at'')]

/-! ### The rows of an event -/

section Rows

variable (collation : Collation) {matched : Chunk → Bool} {index : Index}

theorem mem_chunks {table : Table String Chunk} {row : Chunk} :
    row ∈ collation.chunks matched table ↔ ∃ key, table.lookup key = some row ∧ matched row = true := by
  unfold Collation.chunks
  constructor
  · intro member
    obtain ⟨⟨key, held⟩, inside, rfl⟩ := List.mem_map.mp member
    exact ⟨key, Table.mem_select.mp inside⟩
  · rintro ⟨key, found, held⟩
    exact List.mem_map.mpr ⟨⟨key, row⟩, Table.mem_select.mpr ⟨found, held⟩, rfl⟩

/-- Where all rows of an event match, its group among those that match is all its rows. -/
theorem group_perm {eventId : String} (every : ∀ key row, index.vectorRecords.lookup key = some row →
      row.eventId = eventId → matched row = true) :
    ((collation.chunks matched index.vectorRecords).filter fun row => row.eventId = eventId).Perm
      ((index.vectorRecords.entries.map Sigma.snd).filter fun row => row.eventId = eventId) := by
  have chunks : (collation.chunks matched index.vectorRecords).Perm
      ((index.vectorRecords.entries.map Sigma.snd).filter matched) := by
    unfold Collation.chunks Table.select
    rw [List.filter_map]
    exact List.Perm.map _ (List.perm_insertionSort _ _)
  refine (chunks.filter _).trans (List.Perm.of_eq ?_)
  rw [List.filter_filter]
  refine List.filter_congr fun row member => ?_
  obtain ⟨⟨key, held⟩, entry, rfl⟩ := List.mem_map.mp member
  by_cases same : held.eventId = eventId
  · rw [every key held (Table.mem_entries_iff.mp entry) same, Bool.and_true]
  · rw [decide_eq_false same, Bool.false_and]

end Rows

/-! ### After the log has been consumed -/

section Consumed

variable {around : Pipeline.Surroundings} {config : HandlerConfig} {topic : Int → List String}
  {first s : Consumption}

/-- Some version of an event is the last. -/
theorem exists_last {p : Int} {k : Nat} {ev : Event}
    (version : Version around topic p k ev) :
    ∃ k' ev', LastVersion around topic p k' ev' ∧ ev'.eventId = ev.eventId := by
  by_cases later : ∃ k' ev', k < k' ∧ Version around topic p k' ev' ∧ ev'.eventId = ev.eventId
  · obtain ⟨k', ev', after, version', same⟩ := later
    have here : k' < (topic p).length := by
      obtain ⟨value, at', -⟩ := version'
      exact (List.getElem?_eq_some_iff.mp at').1
    obtain ⟨k'', ev'', last, same'⟩ := exists_last version'
    exact ⟨k'', ev'', last, same'.trans same⟩
  · exact ⟨k, ev, ⟨version, fun k' ev' after version' same =>
      later ⟨k', ev', after, version', same⟩⟩, rfl⟩
termination_by (topic p).length - k

/-- All versions of an event name one incident. -/
def Steady (around : Pipeline.Surroundings) (topic : Int → List String) : Prop :=
  ∀ p p' k k' ev ev', Version around topic p k ev → Version around topic p' k' ev' →
    ev.eventId = ev'.eventId → ev.incidentId = ev'.incidentId

/-- **The log has been consumed**, from an empty index on, whatever the lives were. -/
structure UpToDate (around : Pipeline.Surroundings) (config : HandlerConfig) (topic : Int → List String)
    (s : Consumption) : Prop where
  normalized : Normalized around topic
  encodes : ¬ around.Fails
  fromEmpty : ∃ first, Lives around config topic first s ∧ first.world.index.vectorRecords = ∅ ∧
    ∀ p, first.committed p = 0
  consumed : Consumed topic s

/-- The rows of an event are the chunks of its last version. -/
theorem UpToDate.contents (upToDate : UpToDate around config topic s) {p : Int} {k : Nat} {ev : Event}
    (last : LastVersion around topic p k ev) :
    (s.world.index.contents ev.eventId).Perm ev.contents := by
  obtain ⟨first, lives, empty, new⟩ := upToDate.fromEmpty
  refine lives.contents upToDate.normalized upToDate.encodes (fun key row found => ?_) new
    upToDate.consumed last
  rw [empty, AList.lookup_empty] at found
  cases found

/-- A row is one of a version of its event, with the incident of one. -/
theorem UpToDate.row (upToDate : UpToDate around config topic s) {key : String} {row : Chunk}
    (found : s.world.index.vectorRecords.lookup key = some row) :
    (∃ p k ev, Version around topic p k ev ∧ ev.eventId = row.eventId ∧
      row.incidentId = ev.incidentId) := by
  obtain ⟨first, lives, empty, new⟩ := upToDate.fromEmpty
  have fresh : ∀ key, first.world.index.vectorRecords.lookup key = none := by
    intro key
    rw [empty, AList.lookup_empty]
  have keyed : first.world.index.WellKeyed := by
    intro key row found
    rw [fresh] at found
    cases found
  rcases (lives.tracks_fromTopic keyed new).kept.rows key row found with before | ⟨-, origin⟩
  · rw [fresh] at before
    cases before
  · rcases origin with ⟨p, k, ev, version, same, columns⟩ | ⟨old, before, -⟩
    · exact ⟨p, k, ev, version, same, columns.incidentId⟩
    · rw [fresh] at before
      cases before

/-- No event is read twice. -/
theorem nodup_updates (collation : Collation) {incidentId : String} {asOf : Option Time} {index : Index} :
    ((fetchIncidentUpdates collation incidentId asOf index).map Update.eventId).Nodup := by
  refine ((List.mergeSort_perm _ _).map Update.eventId).nodup_iff.mpr ?_
  rw [List.map_map]
  show (List.map id _).Nodup
  rw [List.map_id]
  exact List.nodup_dedup _

section Gathered

variable (collation : Collation) (upToDate : UpToDate around config topic s)
  (steady : Steady around topic) {incidentId : String}

/-- The rows that `_INCIDENT_UPDATES_SQL` selects. -/
def incidentRows (collation : Collation) (incidentId : String) (index : Index) : List Chunk :=
  collation.chunks (fun row => row.incidentId = some incidentId && true) index.vectorRecords

include upToDate steady

/-- The rows of an event of the incident are its chunks, in their order its text. -/
theorem UpToDate.text_eq {p : Int} {k : Nat} {ev : Event} (last : LastVersion around topic p k ev)
    (named : ev.incidentId = some incidentId) :
    (((incidentRows collation incidentId s.world.index).filter fun row =>
      row.eventId = ev.eventId).mergeSort byChunkIndex).map Chunk.text = chunkText ev.text := by
  have every : ∀ key row, s.world.index.vectorRecords.lookup key = some row →
      row.eventId = ev.eventId → (decide (row.incidentId = some incidentId) && true) = true := by
    intro key row found same
    obtain ⟨p', k', ev', version, event, incident⟩ := upToDate.row found
    rw [incident, steady p' p k' k ev' ev version last.1 (event.trans same), named,
      decide_eq_true rfl, Bool.and_true]
  refine map_text_sorted ?_
  have contents := (upToDate.contents last).map fun content => (content.1, content.2.1)
  refine ((group_perm collation every).map fun row => (row.chunkIndex, row.text)).trans ?_
  unfold Index.contents Event.contents at contents
  rw [List.map_map, List.map_map] at contents
  exact contents

/-- An event has rows among them exactly where its last version names the incident. -/
theorem UpToDate.mem_events {eventId : String} :
    eventId ∈ (incidentRows collation incidentId s.world.index).map Chunk.eventId ↔
      ∃ p k ev, LastVersion around topic p k ev ∧ ev.incidentId = some incidentId ∧
        ev.eventId = eventId := by
  constructor
  · intro member
    obtain ⟨row, inside, rfl⟩ := List.mem_map.mp member
    obtain ⟨key, found, held⟩ := (mem_chunks collation).mp inside
    obtain ⟨p, k, ev, version, same, incident⟩ := upToDate.row found
    obtain ⟨k', ev', last, same'⟩ := exists_last version
    refine ⟨p, k', ev', last, ?_, same'.trans same⟩
    rw [steady p p k' k ev' ev last.1 version same', ← incident]
    exact of_decide_eq_true (Bool.and_eq_true_iff.mp held).1
  · rintro ⟨p, k, ev, last, named, rfl⟩
    have texts := upToDate.text_eq collation steady last named
    obtain ⟨value, at', fields, newId, now, valid, rfl⟩ := last.1
    obtain ⟨fields', valid', -, full⟩ := upToDate.normalized.valid p value (List.mem_of_getElem? at')
    obtain rfl := Except.ok.inj (valid'.symm.trans valid)
    have some' : ((incidentRows collation incidentId s.world.index).filter fun row =>
        row.eventId = (fields'.event newId now).eventId) ≠ [] := by
      intro none'
      rw [none', List.mergeSort_nil, List.map_nil] at texts
      exact full ((@chunkText_eq_nil fields'.text none).mp texts.symm)
    obtain ⟨row, member⟩ := List.exists_mem_of_ne_nil _ some'
    obtain ⟨inside, same⟩ := List.mem_filter.mp member
    exact List.mem_map.mpr ⟨row, inside, of_decide_eq_true same⟩

/-- **An update that is read is the last version of one of the incident's.** -/
theorem UpToDate.mem_updates {eventId text : String} :
    (∃ u ∈ fetchIncidentUpdates collation incidentId none s.world.index,
        u.eventId = eventId ∧ u.text = text) ↔
      ∃ p k ev, LastVersion around topic p k ev ∧ ev.incidentId = some incidentId ∧
        ev.eventId = eventId ∧ text = String.ofList (unwords (words ev.text)) := by
  have whole : ∀ {p k ev}, LastVersion around topic p k ev → ev.incidentId = some incidentId →
      (updateOf collation ev.eventId ((incidentRows collation incidentId s.world.index).filter
        fun row => row.eventId = ev.eventId)).text = String.ofList (unwords (words ev.text)) := by
    intro p k ev last named
    show String.ofList ([' '].intercalate _) = _
    rw [upToDate.text_eq collation steady last named, ← unwords_eq_intercalate, unwords_chunkText]
  constructor
  · rintro ⟨u, member, rfl, rfl⟩
    obtain ⟨eventId, inside, rfl⟩ := List.mem_map.mp (List.mem_mergeSort.mp member)
    obtain ⟨p, k, ev, last, named, rfl⟩ :=
      (upToDate.mem_events collation steady).mp (List.mem_dedup.mp inside)
    exact ⟨p, k, ev, last, named, rfl, whole last named⟩
  · rintro ⟨p, k, ev, last, named, rfl, rfl⟩
    exact ⟨_, List.mem_mergeSort.mpr (List.mem_map.mpr ⟨ev.eventId, List.mem_dedup.mpr
      ((upToDate.mem_events collation steady).mpr ⟨p, k, ev, last, named, rfl⟩), rfl⟩), rfl,
      whole last named⟩

end Gathered

/-- **The updates that are read are the last versions of the incident's updates, each once and
whole.** -/
theorem updates_gathered (collation : Collation) (normalized : Normalized around topic)
    (encodes : ¬ around.Fails) (steady : Steady around topic)
    (lives : Lives around config topic first s) (empty : first.world.index.vectorRecords = ∅)
    (new : ∀ p, first.committed p = 0) (consumed : Consumed topic s) (incidentId : String) :
    ((fetchIncidentUpdates collation incidentId none s.world.index).map Update.eventId).Nodup ∧
      ∀ eventId text, (∃ u ∈ fetchIncidentUpdates collation incidentId none s.world.index,
          u.eventId = eventId ∧ u.text = text) ↔
        ∃ p k ev, LastVersion around topic p k ev ∧ ev.incidentId = some incidentId ∧
          ev.eventId = eventId ∧ text = String.ofList (unwords (words ev.text)) := by
  have upToDate : UpToDate around config topic s :=
    ⟨normalized, encodes, ⟨first, lives, empty, new⟩, consumed⟩
  exact ⟨nodup_updates collation, fun eventId text => upToDate.mem_updates collation steady⟩

end Consumed

/-! ### A run -/

theorem named_version {p : Int} {k : Nat} {ev : Event}
    (version : Version namedAround oneTopic p k ev) :
    p = 0 ∧ k = 0 ∧ ev = namedFields.event "" 0 := by
  obtain rfl := partition_of_version oneTopic_single version
  obtain ⟨value, here, fields, newId, now, valid, rfl⟩ := version
  have bound : k < 1 := (List.getElem?_eq_some_iff.mp here).1
  obtain rfl := Except.ok.inj valid
  exact ⟨rfl, by omega, rfl⟩

theorem named_consumed : Consumed oneTopic namedConsumed := by
  have committed : namedConsumed.committed 0 = 1 := by decide +kernel
  exact consumed_of_single oneTopic_single committed.ge

theorem named_normalized : Normalized namedAround oneTopic := by
  refine ⟨fun p value _ => ⟨_, rfl, rfl, by decide⟩, fun p p' k k' ev ev' one two _ => ?_⟩
  rw [(named_version one).1, (named_version two).1]

theorem named_steady : Steady namedAround oneTopic := by
  intro p p' k k' ev ev' one two _
  rw [(named_version one).2.2, (named_version two).2.2]

/-- The collation `C`. -/
def codePoints : Collation := utcSession.collation

/-- A sentence that fills more than half of a chunk. -/
def longSentence (c : Char) : List Char := c :: List.replicate 250 'x' ++ ['.']

def rewrittenFields (sentences : List Char) : Fields :=
  { namedFields with text := unwords (sentences.map longSentence) }

/-- The first version of the event has three chunks, the last has two. -/
def rewrittenAround : Pipeline.Surroundings where
  validate value := .ok (rewrittenFields (if value = "first" then ['A', 'B', 'C'] else ['D', 'E']))
  encodes texts answer := answer = zeroVectors texts

def rewrittenTopic (p : Int) : List String := if p = 0 then ["first", "last"] else []

/-- The first messages have been consumed. -/
def rewrittenConsumed (n : Nat) : Consumption :=
  ((embedder plainConfig (embedderLoop (some n) none false 50) (n + 1)).run
    (calmReader rewrittenAround.validate zeroVectors plainConfig rewrittenTopic) newConsumption).2

theorem rewritten_single (p : Int) (other : p ≠ 0) : rewrittenTopic p = [] := if_neg other

theorem rewritten_version {p : Int} {k : Nat} {ev : Event}
    (version : Version rewrittenAround rewrittenTopic p k ev) :
    p = 0 ∧ k < 2 ∧ ∃ sentences, ev = (rewrittenFields sentences).event "" 0 := by
  obtain rfl := partition_of_version rewritten_single version
  obtain ⟨value, here, fields, newId, now, valid, rfl⟩ := version
  obtain rfl := Except.ok.inj valid
  exact ⟨rfl, (List.getElem?_eq_some_iff.mp here).1, _, rfl⟩

theorem rewritten_lives :
    Lives rewrittenAround plainConfig rewrittenTopic newConsumption (rewrittenConsumed 2) := by
  have life := @Prog.steps_run embedderSig Kafka.Exn (Option Nat) Consumption
    (embedderMachine rewrittenAround plainConfig rewrittenTopic fun _ => True)
    (calmReader rewrittenAround.validate zeroVectors plainConfig rewrittenTopic)
    (embedder plainConfig (embedderLoop (some 2) none false 50) 3) newConsumption
    (embedderStep_reader fun _ => rfl)
  exact .again .first ⟨rfl, rfl, rfl⟩ life

/-- The third chunk of the first version is gone, and the two chunks of the last are rejoined. -/
theorem updates_gathered_rewritten :
    ((rewrittenConsumed 1).world.index.chunk "openai:INC-1:a" 2).isSome ∧
    ((rewrittenConsumed 2).world.index.chunk "openai:INC-1:a" 1).isSome ∧
    ∃ u ∈ fetchIncidentUpdates codePoints "openai:INC-1" none (rewrittenConsumed 2).world.index,
      u.eventId = "openai:INC-1:a" ∧
        u.text = String.ofList (longSentence 'D' ++ ' ' :: longSentence 'E') := by
  have encodes : ¬ rewrittenAround.Fails := by
    rintro ⟨texts, exn, failed⟩
    cases failed
  have normalized : Normalized rewrittenAround rewrittenTopic := by
    refine ⟨fun p value _ => ?_, fun p p' k k' ev ev' one two _ => ?_⟩
    · refine ⟨_, rfl, rfl, ?_⟩
      split_ifs <;> decide +kernel
    · rw [(rewritten_version one).1, (rewritten_version two).1]
  have steady : Steady rewrittenAround rewrittenTopic := by
    intro p p' k k' ev ev' one two _
    obtain ⟨-, -, sentences, rfl⟩ := rewritten_version one
    obtain ⟨-, -, sentences', rfl⟩ := rewritten_version two
    rfl
  have committed : (rewrittenConsumed 2).committed 0 = 2 := by decide +kernel
  have consumed : Consumed rewrittenTopic (rewrittenConsumed 2) :=
    consumed_of_single rewritten_single committed.ge
  refine ⟨by decide +kernel, by decide +kernel, ?_⟩
  refine ((updates_gathered codePoints normalized encodes steady rewritten_lives rfl (fun _ => rfl)
    consumed "openai:INC-1").2 _ _).mpr ⟨0, 1, (rewrittenFields ['D', 'E']).event "" 0,
      ⟨⟨"last", rfl, _, "", 0, rfl, rfl⟩, fun k' ev' later version => ?_⟩, rfl, rfl, ?_⟩
  · have bound := (rewritten_version version).2.1
    omega
  · decide +kernel

end Freshet.Autopilot
