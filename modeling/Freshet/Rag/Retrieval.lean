/-
**Hybrid retrieval**: two arms, fused by rank, and the rule that says when the best hits are no
evidence.

The rows of the two arms are what the database answers; the columns are theirs by name. With a
service or a time filter the rule asks only whether there are hits, without one it compares the best
similarity with a floor: the centred one where the embedder has such a floor and a hit has been
measured against a centroid, else the raw one (`Accepted` is what it asks of one hit).
-/

import Freshet.Pipeline.Index
import Freshet.Rag.Fusion

namespace Freshet.Rag

open Freshet.Lib Freshet.Pipeline
open Freshet.Autopilot (Time)

/-- What is read off an embedder; an attribute may be missing. -/
structure Embedder where
  name : Option String
  minSimilarity : Option ℚ
  minSimilarityCentered : Option ℚ
  encodeQuery : String → Embedding

/-- A row of either arm. -/
structure Row where
  chunkId : String
  eventId : String
  service : String
  ts : Time
  indexedAt : Time
  source : EventSource
  text : List Char
  type : String
  title : Option String
  similarity : ℚ
  centeredSimilarity : Option ℚ

/-- What both arms are asked. -/
structure Query where
  question : String
  qvec : String
  k : ℕ
  service : Option String
  since : Option Time
  excludeEventId : Option String
  centroid : Option String

/-- What the database answers. -/
structure Connection where
  getCentroid : String → Option String
  vectorRows : Query → List Row
  keywordRows : Query → List Row
  incidentOf : List String → List (String × Option String × String)

structure RetrievedHit where
  chunkId : String
  eventId : String
  service : String
  ts : Time
  indexedAt : Time
  source : EventSource
  text : List Char
  type : String
  similarity : ℚ
  score : ℚ
  title : Option String
  centeredSimilarity : Option ℚ

structure HybridResult where
  hits : List RetrievedHit
  abstained : Bool

def defaultMinSimilarity : ℚ := 3 / 10

def armK : ℕ := 20

/-- `_default_min_similarity`. -/
def Embedder.floor (embedder : Embedder) : ℚ := embedder.minSimilarity.getD defaultMinSimilarity

/-- `should_abstain`. -/
def shouldAbstain (similarities : List ℚ) (minSimilarity : ℚ) : Bool :=
  match similarities with
  | [] => true
  | first :: rest => decide (rest.foldl max first < minSimilarity)

/-- `_rows_to_map`, without the score, which is the row's similarity. -/
def rowsToMap (rows : List Row) : Dict String Row :=
  rows.foldl (fun map row => map.set row.chunkId row) []

/-- The hit of a row. -/
def Row.hit (row : Row) (score : ℚ) : RetrievedHit where
  chunkId := row.chunkId
  eventId := row.eventId
  service := row.service
  ts := row.ts
  indexedAt := row.indexedAt
  source := row.source
  text := row.text
  type := row.type
  similarity := row.similarity
  score := score
  title := row.title
  centeredSimilarity := row.centeredSimilarity

/-- **`hybrid_search`.** -/
def hybridSearch (conn : Connection) (embedder : Embedder) (question : String) (k : ℕ := 5)
    (service : Option String := none) (since : Option Time := none)
    (minSimilarity : Option ℚ := none) (excludeEventId : Option String := none) : HybridResult :=
  let minSimilarity := minSimilarity.getD embedder.floor
  let centeredFloor := embedder.minSimilarityCentered
  let model := embedder.name.getD ""
  let centroid := if centeredFloor.isSome then conn.getCentroid model else none
  let query : Query :=
    ⟨question, vecLiteral (embedder.encodeQuery question), armK, service, since, excludeEventId, centroid⟩
  let vecRows := conn.vectorRows query
  let kwRows := conn.keywordRows query
  let vecMap := rowsToMap vecRows
  let kwMap := rowsToMap kwRows
  let fused := reciprocalRankFusion [vecRows.map Row.chunkId, kwRows.map Row.chunkId]
  let hits := fused.filterMap fun (chunkId, score) =>
    ((vecMap.get chunkId).or (kwMap.get chunkId)).map fun row => row.hit score
  let hits := hits.mergeSort fun first second => second.score ≤ first.score
  let topK := hits.take k
  if service.isSome || since.isSome then ⟨topK, topK.isEmpty⟩
  else
    let csims := topK.filterMap RetrievedHit.centeredSimilarity
    match centeredFloor, csims with
    | some floor, _ :: _ => ⟨topK, shouldAbstain csims floor⟩
    | _, _ => ⟨topK, shouldAbstain (topK.map RetrievedHit.similarity) minSimilarity⟩

/-- **What the unfiltered rule asks of a hit**: its centred similarity where there is one and a floor
for it, else its similarity. -/
def Accepted (embedder : Embedder) (hit : RetrievedHit) : Prop :=
  match embedder.minSimilarityCentered, hit.centeredSimilarity with
  | some floor, some similarity => floor ≤ similarity
  | _, _ => embedder.floor ≤ hit.similarity

/-- An unfiltered search that finds one hit abstains exactly where it is not accepted. -/
theorem hybridSearch_one {conn : Connection} {embedder : Embedder} {question : String} {k : ℕ}
    {excludeEventId : Option String} {hit : RetrievedHit}
    (found : (hybridSearch conn embedder question k none none none excludeEventId).hits = [hit]) :
    (hybridSearch conn embedder question k none none none excludeEventId).abstained = false ↔
      Accepted embedder hit := by
  revert found
  unfold hybridSearch
  dsimp only [Option.isSome_none, Bool.or_self, Bool.false_eq_true, if_false, Option.getD_none]
  generalize List.take k _ = topK
  intro found
  have one : topK = [hit] := by
    revert found
    cases embedder.minSimilarityCentered <;>
      cases topK.filterMap RetrievedHit.centeredSimilarity <;> exact id
  subst one
  unfold Accepted
  cases embedder.minSimilarityCentered with
  | none =>
    show decide (hit.similarity < embedder.floor) = false ↔ embedder.floor ≤ hit.similarity
    rw [decide_eq_false_iff_not, not_lt]
  | some floor =>
    cases centered : hit.centeredSimilarity with
    | none =>
      rw [show [hit].filterMap RetrievedHit.centeredSimilarity = [] by simp [centered]]
      show decide (hit.similarity < embedder.floor) = false ↔ embedder.floor ≤ hit.similarity
      rw [decide_eq_false_iff_not, not_lt]
    | some similarity =>
      rw [show [hit].filterMap RetrievedHit.centeredSimilarity = [similarity] by simp [centered]]
      show decide (similarity < floor) = false ↔ floor ≤ similarity
      rw [decide_eq_false_iff_not, not_lt]

end Freshet.Rag
