/-
**Retrieval over the index.**

The two arms of `hybrid_search` are statements over `vector_records`: the rows that pass the filters,
the nearest or the best matching first, `ARM_K` at most. What the search returns is then a matter of the
index alone (`search_exact`): every hit is a row that passes, shown with its own columns, its own
similarity and its exact score, no row twice; a candidate is left out only for `k` that score no less;
a row is a candidate exactly where fewer than `ARM_K` rows that pass are ahead of it in one of the
arms; and the search abstains under a filter exactly where no row passes, else exactly where no hit
clears the floor.
-/

import Freshet.Autopilot.OwnEvidence
import Freshet.Lib.Limit
import Freshet.Rag.Retrieval

namespace Freshet.Rag

open Freshet.Lib Freshet.Pipeline
open Freshet.Autopilot (Time Collation)

/-! ### The arms -/

/-- **What Postgres computes** of a row and a question: the distance `<=>`, the similarity of what is
left of both without the centroid, whether `text_tsv` matches the terms of the question, and
`ts_rank_cd`. -/
structure Ranking where
  distance : Column → String → ℚ
  centeredSimilarity : String → Column → String → ℚ
  matched : String → List Char → Bool
  rank : String → List Char → ℚ

/-- `_where`. -/
def Query.passes (query : Query) (row : Chunk) : Bool :=
  (query.service.all fun service => row.service = service) &&
    ((query.since.all fun since => since ≤ row.ts) &&
      query.excludeEventId.all fun eventId => row.eventId ≠ eventId)

/-- `ORDER BY value, chunk_id`. -/
def byValue (collation : Collation) (value : Chunk → ℚ) (first second : Σ _ : String, Chunk) : Bool :=
  value first.2 < value second.2 ||
    (value first.2 = value second.2 && collation.before first.1 second.1)

section Arms

variable (ranking : Ranking) (collation : Collation) (index : Index) (query : Query)

/-- The columns that both arms select. -/
def Ranking.columns (entry : Σ _ : String, Chunk) : Row where
  chunkId := entry.1
  eventId := entry.2.eventId
  service := entry.2.service
  ts := entry.2.ts
  indexedAt := entry.2.indexedAt
  source := entry.2.source
  text := entry.2.text
  type := entry.2.type
  title := entry.2.title
  similarity := 1 - ranking.distance entry.2.embedding query.qvec
  centeredSimilarity := query.centroid.map fun centroid =>
    ranking.centeredSimilarity centroid entry.2.embedding query.qvec

/-- The order of the vector arm. -/
def Ranking.nearer : (Σ _ : String, Chunk) → (Σ _ : String, Chunk) → Bool :=
  byValue collation fun row => ranking.distance row.embedding query.qvec

/-- The order of the keyword arm, `rank DESC`. -/
def Ranking.better : (Σ _ : String, Chunk) → (Σ _ : String, Chunk) → Bool :=
  byValue collation fun row => -ranking.rank query.question row.text

/-- The keyword arm asks for a match too. -/
def Ranking.passesMatched (row : Chunk) : Bool :=
  query.passes row && ranking.matched query.question row.text

/-- `vector_sql`. -/
def vectorSql : List Row :=
  (index.vectorRecords.first query.k (fun _ row => query.passes row)
    (ranking.nearer collation query)).map (ranking.columns query)

/-- `keyword_sql`. -/
def keywordSql : List Row :=
  (index.vectorRecords.first query.k (fun _ row => ranking.passesMatched query row)
    (ranking.better collation query)).map (ranking.columns query)

end Arms

/-- A database that holds the index. -/
def Ranking.connection (ranking : Ranking) (collation : Collation)
    (getCentroid : String → Option String)
    (incidentOf : List String → List (String × Option String × String)) (index : Index) :
    Connection where
  getCentroid := getCentroid
  vectorRows := vectorSql ranking collation index
  keywordRows := keywordSql ranking collation index
  incidentOf := incidentOf

/-! ### The fused hits -/

/-- What the arms are asked. -/
def asked (conn : Connection) (embedder : Embedder) (question : String) (service : Option String)
    (since : Option Time) (excludeEventId : Option String) : Query where
  question := question
  qvec := vecLiteral (embedder.encodeQuery question)
  k := armK
  service := service
  since := since
  excludeEventId := excludeEventId
  centroid := if embedder.minSimilarityCentered.isSome then conn.getCentroid (embedder.name.getD "")
    else none

/-- The hits of two arms, the best first. -/
def fusedRows (vecRows kwRows : List Row) : List RetrievedHit :=
  ((reciprocalRankFusion [vecRows.map Row.chunkId, kwRows.map Row.chunkId]).filterMap
    fun (chunkId, score) =>
      (((rowsToMap vecRows).get chunkId).or ((rowsToMap kwRows).get chunkId)).map fun row =>
        row.hit score).mergeSort fun first second => second.score ≤ first.score

/-- What an unfiltered search asks of a hit. -/
def Clears (embedder : Embedder) (minSimilarity : Option ℚ) (hit : RetrievedHit) : Prop :=
  match embedder.minSimilarityCentered, hit.centeredSimilarity with
  | some floor, some similarity => floor ≤ similarity
  | _, _ => minSimilarity.getD embedder.floor ≤ hit.similarity

theorem shouldAbstain_iff {similarities : List ℚ} {minSimilarity : ℚ} :
    shouldAbstain similarities minSimilarity = true ↔ ∀ s ∈ similarities, s < minSimilarity := by
  have loop : ∀ (rest : List ℚ) (first : ℚ),
      rest.foldl max first < minSimilarity ↔ first < minSimilarity ∧ ∀ s ∈ rest, s < minSimilarity := by
    intro rest
    induction rest with
    | nil => simp
    | cons second rest ih =>
      intro first
      rw [List.foldl_cons, ih, max_lt_iff, List.forall_mem_cons, and_assoc]
  cases similarities with
  | nil => exact ⟨fun _ _ member => absurd member List.not_mem_nil, fun _ => rfl⟩
  | cons first rest =>
    rw [List.forall_mem_cons, ← loop]
    exact decide_eq_true_iff

section Searched

variable {conn : Connection} {embedder : Embedder} {question : String} {k : ℕ}
  {service : Option String} {since : Option Time} {minSimilarity : Option ℚ}
  {excludeEventId : Option String}

/-- The hits are the head of the fused ones. -/
theorem hits_eq :
    (hybridSearch conn embedder question k service since minSimilarity excludeEventId).hits =
      (fusedRows (conn.vectorRows (asked conn embedder question service since excludeEventId))
        (conn.keywordRows (asked conn embedder question service since excludeEventId))).take k := by
  unfold hybridSearch fusedRows asked
  dsimp only
  generalize List.take k _ = topK
  split
  · rfl
  · cases embedder.minSimilarityCentered <;> cases topK.filterMap RetrievedHit.centeredSimilarity <;> rfl

/-- Under a filter, a search abstains where it has no hit. -/
theorem abstained_filtered (filtered : service.isSome || since.isSome) :
    (hybridSearch conn embedder question k service since minSimilarity excludeEventId).abstained =
      (hybridSearch conn embedder question k service since minSimilarity excludeEventId).hits.isEmpty := by
  unfold hybridSearch
  dsimp only
  rw [if_pos filtered]

/-- Without one, the similarities that are compared are the centred ones, if there are any. -/
theorem abstained_eq :
    (hybridSearch conn embedder question k none none minSimilarity excludeEventId).abstained =
      match embedder.minSimilarityCentered,
        (hybridSearch conn embedder question k none none minSimilarity excludeEventId).hits.filterMap
          RetrievedHit.centeredSimilarity with
      | some floor, first :: rest => shouldAbstain (first :: rest) floor
      | _, _ => shouldAbstain
          ((hybridSearch conn embedder question k none none minSimilarity excludeEventId).hits.map
            RetrievedHit.similarity) (minSimilarity.getD embedder.floor) := by
  unfold hybridSearch
  simp only [Option.isSome_none, Bool.or_self, Bool.false_eq_true, if_false]
  generalize List.take k _ = topK
  cases embedder.minSimilarityCentered with
  | none => rfl
  | some floor =>
    cases csims : topK.filterMap RetrievedHit.centeredSimilarity with
    | nil => simp only [csims]
    | cons first rest => simp only [csims]

/-- Where all hits were measured against a centroid or none was, it abstains where none clears the
floor. -/
theorem abstained_unfiltered {centered : Bool} (alike : ∀ hit ∈
        (hybridSearch conn embedder question k none none minSimilarity excludeEventId).hits,
      hit.centeredSimilarity.isSome = centered) :
    (hybridSearch conn embedder question k none none minSimilarity excludeEventId).abstained = true ↔
      ∀ hit ∈ (hybridSearch conn embedder question k none none minSimilarity excludeEventId).hits,
        ¬ Clears embedder minSimilarity hit := by
  rw [abstained_eq]
  generalize (hybridSearch conn embedder question k none none minSimilarity excludeEventId).hits =
    topK at *
  have raw : shouldAbstain (topK.map RetrievedHit.similarity) (minSimilarity.getD embedder.floor) =
      true ↔ ∀ hit ∈ topK, ¬ minSimilarity.getD embedder.floor ≤ hit.similarity := by
    rw [shouldAbstain_iff, List.forall_mem_map]
    exact forall₂_congr fun _ _ => not_le.symm
  unfold Clears
  cases embedder.minSimilarityCentered with
  | none => exact raw
  | some floor =>
    cases csims : topK.filterMap RetrievedHit.centeredSimilarity with
    | nil =>
      have bare : ∀ hit ∈ topK, hit.centeredSimilarity = none :=
        List.filterMap_eq_nil_iff.mp csims
      refine raw.trans (forall₂_congr fun hit member => ?_)
      rw [bare hit member]
    | cons first rest =>
      have every : ∀ hit ∈ topK, hit.centeredSimilarity.isSome := by
        have here : first ∈ topK.filterMap RetrievedHit.centeredSimilarity := by
          rw [csims]
          exact List.mem_cons_self
        obtain ⟨hit, member, shown⟩ := List.mem_filterMap.mp here
        intro other inside
        rw [alike other inside, ← alike hit member, shown]
        rfl
      show shouldAbstain (first :: rest) floor = true ↔ _
      rw [← csims, shouldAbstain_iff]
      constructor
      · intro below hit member
        obtain ⟨similarity, shown⟩ := Option.isSome_iff_exists.mp (every hit member)
        rw [shown]
        exact not_le.mpr (below similarity (List.mem_filterMap.mpr ⟨hit, member, shown⟩))
      · intro unclear similarity inside
        obtain ⟨hit, member, shown⟩ := List.mem_filterMap.mp inside
        have low := unclear hit member
        rw [shown] at low
        exact not_le.mp low

end Searched

/-! ### What is found -/

/-- **The rows of two arms**: none twice in an arm, and the same where both have it. -/
structure Arms (vecRows kwRows : List Row) : Prop where
  distinct : (vecRows.map Row.chunkId).Nodup
  distinct' : (kwRows.map Row.chunkId).Nodup
  agree : ∀ row ∈ vecRows, ∀ row' ∈ kwRows, row.chunkId = row'.chunkId → row = row'

theorem get_rowsToMap {rows : List Row} (distinct : (rows.map Row.chunkId).Nodup) {chunkId : String}
    {row : Row} :
    (rowsToMap rows).get chunkId = some row ↔ row ∈ rows ∧ row.chunkId = chunkId := by
  induction rows using List.reverseRecOn with
  | nil => exact ⟨nofun, fun inside => absurd inside.1 List.not_mem_nil⟩
  | append_singleton rows last ih =>
    rw [List.map_append, List.nodup_append] at distinct
    obtain ⟨distinct, -, new⟩ := distinct
    have step : rowsToMap (rows ++ [last]) = (rowsToMap rows).set last.chunkId last := by
      unfold rowsToMap
      rw [List.foldl_append]
      rfl
    rw [step, Dict.get_set, List.mem_append, List.mem_singleton]
    by_cases same : chunkId = last.chunkId
    · rw [if_pos same, Option.some.injEq]
      refine ⟨fun here => ⟨Or.inr here.symm, here ▸ same.symm⟩, ?_⟩
      rintro ⟨earlier | rfl, named⟩
      · exact absurd (named.trans same) (new _ (List.mem_map_of_mem earlier) _ List.mem_cons_self)
      · rfl
    · rw [if_neg same, ih distinct]
      refine ⟨fun here => ⟨Or.inl here.1, here.2⟩, ?_⟩
      rintro ⟨earlier | rfl, named⟩
      · exact ⟨earlier, named⟩
      · exact absurd named.symm same

section Fused

variable {vecRows kwRows : List Row} (arms : Arms vecRows kwRows)

include arms

/-- The row of a chunk, whichever arm has it. -/
theorem Arms.get_or {chunkId : String} {row : Row} :
    ((rowsToMap vecRows).get chunkId).or ((rowsToMap kwRows).get chunkId) = some row ↔
      (row ∈ vecRows ∨ row ∈ kwRows) ∧ row.chunkId = chunkId := by
  cases found : (rowsToMap vecRows).get chunkId with
  | some first =>
    obtain ⟨inside, named⟩ := (get_rowsToMap arms.distinct).mp found
    rw [Option.some_or, Option.some.injEq]
    constructor
    · rintro rfl
      exact ⟨Or.inl inside, named⟩
    · rintro ⟨here | there, named'⟩
      · have again := (get_rowsToMap arms.distinct).mpr ⟨here, named'⟩
        rw [found] at again
        exact Option.some.inj again
      · exact arms.agree first inside row there (named.trans named'.symm)
  | none =>
    rw [Option.none_or, get_rowsToMap arms.distinct']
    refine ⟨fun here => ⟨Or.inr here.1, here.2⟩, ?_⟩
    rintro ⟨here | there, named⟩
    · have again := (get_rowsToMap arms.distinct).mpr ⟨here, named⟩
      rw [found] at again
      cases again
    · exact ⟨there, named⟩

theorem Arms.distinct_ids : ∀ ranked ∈ [vecRows.map Row.chunkId, kwRows.map Row.chunkId],
    ranked.Nodup := by
  rintro ranked member
  rcases List.mem_pair.mp member with rfl | rfl
  · exact arms.distinct
  · exact arms.distinct'

/-- **The hits are the rows of both arms, with their exact scores.** -/
theorem Arms.mem_fusedRows {hit : RetrievedHit} :
    hit ∈ fusedRows vecRows kwRows ↔ ∃ row, (row ∈ vecRows ∨ row ∈ kwRows) ∧ hit = row.hit
      (score rrfK [vecRows.map Row.chunkId, kwRows.map Row.chunkId] row.chunkId) := by
  obtain ⟨-, exact', -⟩ := fuse_spec rrfK arms.distinct_ids
  unfold fusedRows
  rw [List.mem_mergeSort, List.mem_filterMap]
  constructor
  · rintro ⟨⟨chunkId, value⟩, member, shown⟩
    obtain ⟨row, found, rfl⟩ := Option.map_eq_some_iff.mp shown
    obtain ⟨inside, rfl⟩ := arms.get_or.mp found
    exact ⟨row, inside, by rw [((exact' _ _).mp member).2]⟩
  · rintro ⟨row, inside, rfl⟩
    refine ⟨(row.chunkId, _), (exact' _ _).mpr ⟨?_, rfl⟩, ?_⟩
    · rcases inside with here | there
      · exact ⟨_, List.mem_cons_self, List.mem_map_of_mem here⟩
      · exact ⟨_, List.mem_cons_of_mem _ List.mem_cons_self, List.mem_map_of_mem there⟩
    · dsimp only
      rw [arms.get_or.mpr ⟨inside, rfl⟩]
      rfl

theorem Arms.nodup_fusedRows : ((fusedRows vecRows kwRows).map RetrievedHit.chunkId).Nodup := by
  obtain ⟨once, -, -⟩ := fuse_spec rrfK arms.distinct_ids
  unfold fusedRows
  refine ((List.mergeSort_perm _ _).map RetrievedHit.chunkId).nodup_iff.mpr ?_
  refine List.pairwise_map.mpr (List.Pairwise.filterMap _ ?_ (List.pairwise_map.mp once))
  intro a b apart hit shown hit' shown' same
  obtain ⟨row, found, rfl⟩ := Option.map_eq_some_iff.mp shown
  obtain ⟨row', found', rfl⟩ := Option.map_eq_some_iff.mp shown'
  have named := (arms.get_or.mp found).2
  have named' := (arms.get_or.mp found').2
  exact apart (named.symm.trans (Eq.trans same named'))

omit arms in
theorem sorted_fusedRows :
    (fusedRows vecRows kwRows).Pairwise fun first second => second.score ≤ first.score := by
  have sorts : StableSort (fun hit : RetrievedHit => OrderDual.toDual hit.score) _
    (fusedRows vecRows kwRows) := StableSort.mergeSort _
  exact sorts.ordered

end Fused

/-! ### The search of an index -/

section Order

variable {collation : Collation} {value : Chunk → ℚ}

theorem byValue_iff {a b : Σ _ : String, Chunk} : byValue collation value a b = true ↔
    value a.2 < value b.2 ∨ (value a.2 = value b.2 ∧ collation.before a.1 b.1 = true) := by
  unfold byValue
  rw [Bool.or_eq_true, Bool.and_eq_true, decide_eq_true_iff, decide_eq_true_iff]

theorem byValue_total (a b : Σ _ : String, Chunk) :
    byValue collation value a b = true ∨ byValue collation value b a = true := by
  rw [byValue_iff, byValue_iff]
  rcases lt_trichotomy (value a.2) (value b.2) with less | same | more
  · exact Or.inl (Or.inl less)
  · rcases collation.total a.1 b.1 with before | after
    · exact Or.inl (Or.inr ⟨same, before⟩)
    · exact Or.inr (Or.inr ⟨same.symm, after⟩)
  · exact Or.inr (Or.inl more)

theorem byValue_trans (a b c : Σ _ : String, Chunk) (first : byValue collation value a b = true)
    (second : byValue collation value b c = true) : byValue collation value a c = true := by
  rw [byValue_iff] at first second ⊢
  rcases first with less | ⟨same, before⟩
  · rcases second with less' | ⟨same', -⟩
    · exact Or.inl (less.trans less')
    · exact Or.inl (same' ▸ less)
  · rcases second with less' | ⟨same', before'⟩
    · exact Or.inl (same ▸ less')
    · exact Or.inr ⟨same.trans same', collation.trans _ _ _ before before'⟩

theorem byValue_antisymm (a b : Σ _ : String, Chunk) (first : byValue collation value a b = true)
    (second : byValue collation value b a = true) : a.1 = b.1 := by
  rw [byValue_iff] at first second
  rcases first with less | ⟨same, before⟩
  · rcases second with more | ⟨same', -⟩
    · exact absurd more (lt_asymm less)
    · exact absurd less (lt_irrefl _ <| same' ▸ ·)
  · rcases second with more | ⟨-, after⟩
    · exact absurd more (lt_irrefl _ <| same ▸ ·)
    · exact collation.antisymm _ _ before after

end Order

section Index

variable {ranking : Ranking} {collation : Collation} {index : Index} {query : Query}

theorem mem_vectorSql {row : Row} : row ∈ vectorSql ranking collation index query ↔
    ∃ key chunk, index.vectorRecords.lookup key = some chunk ∧ query.passes chunk = true ∧
      index.vectorRecords.ahead (fun _ row => query.passes row) (ranking.nearer collation query)
        ⟨key, chunk⟩ < query.k ∧ row = ranking.columns query ⟨key, chunk⟩ := by
  unfold vectorSql
  rw [List.mem_map]
  constructor
  · rintro ⟨⟨key, chunk⟩, member, rfl⟩
    obtain ⟨found, passes, few⟩ := (Table.mem_first byValue_total byValue_trans
      byValue_antisymm).mp member
    exact ⟨key, chunk, found, passes, few, rfl⟩
  · rintro ⟨key, chunk, found, passes, few, rfl⟩
    exact ⟨⟨key, chunk⟩, (Table.mem_first byValue_total byValue_trans byValue_antisymm).mpr
      ⟨found, passes, few⟩, rfl⟩

theorem mem_keywordSql {row : Row} : row ∈ keywordSql ranking collation index query ↔
    ∃ key chunk, index.vectorRecords.lookup key = some chunk ∧
      ranking.passesMatched query chunk = true ∧
      index.vectorRecords.ahead (fun _ row => ranking.passesMatched query row)
        (ranking.better collation query) ⟨key, chunk⟩ < query.k ∧
      row = ranking.columns query ⟨key, chunk⟩ := by
  unfold keywordSql
  rw [List.mem_map]
  constructor
  · rintro ⟨⟨key, chunk⟩, member, rfl⟩
    obtain ⟨found, passes, few⟩ := (Table.mem_first byValue_total byValue_trans
      byValue_antisymm).mp member
    exact ⟨key, chunk, found, passes, few, rfl⟩
  · rintro ⟨key, chunk, found, passes, few, rfl⟩
    exact ⟨⟨key, chunk⟩, (Table.mem_first byValue_total byValue_trans byValue_antisymm).mpr
      ⟨found, passes, few⟩, rfl⟩

/-- The arms select no row twice, and the same columns of it. -/
theorem arms_sql : Arms (vectorSql ranking collation index query)
    (keywordSql ranking collation index query) where
  distinct := by
    unfold vectorSql
    rw [List.map_map]
    exact List.pairwise_map.mpr (Table.distinct_first query.k index.vectorRecords)
  distinct' := by
    unfold keywordSql
    rw [List.map_map]
    exact List.pairwise_map.mpr (Table.distinct_first query.k index.vectorRecords)
  agree := by
    intro row here row' there same
    obtain ⟨key, chunk, found, -, -, rfl⟩ := mem_vectorSql.mp here
    obtain ⟨key', chunk', found', -, -, rfl⟩ := mem_keywordSql.mp there
    have keys : key = key' := same
    subst keys
    rw [found] at found'
    rw [Option.some.inj found']

/-- **A candidate**: it passes the filters, and in one of the arms fewer than `ARM_K` are ahead. -/
def Candidate (ranking : Ranking) (collation : Collation) (index : Index) (query : Query)
    (key : String) (row : Chunk) : Prop :=
  query.passes row = true ∧
    (index.vectorRecords.ahead (fun _ row => query.passes row) (ranking.nearer collation query)
        ⟨key, row⟩ < armK ∨
      (ranking.matched query.question row.text = true ∧
        index.vectorRecords.ahead (fun _ row => ranking.passesMatched query row)
          (ranking.better collation query) ⟨key, row⟩ < armK))

/-- What the arms make of a chunk's rank. -/
def armScore (ranking : Ranking) (collation : Collation) (index : Index) (query : Query)
    (key : String) : ℚ :=
  score rrfK [(vectorSql ranking collation index query).map Row.chunkId,
    (keywordSql ranking collation index query).map Row.chunkId] key

/-- The fused hits are the candidates. -/
theorem mem_fused_iff (limit : query.k = armK) {hit : RetrievedHit} :
    hit ∈ fusedRows (vectorSql ranking collation index query)
        (keywordSql ranking collation index query) ↔
      ∃ row, index.vectorRecords.lookup hit.chunkId = some row ∧
        Candidate ranking collation index query hit.chunkId row ∧
        hit = (ranking.columns query ⟨hit.chunkId, row⟩).hit
          (armScore ranking collation index query hit.chunkId) := by
  rw [arms_sql.mem_fusedRows]
  constructor
  · rintro ⟨row, here | there, rfl⟩
    · obtain ⟨key, chunk, found, passes, few, rfl⟩ := mem_vectorSql.mp here
      exact ⟨chunk, found, ⟨passes, Or.inl (limit ▸ few)⟩, rfl⟩
    · obtain ⟨key, chunk, found, passes, few, rfl⟩ := mem_keywordSql.mp there
      obtain ⟨passes, matched⟩ := Bool.and_eq_true_iff.mp passes
      exact ⟨chunk, found, ⟨passes, Or.inr ⟨matched, limit ▸ few⟩⟩, rfl⟩
  · rintro ⟨row, found, ⟨passes, near | ⟨matched, good⟩⟩, shown⟩
    · exact ⟨_, Or.inl (mem_vectorSql.mpr ⟨_, row, found, passes, limit ▸ near, rfl⟩), shown⟩
    · exact ⟨_, Or.inr (mem_keywordSql.mpr ⟨_, row, found,
        Bool.and_eq_true_iff.mpr ⟨passes, matched⟩, limit ▸ good, rfl⟩), shown⟩

/-- If a row passes, some row is a candidate. -/
theorem exists_candidate {key : String} {row : Chunk}
    (found : index.vectorRecords.lookup key = some row) (passes : query.passes row = true) :
    ∃ key row, index.vectorRecords.lookup key = some row ∧
      Candidate ranking collation index query key row := by
  have some' : index.vectorRecords.first armK (fun _ row => query.passes row)
      (ranking.nearer collation query) ≠ [] := by
    intro none'
    have member := (@Table.mem_select _ _ _ (fun _ row => query.passes row)
      (ranking.nearer collation query) _ _ _).mpr ⟨found, passes⟩
    rcases List.take_eq_nil_iff.mp none' with zero | empty
    · exact absurd zero (by decide)
    · rw [empty] at member
      cases member
  obtain ⟨⟨key, row⟩, member⟩ := List.exists_mem_of_ne_nil _ some'
  obtain ⟨found, passes, few⟩ := (Table.mem_first byValue_total byValue_trans
    byValue_antisymm).mp member
  exact ⟨key, row, found, passes, Or.inl few⟩

end Index

/-- **A search of an index**, exactly. -/
structure Exact (ranking : Ranking) (collation : Collation) (index : Index) (embedder : Embedder)
    (minSimilarity : Option ℚ) (query : Query) (k : ℕ) (result : HybridResult) : Prop where
  /-- No chunk twice, `k` at most, the best first. -/
  ranked : (result.hits.map RetrievedHit.chunkId).Nodup ∧ result.hits.length ≤ k ∧
    result.hits.Pairwise fun first second => second.score ≤ first.score
  /-- Each hit is a candidate of the index, as it stands there. -/
  stored : ∀ hit ∈ result.hits, ∃ row, index.vectorRecords.lookup hit.chunkId = some row ∧
    Candidate ranking collation index query hit.chunkId row ∧
    hit = (ranking.columns query ⟨hit.chunkId, row⟩).hit
      (armScore ranking collation index query hit.chunkId)
  /-- A candidate is left out for `k` that score no less. -/
  best : ∀ key row, index.vectorRecords.lookup key = some row →
    Candidate ranking collation index query key row →
    key ∉ result.hits.map RetrievedHit.chunkId →
    result.hits.length = k ∧ ∀ hit ∈ result.hits, armScore ranking collation index query key ≤ hit.score
  /-- Under a filter it abstains where no row passes, else where no hit clears the floor. -/
  abstains : result.abstained = true ↔
    if query.service.isSome || query.since.isSome then
      k = 0 ∨ ∀ key row, index.vectorRecords.lookup key = some row → query.passes row = false
    else ∀ hit ∈ result.hits, ¬ Clears embedder minSimilarity hit

/-- Whatever returns the head of the fused rows of the index is exact, if it abstains as it should. -/
theorem exact_of_hits {ranking : Ranking} {collation : Collation} {index : Index} {embedder : Embedder}
    {minSimilarity : Option ℚ} {query : Query} {k : ℕ} {result : HybridResult}
    (limit : query.k = armK)
    (hits : result.hits = (fusedRows (vectorSql ranking collation index query)
      (keywordSql ranking collation index query)).take k)
    (filtered : (query.service.isSome || query.since.isSome) = true →
      result.abstained = result.hits.isEmpty)
    (unfiltered : ¬ (query.service.isSome || query.since.isSome) = true →
      (result.abstained = true ↔ ∀ hit ∈ result.hits, ¬ Clears embedder minSimilarity hit)) :
    Exact ranking collation index embedder minSimilarity query k result where
  ranked := by
    rw [hits]
    refine ⟨?_, List.length_take_le _ _, sorted_fusedRows.sublist (List.take_sublist _ _)⟩
    rw [List.map_take]
    exact arms_sql.nodup_fusedRows.sublist (List.take_sublist _ _)
  stored hit member := (mem_fused_iff limit).mp (List.mem_of_mem_take (hits ▸ member))
  best key row found candidate left := by
    let hit := (ranking.columns query ⟨key, row⟩).hit (armScore ranking collation index query key)
    have member : hit ∈ fusedRows (vectorSql ranking collation index query)
      (keywordSql ranking collation index query) := (mem_fused_iff limit).mpr ⟨row, found, candidate, rfl⟩
    have out : hit ∉ (fusedRows (vectorSql ranking collation index query)
        (keywordSql ranking collation index query)).take k := fun inside =>
      left (List.mem_map.mpr ⟨hit, hits ▸ inside, rfl⟩)
    rw [hits]
    exact le_of_left_out sorted_fusedRows member out
  abstains := by
    by_cases filter : (query.service.isSome || query.since.isSome) = true
    · rw [if_pos filter, filtered filter, List.isEmpty_iff, hits, List.take_eq_nil_iff]
      refine or_congr_right ⟨fun none' key row found => ?_, fun out => ?_⟩
      · by_contra passes
        obtain ⟨key, row, found, candidate⟩ := @exists_candidate ranking collation index query _ _ found
          (Bool.not_eq_false _ ▸ passes)
        have member := (@mem_fused_iff ranking collation index query limit ((ranking.columns query
          ⟨key, row⟩).hit (armScore ranking collation index query key))).mpr ⟨row, found, candidate, rfl⟩
        rw [none'] at member
        cases member
      · refine List.eq_nil_iff_forall_not_mem.mpr fun hit member => ?_
        obtain ⟨row, found, candidate, -⟩ := (mem_fused_iff limit).mp member
        exact absurd candidate.1 (Bool.eq_false_iff.mp (out _ row found))
    · rw [if_neg filter]
      exact unfiltered filter

/-- **`hybrid_search` over an index is exact.** -/
theorem search_exact (ranking : Ranking) (collation : Collation) (getCentroid : String → Option String)
    (incidentOf : List String → List (String × Option String × String)) (index : Index)
    (embedder : Embedder) (question : String) (k : ℕ) (service : Option String) (since : Option Time)
    (minSimilarity : Option ℚ) (excludeEventId : Option String) :
    Exact ranking collation index embedder minSimilarity
      (asked (ranking.connection collation getCentroid incidentOf index) embedder question service since
        excludeEventId) k
      (hybridSearch (ranking.connection collation getCentroid incidentOf index) embedder question k
        service since minSimilarity excludeEventId) := by
  refine exact_of_hits rfl hits_eq abstained_filtered fun plain => ?_
  obtain ⟨noService, noSince⟩ := not_or.mp (Bool.or_eq_true _ _ ▸ plain)
  obtain rfl := Option.not_isSome_iff_eq_none.mp noService
  obtain rfl := Option.not_isSome_iff_eq_none.mp noSince
  refine @abstained_unfiltered _ _ _ _ _ _ (asked (ranking.connection collation getCentroid incidentOf
    index) embedder question none none excludeEventId).centroid.isSome fun hit member => ?_
  rw [hits_eq] at member
  obtain ⟨row, -, -, shown⟩ := (mem_fused_iff rfl).mp (List.mem_of_mem_take member)
  rw [shown]
  exact Option.isSome_map

end Freshet.Rag
