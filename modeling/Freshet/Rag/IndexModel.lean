/-
**The guard against an index built with another model.**

`check_index_model` reads how many rows each model has. It raises exactly where some row names a
model that is neither the querying embedder's nor unknown (`checkIndexModel_error_iff`). The worker
writes its own model into every row, so no life of it makes the guard raise for that model, and one
committed message makes it raise for every other (`index_model_guarded`): the first chunk of a message that
was indexed stays, with the worker's model.
-/

import Freshet.Pipeline.EveryLife

namespace Freshet.Rag

open Freshet.Lib Freshet.Pipeline Freshet.Kafka
open Freshet.Autopilot (Time)

/-- `coalesce(model, 'unknown')`. -/
def shownModel (row : Chunk) : String := row.model.getD "unknown"

/-- `_INDEX_MODELS_SQL`. -/
def indexModels (index : Index) : Dict String Nat :=
  Dict.tally (index.vectorRecords.entries.map fun entry => shownModel entry.2)

/-- What the exception shows: `repr` of a string, and of the dictionary. -/
structure Shown where
  repr : String → String
  counts : Dict String Nat → String

variable (shown : Shown)

/-- The message of the conflict. -/
def mismatch (name : String) (conflicting : Dict String Nat) : String :=
  "index/embedder mismatch: querying with " ++ shown.repr name ++ ", but the index holds " ++
    shown.counts conflicting ++ " — those vectors are not comparable, so every query would " ++
    "abstain. Re-index with " ++ shown.repr name ++ " (make embedder) or set FRESHET_EMBEDDER " ++
    "to the model that built the index."

/-- **`check_index_model`**, `name` being `getattr(embedder, "name", None)`. -/
def checkIndexModel (index : Index) (name : Option String) : Except Kafka.Exn (Option String) :=
  match name with
  | none => .ok none
  | some name =>
    let counts := indexModels index
    if counts = [] then .ok none
    else
      let conflicting := counts.filter fun item => item.1 ≠ name ∧ item.1 ≠ "unknown"
      if conflicting ≠ [] then .error (.runtimeError (mismatch shown name conflicting))
      else match counts.get "unknown" with
        | some n => .ok (some (toString n ++
            " rows predate embedding provenance; assuming they were built with " ++ shown.repr name))
        | none => .ok none

/-- A row of another model. -/
def Foreign (index : Index) (name : String) : Prop :=
  ∃ key row, index.vectorRecords.lookup key = some row ∧ shownModel row ≠ name ∧
    shownModel row ≠ "unknown"

theorem mem_indexModels {index : Index} {model : String} :
    (∃ n, (model, n) ∈ indexModels index) ↔
      ∃ key row, index.vectorRecords.lookup key = some row ∧ shownModel row = model := by
  unfold indexModels
  constructor
  · rintro ⟨n, member⟩
    obtain ⟨⟨key, row⟩, entry, same⟩ := List.mem_map.mp (Dict.mem_tally.mp member).1
    exact ⟨key, row, Table.mem_entries_iff.mp entry, same⟩
  · rintro ⟨key, row, found, same⟩
    exact ⟨_, Dict.mem_tally.mpr
      ⟨List.mem_map.mpr ⟨⟨key, row⟩, Table.mem_entries_iff.mpr found, same⟩, rfl⟩⟩

/-- **The guard raises exactly where there is a row of another model.** -/
theorem checkIndexModel_error_iff {index : Index} {name : String} :
    (∃ exn, checkIndexModel shown index (some name) = .error exn) ↔ Foreign index name := by
  have conflicts : ((indexModels index).filter fun item => item.1 ≠ name ∧ item.1 ≠ "unknown") ≠ [] ↔
      Foreign index name := by
    constructor
    · intro full
      obtain ⟨⟨model, n⟩, member⟩ := List.exists_mem_of_ne_nil _ full
      obtain ⟨inside, other⟩ := List.mem_filter.mp member
      obtain ⟨key, row, found, rfl⟩ := mem_indexModels.mp ⟨n, inside⟩
      exact ⟨key, row, found, (of_decide_eq_true other).1, (of_decide_eq_true other).2⟩
    · rintro ⟨key, row, found, other, known⟩
      obtain ⟨n, inside⟩ := mem_indexModels.mpr ⟨key, row, found, rfl⟩
      exact List.ne_nil_of_mem (List.mem_filter.mpr ⟨inside, decide_eq_true ⟨other, known⟩⟩)
  rw [← conflicts]
  unfold checkIndexModel
  dsimp only
  constructor
  · rintro ⟨exn, raised⟩ none'
    rw [if_neg (not_not.mpr none')] at raised
    split_ifs at raised
    split at raised <;> cases raised
  · intro full
    have rows : indexModels index ≠ [] := by
      intro none'
      rw [none'] at full
      exact full rfl
    rw [if_neg rows, if_pos full]
    exact ⟨_, rfl⟩

/-! ### The worker's own model -/

variable {around : Surroundings} {config : HandlerConfig} {topic : Int → List String}

/-- The first chunk of some event has this model. -/
structure Built (model : Option String) (index : Index) : Prop where
  keyed : index.WellKeyed
  row : ∃ eventId row, index.chunk eventId 0 = some row ∧ row.model = model

/-- A record that is issued stands under its own key. -/
theorem keyed_of_issued {ev : Event} {stamp : Time} {vectors : List Embedding}
    {statement : Statement}
    (issued : Issued config ev (pairsOf ev stamp vectors) statement) :
    Index.KeyedStatement statement := by
  cases statement with
  | upsertRecord rec embedding model =>
    obtain ⟨-, pair, member, -, indexedAt, rfl⟩ := issued
    obtain ⟨chunk, -, eq⟩ := record_of_pair member
    show pair.1.chunkId = chunkId pair.1.eventId pair.1.chunkIndex
    rw [eq]
    rfl
  | deleteOrphanChunks eventId count => exact trivial
  | registerIndexing eventId => exact trivial
  | ensureIncident incidentId title openedAt service => exact trivial
  | ensureService incidentId service => exact trivial
  | incidentEvent incidentId eventId => exact trivial
  | completeIndexing eventId => exact trivial

/-- **A first chunk with the worker's model stays**: it is overwritten with the same model, and no
event that has chunks deletes its first. -/
theorem Built.exec {index : Index} (built : Built config.name index) {ev : Event} {stamp : Time}
    {vectors : List Embedding} {statement : Statement}
    (issued : Issued config ev (pairsOf ev stamp vectors) statement)
    (encoded : Ensures ev statement ∨ Encoded around ev stamp vectors) (now : Time) :
    Built config.name (index.exec now statement) := by
  have fits := keyed_of_issued issued
  obtain ⟨keyed, eventId, row, found, model⟩ := built
  refine ⟨keyed.exec fits now, eventId, ?_⟩
  by_cases spares : Index.Spares statement
  · rw [Index.chunk_spared spares]
    exact ⟨row, found, model⟩
  cases statement with
  | upsertRecord rec embedding model' =>
    obtain ⟨rfl, -⟩ := issued
    rw [Index.chunk_upsert fits]
    split_ifs with same
    · rw [found]
      exact ⟨_, rfl, rfl⟩
    · exact ⟨row, found, model⟩
  | deleteOrphanChunks other count =>
    obtain ⟨rfl, rfl⟩ := issued
    have encoded : Encoded around ev stamp vectors := by
      refine encoded.resolve_left ?_
      rintro ⟨incidentId, -, -, same | same⟩ <;> cases same
    have some' : 0 < (pairsOf ev stamp vectors).length := by
      rw [length_pairs encoded.length, ← length_records ev stamp]
      exact List.length_pos_of_ne_nil encoded.full
    rw [Index.chunk_delete keyed, if_neg fun both => by omega]
    exact ⟨row, found, model⟩
  | registerIndexing other => exact absurd trivial spares
  | ensureIncident incidentId title openedAt service => exact absurd trivial spares
  | ensureService incidentId service => exact absurd trivial spares
  | incidentEvent incidentId other => exact absurd trivial spares
  | completeIndexing other => exact absurd trivial spares

/-- No statement of the worker writes another model. -/
theorem not_foreign_exec {index : Index} {name : String} (named : config.name = some name)
    (own : ¬ Foreign index name) {ev : Event} {stamp : Time} {vectors : List Embedding}
    {statement : Statement}
    (issued : Issued config ev (pairsOf ev stamp vectors) statement) (now : Time) :
    ¬ Foreign (index.exec now statement) name := by
  rintro ⟨key, row, found, other, known⟩
  by_cases spares : Index.Spares statement
  · rw [Index.vectorRecords_exec spares] at found
    exact own ⟨key, row, found, other, known⟩
  cases statement with
  | upsertRecord rec embedding model =>
    obtain ⟨rfl, -⟩ := issued
    have found' : (index.vectorRecords.upsert rec.chunkId (.fresh rec embedding config.name)
        fun row => row.updated rec embedding config.name).lookup key = some row := found
    rw [Table.lookup_upsert] at found'
    split_ifs at found' with same
    · refine other ?_
      cases old : index.vectorRecords.lookup rec.chunkId with
      | none =>
        rw [old] at found'
        obtain rfl := Option.some.inj found'
        show config.name.getD "unknown" = name
        rw [named, Option.getD_some]
      | some held =>
        rw [old] at found'
        obtain rfl := Option.some.inj found'
        show config.name.getD "unknown" = name
        rw [named, Option.getD_some]
    · exact own ⟨key, row, found', other, known⟩
  | deleteOrphanChunks eventId count =>
    have found' : (index.vectorRecords.deleteWhere fun _ row =>
        decide (row.eventId = eventId) && row.chunkIndex.any fun i => decide (count ≤ i)).lookup
          key = some row := found
    rw [Table.lookup_deleteWhere] at found'
    exact own ⟨key, row, (Option.filter_eq_some_iff.mp found').1, other, known⟩
  | registerIndexing eventId => exact absurd trivial spares
  | ensureIncident incidentId title openedAt service => exact absurd trivial spares
  | ensureService incidentId service => exact absurd trivial spares
  | incidentEvent incidentId eventId => exact absurd trivial spares
  | completeIndexing eventId => exact absurd trivial spares

/-- A message that was indexed has built its first chunk. -/
theorem built_of_settled {value : String} {after : Pipeline.World} (handled : Settled around config value after)
    (keyed : after.index.WellKeyed) (encodes : ¬ around.Fails) {fields : Fields}
    (valid : around.validate value = .ok fields) (full : words fields.text ≠ []) :
    Built config.name after.index := by
  have same : ∀ {ev}, Parsed around value ev → ev.text = fields.text := by
    rintro ev ⟨fields', newId, now, valid', rfl⟩
    obtain rfl := Except.ok.inj (valid'.symm.trans valid)
    rfl
  cases handled with
  | malformed invalid =>
    rw [invalid] at valid
    cases valid
  | exhausted failed => exact absurd failed encodes
  | blank parsed blank ensured =>
    rw [same parsed] at blank
    exact absurd blank full
  | @indexed ev stamp vectors parsed length stored linked =>
    have some' : chunkText ev.text ≠ [] := by
      intro none'
      rw [← same parsed] at full
      exact full ((@chunkText_eq_nil ev.text none).mp none')
    obtain ⟨first, rest, eq⟩ := List.exists_cons_of_ne_nil some'
    have here : (chunkText ev.text)[0]? = some first := by rw [eq, List.getElem?_cons_zero]
    obtain ⟨v, member⟩ := pair_of_chunk length here
    obtain ⟨row, found, carries⟩ := stored.rows _ member
    exact ⟨keyed, ev.eventId, row, found, carries.model⟩

/-- **The guard tells the worker's model from every other**: in every state of every life it does not
raise for the model that builds the index unless it did at first; and where no encoding fails, it raises
for any other from the first message with a text that is committed on. -/
theorem index_model_guarded {first s : Consumption} (lives : Lives around config topic first s)
    (new : ∀ p, first.committed p = 0) {name : String} (named : config.name = some name) :
    ((∃ warning, checkIndexModel shown first.world.index (some name) = .ok warning) →
      ∃ warning, checkIndexModel shown s.world.index (some name) = .ok warning) ∧
    (¬ around.Fails → first.world.index.WellKeyed → name ≠ "unknown" →
      ∀ other p k value fields, other ≠ name → k < s.committed p →
        (topic p)[k]? = some value → around.validate value = .ok fields → words fields.text ≠ [] →
        ∃ exn, checkIndexModel shown s.world.index (some other) = .error exn) := by
  have silent : ∀ index, (∃ warning, checkIndexModel shown index (some name) = .ok warning) ↔
      ¬ Foreign index name := by
    intro index
    rw [← checkIndexModel_error_iff shown]
    cases checkIndexModel shown index (some name) with
    | ok warning => simp
    | error exn => simp
  constructor
  · rw [silent, silent]
    intro start
    have rule := @Lives.always around config topic (fun index => ¬ Foreign index name)
      (fun _ _ _ => True) s first
      (fun _ _ _ _ _ _ _ _ now _ own issued _ _ => not_foreign_exec named own issued now)
      (fun _ _ _ _ _ _ _ _ _ _ _ _ _ _ _ _ => trivial) (fun _ _ _ _ _ _ _ => trivial)
    exact (rule lives start new).kept
  · intro encodes keyed known other p k value fields differs below here valid full
    have rule := @Lives.always around config topic Index.WellKeyed
      (fun p k index => ∀ value fields, (topic p)[k]? = some value →
        around.validate value = .ok fields → words fields.text ≠ [] → Built config.name index) s first
      (fun _ _ _ _ _ _ _ _ now _ here issued _ _ => here.exec (keyed_of_issued issued) now)
      (fun _ _ _ _ _ _ _ _ _ _ now _ built issued encoded _ value fields at' valid full =>
        (built value fields at' valid full).exec issued encoded now) ?_
    · obtain ⟨-, eventId, row, found, model⟩ :=
        (rule lives keyed new).committed p k below value fields here valid full
      have shows : shownModel row = name := by
        unfold shownModel
        rw [model, named, Option.getD_some]
      refine (checkIndexModel_error_iff shown).mpr ⟨_, row, found, ?_, ?_⟩
      · rw [shows]
        exact differs.symm
      · rw [shows]
        exact known
    · intro p k value at' after keyed handled value' fields at'' valid full
      obtain rfl := Option.some.inj (at''.symm.trans at')
      exact built_of_settled handled keyed encodes valid full

/-- The one message of the run was indexed with `stub`. -/
theorem index_model_guarded_named :
    (∃ warning, checkIndexModel ⟨id, fun _ => ""⟩ namedConsumed.world.index (some "stub") =
      .ok warning) ∧
    ∃ exn, checkIndexModel ⟨id, fun _ => ""⟩ namedConsumed.world.index (some "bge") = .error exn := by
  have guarded := index_model_guarded ⟨id, fun _ => ""⟩ named_lives (fun _ => rfl)
    (show plainConfig.name = some "stub" from rfl)
  exact ⟨guarded.1 ⟨none, rfl⟩, guarded.2 named_encodes keyed_empty (by decide) "bge" 0 0 "event"
    namedFields (by decide) (by decide +kernel) rfl rfl (by decide)⟩

end Freshet.Rag
