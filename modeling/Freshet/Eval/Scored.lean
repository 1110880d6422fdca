/-
**What the benchmark scores.**

The default window takes the rows posted, and first queryable, since the current run of the embedder
began. The worker's lives only ever add receipts that the benchmark may rely on (`Vouched`): a receipt
whose first indexing was not observed has no first stamp, and an event that was there before receipts
were kept never gets an observed one. So a legacy event is never scored, however often it is indexed
again, and a score's completion time stays what it is in every later life (`scored_honestly`).
-/

import Freshet.Common.Heartbeat
import Freshet.Eval.Benchmark
import Freshet.Pipeline.EveryLife
import Freshet.Pipeline.Receipts

namespace Freshet.Eval

open Freshet.Lib Freshet.Kafka Freshet.Pipeline Freshet.Common
open Freshet.Autopilot (Time)

/-! ### The query -/

/-- `EXTRACT(EPOCH FROM …)::float8`. -/
def epoch (t : Time) : ℚ := (t : ℚ) / 1000000

/-- `FROM vector_records v JOIN event_indexing i USING (event_id) WHERE v.ts >= start AND
i.first_queryable_at >= start`. -/
def scoredRows (start : Time) (index : Index) : List UpdateRow :=
  index.vectorRecords.entries.filterMap fun entry =>
    match index.firstQueryable entry.2.eventId with
    | none => none
    | some queryable =>
      if start ≤ entry.2.ts ∧ start ≤ queryable then
        some ⟨epoch entry.2.ts, epoch queryable, entry.2.eventId⟩
      else none

/-- **The rows of the default window**, in the order of the table. -/
def windowRows (log : Table (String × Int) Unit) (now : Int) (index : Index) : List UpdateRow :=
  match continuousRunStart log "embedder" now with
  | none => []
  | some start => scoredRows start index

/-- What a scored row is made of. -/
theorem mem_scoredRows {start : Time} {index : Index} {row : UpdateRow} :
    row ∈ scoredRows start index ↔ ∃ key chunk queryable,
      index.vectorRecords.lookup key = some chunk ∧
      index.firstQueryable chunk.eventId = some queryable ∧ start ≤ chunk.ts ∧ start ≤ queryable ∧
      row = ⟨epoch chunk.ts, epoch queryable, chunk.eventId⟩ := by
  unfold scoredRows
  rw [List.mem_filterMap]
  constructor
  · rintro ⟨⟨key, chunk⟩, member, made⟩
    split at made
    · cases made
    · rename_i queryable stamped
      split_ifs at made with inside
      exact ⟨key, chunk, queryable, Table.mem_entries_iff.mp member, stamped, inside.1, inside.2,
        (Option.some.inj made).symm⟩
  · rintro ⟨key, chunk, queryable, found, stamped, posted, indexed, rfl⟩
    refine ⟨⟨key, chunk⟩, Table.mem_entries_iff.mpr found, ?_⟩
    dsimp only
    rw [stamped]
    exact if_pos ⟨posted, indexed⟩

/-! ### What the worker keeps -/

/-- A receipt has a first stamp only where the first indexing was observed. -/
def Sealed (index : Index) : Prop :=
  ∀ eventId receipt, index.eventIndexing.lookup eventId = some receipt →
    receipt.firstQueryableAt.isSome → receipt.firstIndexObserved = true

/-- The event was indexed before receipts were kept. -/
def Legacy (index : Index) (eventId : String) : Prop :=
  index.eventIndexing.lookup eventId = none ∧ (index.chunk eventId 0).isSome

/-- **The receipts can be relied on.** -/
structure Vouched (before index : Index) : Prop where
  keyed : index.WellKeyed
  sealed : Sealed index
  legacy : ∀ eventId, Legacy before eventId → (index.chunk eventId 0).isSome ∧
    ∀ receipt, index.eventIndexing.lookup eventId = some receipt → receipt.firstIndexObserved = false

section Statements

variable {index : Index} {statement : Statement}

/-- The receipts after a statement: new ones are blank, and the others are as they were or complete. -/
theorem receipt_exec {now : Time} {eventId : String} {receipt : Receipt}
    (found : (index.exec now statement).eventIndexing.lookup eventId = some receipt) :
    (∃ old, index.eventIndexing.lookup eventId = some old ∧
      (receipt = old ∨ receipt = Index.complete now old)) ∨
    (index.eventIndexing.lookup eventId = none ∧ receipt = ⟨!index.hasChunks eventId, none, none⟩) := by
  cases statement with
  | registerIndexing other =>
    have found' : (index.eventIndexing.upsert other ⟨!index.hasChunks other, none, none⟩ id).lookup
        eventId = some receipt := found
    rw [Table.lookup_upsert] at found'
    split_ifs at found' with same
    · subst same
      cases old : index.eventIndexing.lookup eventId with
      | none =>
        rw [old] at found'
        exact Or.inr ⟨rfl, (Option.some.inj found').symm⟩
      | some held =>
        rw [old] at found'
        exact Or.inl ⟨held, rfl, Or.inl (Option.some.inj found').symm⟩
    · exact Or.inl ⟨receipt, found', Or.inl rfl⟩
  | completeIndexing other =>
    have found' : (index.eventIndexing.modify other (Index.complete now)).lookup eventId =
        some receipt := found
    rw [Table.lookup_modify] at found'
    split_ifs at found' with same
    · subst same
      obtain ⟨held, old, rfl⟩ := Option.map_eq_some_iff.mp found'
      exact Or.inl ⟨held, old, Or.inr rfl⟩
    · exact Or.inl ⟨receipt, found', Or.inl rfl⟩
  | upsertRecord rec embedding model => exact Or.inl ⟨receipt, found, Or.inl rfl⟩
  | deleteOrphanChunks other count => exact Or.inl ⟨receipt, found, Or.inl rfl⟩
  | ensureIncident incidentId title openedAt service => exact Or.inl ⟨receipt, found, Or.inl rfl⟩
  | ensureService incidentId service => exact Or.inl ⟨receipt, found, Or.inl rfl⟩
  | incidentEvent incidentId other => exact Or.inl ⟨receipt, found, Or.inl rfl⟩

theorem Sealed.exec (sealed : Sealed index) (now : Time) (statement : Statement) :
    Sealed (index.exec now statement) := by
  intro eventId receipt found stamped
  rcases receipt_exec found with ⟨old, held, rfl | rfl⟩ | ⟨-, rfl⟩
  · exact sealed eventId _ held stamped
  · cases observed : old.firstIndexObserved with
    | true => exact observed
    | false =>
      unfold Index.complete at stamped
      rw [observed] at stamped
      cases stamped
  · cases stamped

/-- **A first stamp stays.** -/
theorem firstQueryable_exec (sealed : Sealed index) {eventId : String} {time : Time}
    (stamped : index.firstQueryable eventId = some time) (now : Time) (statement : Statement) :
    (index.exec now statement).firstQueryable eventId = some time := by
  obtain ⟨held, old, first⟩ := Option.bind_eq_some_iff.mp stamped
  have present := registered_exec (show (index.eventIndexing.lookup eventId).isSome by rw [old]; rfl) now
    statement
  obtain ⟨receipt, found⟩ := Option.isSome_iff_exists.mp present
  unfold Index.firstQueryable
  rw [found]
  rcases receipt_exec found with ⟨held', old', rfl | rfl⟩ | ⟨absent, -⟩
  · obtain rfl := Option.some.inj (old.symm.trans old')
    exact first
  · obtain rfl := Option.some.inj (old.symm.trans old')
    show (Index.complete now held).firstQueryableAt = some time
    unfold Index.complete
    dsimp only
    rw [if_pos (sealed eventId held old (by rw [first]; rfl)), first]
    rfl
  · rw [old] at absent
    cases absent

end Statements

/-! ### The lives -/

section Lives

variable {around : Surroundings} {config : HandlerConfig} {topic : Int → List String}
  {before index : Index} {first s : Consumption}

/-- An event with chunks has rows. -/
theorem hasChunks_of_chunk {eventId : String} (keyed : index.WellKeyed)
    (some' : (index.chunk eventId 0).isSome) : index.hasChunks eventId = true := by
  obtain ⟨row, found⟩ := Option.isSome_iff_exists.mp some'
  obtain ⟨same, -⟩ := keyed.columns found
  unfold Index.hasChunks
  exact List.any_eq_true.mpr ⟨⟨_, row⟩, Table.mem_entries_iff.mpr found, decide_eq_true same⟩

/-- An indexed event has a first chunk, which no statement of a version takes away. -/
theorem chunk_zero_exec (keyed : index.WellKeyed) {eventId : String}
    (some' : (index.chunk eventId 0).isSome) {ev : Event} {stamp : Time} {vectors : List Embedding}
    {statement : Statement} (issued : Issued config ev (pairsOf ev stamp vectors) statement)
    (encoded : Ensures ev statement ∨ Encoded around ev stamp vectors) (now : Time) :
    ((index.exec now statement).chunk eventId 0).isSome := by
  by_cases spares : Index.Spares statement
  · rw [Index.chunk_spared spares]
    exact some'
  have answered : Encoded around ev stamp vectors := by
    refine encoded.resolve_left ?_
    rintro ⟨incidentId, -, -, rfl | rfl⟩ <;> exact spares trivial
  cases statement with
  | upsertRecord rec embedding model =>
    obtain ⟨-, pair, member, -, indexedAt, rfl⟩ := issued
    obtain ⟨i, chunk, vector, rfl, -⟩ := encoded_of_pair answered member
    rw [Index.chunk_upsert (show Index.Keyed { ev.record stamp i chunk with indexedAt } from rfl)]
    split_ifs
    · rfl
    · exact some'
  | deleteOrphanChunks other count =>
    obtain ⟨-, rfl⟩ := issued
    have full : 0 < (pairsOf ev stamp vectors).length := by
      unfold pairsOf
      rw [List.length_zip, answered.length, Nat.min_self]
      exact List.length_pos_iff.mpr answered.full
    rw [Index.chunk_delete keyed, if_neg fun orphan => Nat.not_le.mpr full orphan.2]
    exact some'
  | registerIndexing other => exact absurd trivial spares
  | ensureIncident incidentId title openedAt service => exact absurd trivial spares
  | ensureService incidentId service => exact absurd trivial spares
  | incidentEvent incidentId other => exact absurd trivial spares
  | completeIndexing other => exact absurd trivial spares

/-- **Every statement of a version keeps the receipts reliable.** -/
theorem Vouched.exec (vouched : Vouched before index) {ev : Event} {stamp : Time}
    {vectors : List Embedding} {statement : Statement}
    (issued : Issued config ev (pairsOf ev stamp vectors) statement)
    (encoded : Ensures ev statement ∨ Encoded around ev stamp vectors) (now : Time)
    (keyed : (index.exec now statement).WellKeyed) :
    Vouched before (index.exec now statement) := by
  refine ⟨keyed, vouched.sealed.exec now statement, fun eventId legacy => ?_⟩
  obtain ⟨chunk, unobserved⟩ := vouched.legacy eventId legacy
  refine ⟨chunk_zero_exec vouched.keyed chunk issued encoded now, fun receipt found => ?_⟩
  rcases receipt_exec found with ⟨old, held, rfl | rfl⟩ | ⟨-, rfl⟩
  · exact unobserved _ held
  · exact unobserved old held
  · show (!index.hasChunks eventId) = false
    rw [hasChunks_of_chunk vouched.keyed chunk]
    rfl

/-- The lives keep the receipts reliable. -/
theorem lives_vouched (lives : Lives around config topic first s)
    (keyed : first.world.index.WellKeyed) (sealed : Sealed first.world.index)
    (new : ∀ p, first.committed p = 0) :
    FromTopic around config topic first.world.index s.world.index ∧
      Vouched first.world.index s.world.index := by
  refine (@Lives.always around config topic (fun index =>
    FromTopic around config topic first.world.index index ∧ Vouched first.world.index index)
    (fun _ _ _ => True) s first ?_ (fun _ _ _ _ _ _ _ _ _ _ _ _ _ _ _ _ => trivial)
    (fun _ _ _ _ _ _ _ => trivial) lives ⟨⟨keyed, fun key row found => Or.inl found⟩, keyed, sealed,
      fun eventId legacy => ⟨legacy.2, fun receipt found => ?_⟩⟩ new).kept
  · intro p value inside ev parsed stamp vectors index now statement here issued encoded _
    obtain ⟨k, at'⟩ := List.mem_iff_getElem?.mp inside
    have made := here.1.exec (p := p) (k := k) ⟨value, at', parsed⟩ issued encoded now
    exact ⟨made, here.2.exec issued encoded now made.keyed⟩
  · rw [legacy.1] at found
    cases found

/-- The first stamp of an event stays in every later life. -/
theorem firstQueryable_kept {later : Consumption} (lives : Lives around config topic s later)
    (sealed : Sealed s.world.index) {eventId : String} {time : Time}
    (stamped : s.world.index.firstQueryable eventId = some time) :
    later.world.index.firstQueryable eventId = some time := by
  refine (@Lives.always_from around config topic (fun index =>
    Sealed index ∧ index.firstQueryable eventId = some time)
    (fun _ _ _ => True) later s ?_ (fun _ _ _ _ _ _ _ _ _ _ _ _ _ _ _ _ => trivial)
    (fun _ _ _ _ _ _ _ => trivial) lives ⟨sealed, stamped⟩ fun _ _ _ => trivial).kept.2
  intro p value inside ev parsed stamp vectors index now statement here _ _ _
  exact ⟨here.1.exec now statement, firstQueryable_exec here.1 here.2 now statement⟩

/-- **What is scored**: an event that was not there before receipts were kept, with the posting time of
one of its versions in the current run, and with a completion time that no replay changes. -/
theorem scored_honestly (lives : Lives around config topic first s)
    (keyed : first.world.index.WellKeyed) (sealed : Sealed first.world.index)
    (new : ∀ p, first.committed p = 0) {log : Table (String × Int) Unit} {now : Int} {row : UpdateRow}
    (scored : row ∈ windowRows log now s.world.index) :
    ∃ start ts time, continuousRunStart log "embedder" now = some start ∧ start ≤ ts ∧ start ≤ time ∧
      row = ⟨epoch ts, epoch time, row.eventId⟩ ∧ ¬ Legacy first.world.index row.eventId ∧
      ((∃ p k ev, Version around topic p k ev ∧ ev.eventId = row.eventId ∧ ev.ts = ts) ∨
        ∃ key old, first.world.index.vectorRecords.lookup key = some old ∧
          old.eventId = row.eventId ∧ old.ts = ts) ∧
      ∀ later, Lives around config topic s later →
        later.world.index.firstQueryable row.eventId = some time := by
  obtain ⟨fromTopic, vouched⟩ := lives_vouched lives keyed sealed new
  unfold windowRows at scored
  cases began : continuousRunStart log "embedder" now with
  | none =>
    rw [began] at scored
    cases scored
  | some start =>
    rw [began] at scored
    obtain ⟨key, chunk, time, found, stamped, posted, indexed, rfl⟩ := mem_scoredRows.mp scored
    refine ⟨start, chunk.ts, time, rfl, posted, indexed, rfl, fun legacy => ?_, ?_,
      fun later lives => firstQueryable_kept lives vouched.sealed stamped⟩
    · -- a legacy event's receipt was not observed, so it has no first stamp
      obtain ⟨receipt, held, first'⟩ := Option.bind_eq_some_iff.mp stamped
      have unobserved := (vouched.legacy _ legacy).2 receipt held
      have observed := vouched.sealed _ receipt held (by rw [first']; rfl)
      rw [unobserved] at observed
      cases observed
    · rcases fromTopic.rows key chunk found with old | ⟨-, origin⟩
      · exact Or.inr ⟨key, chunk, old, rfl, rfl⟩
      · rcases origin with ⟨p, k, ev, version, same, columns⟩ | ⟨old, before, same, columns⟩
        · exact Or.inl ⟨p, k, ev, version, same, columns.ts.symm⟩
        · exact Or.inr ⟨key, old, before, same, columns.ts.symm⟩

end Lives

/-- A message that was indexed in the current run. -/
theorem scored_honestly_named :
    ¬ Legacy newConsumption.world.index "openai:INC-1:a" ∧
      ∃ time, namedConsumed.world.index.firstQueryable "openai:INC-1:a" = some time := by
  have row : (⟨0, 0, "openai:INC-1:a"⟩ : UpdateRow) ∈
      windowRows (written [("embedder", -100)]).pipelineHeartbeatLog 50 namedConsumed.world.index := by
    decide +kernel
  obtain ⟨start, ts, time, -, -, -, -, legacy, -, kept⟩ := scored_honestly named_lives keyed_empty
    (fun eventId receipt found => by cases found) (fun _ => rfl) row
  exact ⟨legacy, time, kept namedConsumed .first⟩

end Freshet.Eval
