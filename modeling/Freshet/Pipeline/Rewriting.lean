/-
**What handling one version of an event does to the chunks.**

`wp_writes` is the handler with one assertion for every point of it: what each statement of `store`
keeps holds wherever the handler is stopped. `Rewriting` is the assertion about the chunks: those of
other events stand as they did, and a chunk of the event carries the stamp that it had, or the
version's own where it is new. A version that was indexed has exactly its chunks (`Rewritten`).
-/

import Freshet.Pipeline.OneOutcome

namespace Freshet.Pipeline

open Freshet.Lib Freshet.Kafka
open Freshet.Autopilot (Time)

variable {around : Surroundings} {config : HandlerConfig} {value : String} {ev : Event}

/-- The pairs that `store` is given. -/
def pairsOf (ev : Event) (stamp : Time) (vectors : List Embedding) :
    List (VectorRecord × Embedding) :=
  (recordsForEvent ev stamp).zip vectors

/-- The encoder may fail. -/
def Surroundings.Fails (around : Surroundings) : Prop :=
  ∃ texts exn, around.encodes texts (.error exn)

/-- What the leavings of `handleEvent` say of the database. -/
def Leaves (around : Surroundings) (config : HandlerConfig) (ev : Event) (before : Index) :
    Leaving → World → Prop
  | .malformed, _ => False
  | .indexed, after => ∃ stamp vectors, vectors.length = (recordsForEvent ev stamp).length ∧
      Stored config ev (pairsOf ev stamp vectors) after
  | .blank, after => words ev.text = [] ∧ after.index.vectorRecords = before.vectorRecords
  | _, after => around.Fails ∧ after.index = before

/-- What the encoder answered for an event, as it is stored. -/
structure Encoded (around : Surroundings) (ev : Event) (stamp : Time) (vectors : List Embedding) :
    Prop where
  full : recordsForEvent ev stamp ≠ []
  answered : around.encodes ((recordsForEvent ev stamp).map VectorRecord.text) (.ok vectors)
  length : vectors.length = (recordsForEvent ev stamp).length
  dims : ∀ v ∈ vectors, v.length = embeddingDim

/-- **One assertion for every point of the handler**, and all that is known where a statement is
sent: without an answer of the encoder, it is one of `ensure_incident`. -/
theorem wp_writes_encoded {inv : World → Prop} {w : World} (start : inv w)
    (free : ∀ w p n, inv w → inv { w with producer := p, streak := n })
    (stable : ∀ stamp vectors, vectors.length = (recordsForEvent ev stamp).length →
      ∀ w now statement, inv w → w.clock ≤ now →
        Issued config ev (pairsOf ev stamp vectors) statement →
        Ensures ev statement ∨ Encoded around ev stamp vectors → Backed w.index statement →
        (statement = .completeIndexing ev.eventId →
          ∀ pair ∈ pairsOf ev stamp vectors, Wrote config pair w) →
        inv (w.exec now statement)) :
    (handleEvent config ev value).wp (handlerMachine around inv)
      (Prog.Ends inv fun leaving after => inv after ∧
        Leaves around config ev w.index leaving after ∧
        (leaving = .blank → Ensured ev after) ∧ (leaving = .indexed → Linked ev after)) w := by
  refine wp_handleEvent_encoded (fun p n => free w p n start) ?_ ?_ ?_
  · intro stamp none'
    have kept : ∀ w now statement, inv w → w.clock ≤ now → Ensures ev statement →
        Backed w.index statement → inv (w.exec now statement) := by
      intro w now statement here later ours backed
      refine stable stamp [] (by rw [none']; rfl) w now statement here later
        (issued_of_ensures ours) (Or.inl ours) backed ?_
      rintro rfl
      obtain ⟨incidentId, -, -, same | same⟩ := ours <;> cases same
    refine Prog.wp_mono ?_ (@wp_ensureIncident_backed _ _ _ _ (fun after => inv after ∧
      after.index.vectorRecords = w.index.vectorRecords) ⟨start, rfl⟩ ?_ fun _ both => both.1)
    · intro outcome after ends
      cases outcome with
      | error exn => exact ends
        | ok _ =>
        exact ⟨ends.1.1, ⟨recordsForEvent_eq_nil.mp none', ends.1.2⟩, fun _ => ends.2,
          Leaving.noConfusion⟩
    · intro w' now statement both later ours backed
      have spares : Index.Spares statement := by
        obtain ⟨incidentId, -, -, rfl | rfl⟩ := ours <;> trivial
      exact ⟨kept w' now statement both.1 later ours backed,
        (Index.vectorRecords_exec spares now w'.index).trans both.2⟩
  · intro stamp exn p now failed _
    refine ⟨free w p _ start, ?_⟩
    have leaves : around.Fails ∧ w.index = w.index := ⟨⟨_, exn, failed⟩, rfl⟩
    unfold leave
    split_ifs <;> exact ⟨leaves, False.elim, False.elim⟩
  · intro stamp vectors full answered same dims
    refine Prog.wp_mono ?_ (@wp_store_backed _ _ w config ev (pairsOf ev stamp vectors) inv
      (fun w now statement here later issued => stable stamp vectors same w now statement here later
        issued (Or.inr ⟨full, answered, same, dims⟩)) (fun _ here => here) (distinct_records same) start)
    intro outcome after ends
    cases outcome with
    | error exn => exact ends
    | ok _ =>
      obtain ⟨here, stored, linked⟩ := ends
      refine ⟨free after after.producer 0 here, here, free after after.producer 0 here,
        ⟨stamp, vectors, same, ?_⟩, Leaving.noConfusion, fun _ => linked⟩
      exact ⟨stored.rows, stored.orphans, stored.incident, stored.receipt⟩

/-- **One assertion for every point of the handler.** -/
theorem wp_writes {inv : World → Prop} {w : World} (start : inv w)
    (free : ∀ w p n, inv w → inv { w with producer := p, streak := n })
    (stable : ∀ stamp vectors, vectors.length = (recordsForEvent ev stamp).length →
      ∀ w now statement, inv w → w.clock ≤ now →
        Issued config ev (pairsOf ev stamp vectors) statement →
        (statement = .completeIndexing ev.eventId →
          ∀ pair ∈ pairsOf ev stamp vectors, Wrote config pair w) →
        inv (w.exec now statement)) :
    (handleEvent config ev value).wp (handlerMachine around inv)
      (Prog.Ends inv fun leaving after => inv after ∧ Leaves around config ev w.index leaving after) w := by
  refine Prog.wp_mono ?_ (wp_writes_encoded start free
    fun stamp vectors same w now statement here later issued _ _ =>
      stable stamp vectors same w now statement here later issued)
  intro outcome after ends
  cases outcome with
  | error exn => exact ends
  | ok leaving => exact ⟨ends.1, ends.2.1⟩

/-! ### The chunks -/

/-- The stamp of a chunk when a version of its event is being written. -/
def stampAt (before : Index) (ev : Event) (i : Nat) : Time :=
  ((before.chunk ev.eventId i).map Chunk.ts).getD ev.ts

/-- **While a version is being written.** -/
structure Rewriting (before : Index) (ev : Event) (w : World) : Prop where
  keyed : w.index.WellKeyed
  others : ∀ eventId, eventId ≠ ev.eventId → ∀ i, w.index.chunk eventId i = before.chunk eventId i
  stamps : ∀ i row, w.index.chunk ev.eventId i = some row → row.ts = stampAt before ev i
  still : ∀ i, i < (chunkText ev.text).length → (before.chunk ev.eventId i).isSome →
    (w.index.chunk ev.eventId i).isSome
  orphans : ∀ i, (chunkText ev.text).length ≤ i → (w.index.chunk ev.eventId i).isSome →
    (before.chunk ev.eventId i).isSome

theorem length_records (ev : Event) (stamp : Time) :
    (recordsForEvent ev stamp).length = (chunkText ev.text).length := by
  unfold recordsForEvent
  rw [List.length_map, List.length_zipIdx]

theorem length_pairs {stamp : Time} {vectors : List Embedding}
    (same : vectors.length = (recordsForEvent ev stamp).length) :
    (pairsOf ev stamp vectors).length = (chunkText ev.text).length := by
  unfold pairsOf
  rw [List.length_zip, same, Nat.min_self, length_records]

/-- A pair is made of a chunk of the event. -/
theorem record_of_pair {stamp : Time} {vectors : List Embedding}
    {pair : VectorRecord × Embedding} (member : pair ∈ pairsOf ev stamp vectors) :
    ∃ chunk, (chunk, pair.1.chunkIndex) ∈ (chunkText ev.text).zipIdx ∧
      pair.1 = ev.record stamp pair.1.chunkIndex chunk :=
  record_of_mem (List.of_mem_zip member).1

/-- Every chunk of the event is in one of the pairs. -/
theorem pair_of_chunk {stamp : Time} {vectors : List Embedding}
    (same : vectors.length = (recordsForEvent ev stamp).length) {i : Nat} {chunk : List Char}
    (here : (chunkText ev.text)[i]? = some chunk) :
    ∃ v, (ev.record stamp i chunk, v) ∈ pairsOf ev stamp vectors := by
  have record : (recordsForEvent ev stamp)[i]? = some (ev.record stamp i chunk) := by
    unfold recordsForEvent
    rw [List.getElem?_map, List.getElem?_zipIdx, here]
    simp
  have bound : i < vectors.length := by
    rw [same]
    exact (List.getElem?_eq_some_iff.mp record).1
  refine ⟨vectors[i], List.mem_of_getElem? (i := i) ?_⟩
  unfold pairsOf
  rw [List.getElem?_zip_eq_some]
  exact ⟨record, List.getElem?_eq_getElem bound⟩

/-- **Every statement of `store` keeps it.** -/
theorem Rewriting.exec {before : Index} {w : World} (rewriting : Rewriting before ev w)
    {stamp : Time} {vectors : List Embedding}
    (same : vectors.length = (recordsForEvent ev stamp).length) {statement : Statement}
    (issued : Issued config ev (pairsOf ev stamp vectors) statement) (now : Time) :
    Rewriting before ev (w.exec now statement) := by
  by_cases spares : Index.Spares statement
  · have chunks := Index.chunk_spared spares now w.index
    have fits : Index.KeyedStatement statement := by
      cases statement <;> first | exact spares.elim | trivial
    refine ⟨rewriting.keyed.exec fits now, fun eventId other i => ?_, fun i row found => ?_,
      fun i within present => ?_, fun i beyond present => ?_⟩
    · exact (chunks eventId i).trans (rewriting.others eventId other i)
    · exact rewriting.stamps i row ((chunks _ i).symm.trans found)
    · show ((w.index.exec now statement).chunk _ i).isSome
      rw [chunks]
      exact rewriting.still i within present
    · have present' : ((w.index.exec now statement).chunk ev.eventId i).isSome := present
      rw [chunks] at present'
      exact rewriting.orphans i beyond present'
  cases statement with
  | upsertRecord rec embedding model =>
    obtain ⟨-, pair, member, -, indexedAt, made⟩ := issued
    obtain ⟨chunk, -, eq⟩ := record_of_pair member
    have event : rec.eventId = ev.eventId := by
      rw [made, eq]
      rfl
    have stamped : rec.ts = ev.ts := by
      rw [made, eq]
      rfl
    have fits : Index.Keyed rec := by
      rw [made, eq]
      rfl
    have below : rec.chunkIndex < (chunkText ev.text).length := by
      have below := (distinct_records same).below pair member
      rw [show (recordsForEvent ev stamp).zip vectors = pairsOf ev stamp vectors from rfl,
        length_pairs same] at below
      rw [made]
      exact below
    have chunks := Index.chunk_upsert fits embedding model now w.index
    have keyed := @Index.WellKeyed.exec _ rewriting.keyed (.upsertRecord rec embedding model)
      fits now
    refine ⟨keyed, fun eventId other i => ?_, fun i row found => ?_, fun i within present => ?_,
      fun i beyond present => ?_⟩
    · show (w.index.exec now _).chunk _ i = _
      rw [chunks, if_neg fun both => other (both.1.trans event)]
      exact rewriting.others eventId other i
    · have found' : (w.index.exec now (.upsertRecord rec embedding model)).chunk ev.eventId i =
        some row := found
      rw [chunks] at found'
      split_ifs at found' with here
      · cases old : w.index.chunk ev.eventId i with
        | some held =>
          rw [old] at found'
          obtain rfl := Option.some.inj found'
          exact rewriting.stamps i held old
        | none =>
          rw [old] at found'
          obtain rfl := Option.some.inj found'
          have new : before.chunk ev.eventId i = none := by
            cases had : before.chunk ev.eventId i with
            | none => rfl
            | some held =>
              have still := rewriting.still i (by rw [here.2]; exact below) (by rw [had]; rfl)
              rw [old] at still
              exact absurd still (by simp)
          unfold stampAt
          rw [new]
          exact stamped
      · exact rewriting.stamps i row found'
    · show ((w.index.exec now _).chunk _ i).isSome
      rw [chunks]
      split_ifs
      · rfl
      · exact rewriting.still i within present
    · have present' : ((w.index.exec now (.upsertRecord rec embedding model)).chunk ev.eventId
        i).isSome := present
      rw [chunks, if_neg fun both => by omega] at present'
      exact rewriting.orphans i beyond present'
  | deleteOrphanChunks eventId count =>
    obtain ⟨rfl, rfl⟩ := issued
    have chunks := Index.chunk_delete rewriting.keyed ev.eventId
      (pairsOf ev stamp vectors).length now
    have keyed := @Index.WellKeyed.exec _ rewriting.keyed (.deleteOrphanChunks ev.eventId
      (pairsOf ev stamp vectors).length) trivial now
    refine ⟨keyed, fun eventId other i => ?_, fun i row found => ?_, fun i within present => ?_,
      fun i beyond present => ?_⟩
    · show (w.index.exec now _).chunk _ i = _
      rw [chunks, if_neg fun both => other both.1]
      exact rewriting.others eventId other i
    · have found' : (w.index.exec now (.deleteOrphanChunks ev.eventId
        (pairsOf ev stamp vectors).length)).chunk ev.eventId i = some row := found
      rw [chunks] at found'
      split_ifs at found'
      exact rewriting.stamps i row found'
    · show ((w.index.exec now _).chunk _ i).isSome
      rw [chunks, if_neg]
      · exact rewriting.still i within present
      · rintro ⟨-, beyond⟩
        rw [length_pairs same] at beyond
        omega
    · have present' : ((w.index.exec now (.deleteOrphanChunks ev.eventId
        (pairsOf ev stamp vectors).length)).chunk ev.eventId i).isSome := present
      rw [chunks] at present'
      split_ifs at present'
      · exact absurd present' Bool.false_ne_true
      · exact rewriting.orphans i beyond present'
  | registerIndexing eventId => exact absurd trivial spares
  | ensureIncident incidentId title openedAt service => exact absurd trivial spares
  | ensureService incidentId service => exact absurd trivial spares
  | incidentEvent incidentId eventId => exact absurd trivial spares
  | completeIndexing eventId => exact absurd trivial spares

/-- **A version that has been written**: its chunks are there, and no others of its event. -/
structure Rewritten (before : Index) (ev : Event) (index : Index) : Prop where
  beyond : ∀ i, (chunkText ev.text).length ≤ i → index.chunk ev.eventId i = none
  within : ∀ i chunk, (chunkText ev.text)[i]? = some chunk → ∃ row,
    index.chunk ev.eventId i = some row ∧ row.chunkIndex = some i ∧ row.text = chunk ∧
      row.title = ev.recordTitle ∧ row.severity = ev.severity ∧ row.type = ev.type ∧
      row.ts = stampAt before ev i

theorem Rewriting.start (ev : Event) {w : World} (keyed : w.index.WellKeyed) :
    Rewriting w.index ev w := by
  refine ⟨keyed, fun _ _ _ => rfl, fun i row found => ?_, fun _ _ present => present,
    fun _ _ present => present⟩
  unfold stampAt
  rw [found]
  rfl

/-- **The handling of one version.** -/
theorem handleEvent_rewrites {w : World} (keyed : w.index.WellKeyed) :
    (handleEvent config ev value).wp (handlerMachine around (Rewriting w.index ev))
      (Prog.Ends (Rewriting w.index ev) fun leaving after => Rewriting w.index ev after ∧
        (leaving = .indexed → Rewritten w.index ev after.index) ∧
        (leaving ≠ .indexed → words ev.text = [] ∨ around.Fails) ∧
        (leaving ≠ .indexed → after.index.vectorRecords = w.index.vectorRecords)) w := by
  refine Prog.wp_mono ?_ (wp_writes (Rewriting.start ev keyed) (fun w p n here => ⟨here.keyed, here.others, here.stamps,
    here.still, here.orphans⟩) fun stamp vectors same w now statement here _ issued _ =>
      here.exec same issued now)
  intro outcome after ends
  cases outcome with
  | error exn => exact ends
  | ok leaving =>
    obtain ⟨rewriting, leaves⟩ := ends
    refine ⟨rewriting, ?_, ?_, ?_⟩
    · rintro rfl
      obtain ⟨stamp, vectors, same, stored⟩ := leaves
      constructor
      · intro i beyond
        cases found : after.index.chunk ev.eventId i with
        | none => rfl
        | some row =>
          obtain ⟨event, numbered⟩ := rewriting.keyed.columns found
          have below := stored.orphans _ row found event i numbered
          rw [length_pairs same] at below
          omega
      · intro i chunk here
        obtain ⟨v, member⟩ := pair_of_chunk same here
        obtain ⟨row, found, carries⟩ := stored.rows _ member
        exact ⟨row, found, carries.chunkIndex, carries.text, carries.title, carries.severity,
          carries.type, rewriting.stamps i row found⟩
    · intro unindexed
      cases leaving with
      | indexed => exact absurd rfl unindexed
      | blank => exact Or.inl leaves.1
      | malformed => exact leaves.elim
      | exhausted => exact Or.inr leaves.1
      | unhealthy message => exact Or.inr leaves.1
    · intro unindexed
      cases leaving with
      | indexed => exact absurd rfl unindexed
      | blank => exact leaves.2
      | malformed => exact leaves.elim
      | exhausted => exact congrArg Index.vectorRecords leaves.2
      | unhealthy message => exact congrArg Index.vectorRecords leaves.2

end Freshet.Pipeline
