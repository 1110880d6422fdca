/-
**What holds of the index in every state of every life of the embedding worker.**

`Lives.always` is the rule. An assertion about the index that is kept by every statement that a
message of the topic makes the handler send (`Kept`) holds wherever the worker is killed, whatever
fails and however often it is started again; and what a message has established when the handler
returns, if no statement undoes it, holds as soon as the message's offset is committed.

* **`never_dangling`** — no row of `incident_services` or `incident_events` ever names an incident
  that is not there.
* **`rows_from_topic`** — a row of `vector_records` is as it was at first, or it is a chunk of one
  version of its event, with the vector that the encoder gave for that chunk.
* **`committed_registered`** — once a message is committed, its incident is there with its service and
  its event, and its receipt is complete.
-/

import Freshet.Kafka.Progress
import Freshet.Pipeline.LastWrite

namespace Freshet.Pipeline

open Freshet.Lib Freshet.Kafka
open Freshet.Autopilot (Time)

variable {around : Surroundings} {config : HandlerConfig} {topic : Int → List String}
  {value : String} {kept : Index → Prop}

/-! ### One message -/

/-- **Every statement that the message makes the handler send keeps it.** -/
def Kept (around : Surroundings) (config : HandlerConfig) (value : String)
    (kept : Index → Prop) : Prop :=
  ∀ ev, Parsed around value ev → ∀ stamp vectors index now statement, kept index →
    Issued config ev (pairsOf ev stamp vectors) statement →
    Ensures ev statement ∨ Encoded around ev stamp vectors → Backed index statement →
    kept (index.exec now statement)

/-- What a message stands for when the handler returns. -/
inductive Settled (around : Surroundings) (config : HandlerConfig) (value : String) (after : World) :
    Prop
  | malformed {error : String} (invalid : around.validate value = .error error)
  | exhausted (failed : around.Fails)
  | blank {ev : Event} (parsed : Parsed around value ev) (blank : words ev.text = [])
      (ensured : Ensured ev after)
  | indexed {ev : Event} {stamp : Time} {vectors : List Embedding}
      (parsed : Parsed around value ev) (same : vectors.length = (recordsForEvent ev stamp).length)
      (stored : Stored config ev (pairsOf ev stamp vectors) after) (linked : Linked ev after)

/-- **The handler of one message.** -/
theorem wp_handler_kept (stable : Kept around config value kept) {w : World} (here : kept w.index) :
    (handler config value).wp (handlerMachine around fun w => kept w.index)
      (Prog.Ends (fun w => kept w.index) fun _ after => kept after.index ∧
        Settled around config value after) w := by
  refine Prog.wp_seq (fun leaving after => kept after.index ∧ (Settled around config value after ∨
    ∃ message, leaving = .unhealthy message)) ?_ ?_
  · refine wp_handle (fun p => here) ?_ ?_
    · intro error p now invalid _
      exact ⟨here, Or.inl (.malformed invalid)⟩
    · intro ev parsed
      refine Prog.wp_mono ?_ (@wp_writes_encoded around config value ev (fun w => kept w.index) w here
        (fun _ _ _ holds => holds)
        fun stamp vectors _ w now statement holds _ issued encoded backed _ =>
          stable ev parsed stamp vectors w.index now statement holds issued encoded backed)
      intro outcome after ends
      cases outcome with
      | error exn => exact ends
      | ok leaving =>
        obtain ⟨holds, leaves, ensured, linked⟩ := ends
        refine ⟨holds, ?_⟩
        cases leaving with
        | malformed => exact leaves.elim
        | blank => exact Or.inl (.blank parsed leaves.1 (ensured rfl))
        | exhausted => exact Or.inl (.exhausted leaves.1)
        | unhealthy message => exact Or.inr ⟨message, rfl⟩
        | indexed =>
          obtain ⟨stamp, vectors, same, stored⟩ := leaves
          exact Or.inl (.indexed parsed same stored (linked rfl))
  · rintro leaving after ⟨holds, handled | ⟨message, rfl⟩⟩
    · cases leaving with
      | unhealthy message => exact holds
      | malformed => exact ⟨holds, handled⟩
      | blank => exact ⟨holds, handled⟩
      | exhausted => exact ⟨holds, handled⟩
      | indexed => exact ⟨holds, handled⟩
    · exact holds

/-! ### Any number of lives -/

section Lives

variable {done : Int → Nat → Index → Prop} {s next first : Consumption} {log : List Entry}

/-- **What the history says of the offsets and the index.** -/
structure Tracks (topic : Int → List String) (kept : Index → Prop) (done : Int → Nat → Index → Prop)
    (log : List Entry) (s : Consumption) : Prop where
  kept : kept s.world.index
  progress : Progress topic (fun p k => done p k s.world.index) log s.position s.committed

/-- **What holds everywhere.** -/
structure Holds (kept : Index → Prop) (done : Int → Nat → Index → Prop) (s : Consumption) : Prop where
  kept : kept s.world.index
  committed : ∀ p k, k < s.committed p → done p k s.world.index

theorem Tracks.holds (tracks : Tracks topic kept done log s) : Holds kept done s :=
  ⟨tracks.kept, tracks.progress.safe⟩

theorem Tracks.cons (tracks : Tracks topic kept done log s) {entry : Entry}
    (other : ∀ m, entry ≠ .polled m ∧ entry ≠ .handled m) :
    Tracks topic kept done (entry :: log) s :=
  ⟨tracks.kept, tracks.progress.cons other⟩

theorem tracks_consumer (op : ConsumerOp) (tracks : Tracks topic kept done log s)
    (safe : InTurn (.inl op) log) :
    (@Prog.perform embedderSig Exn (.inl op)).wp
      (embedderMachine around config topic (Holds kept done))
      (fun answer after => ∃ log', loopStep (.inl op) log answer log' ∧
        Tracks topic kept done log' after) s := by
  refine (@Prog.wp_perform embedderSig Exn _ _ (.inl op) _ s).mpr ⟨tracks.holds, ?_⟩
  intro answer after step
  cases op with
  | poll =>
    cases answer with
    | error exn => exact ⟨log, rfl, step ▸ tracks⟩
    | ok polled =>
      cases polled with
      | nothing => exact ⟨log, rfl, step ▸ tracks⟩
      | error text => exact ⟨log, rfl, step ▸ tracks⟩
      | message m =>
        obtain ⟨value, here, made, moved⟩ := step
        have offset : m.offset = (s.position m.partition : Int) := congrArg Message.offset made
        have decoded : m.value = some value := congrArg Message.value made
        refine ⟨_, ⟨rfl, fun earlier polled same => ?_⟩, ?_⟩
        · obtain ⟨k, place, below, -⟩ := tracks.progress.polled earlier polled
          have partition : earlier.partition = m.partition := congrArg Prod.snd same
          rw [partition] at below
          omega
        · subst moved
          exact ⟨tracks.kept, tracks.progress.poll offset (decoded.trans here.symm) safe⟩
  | commit m =>
    rcases step with moved | ⟨raised, same⟩
    · subst moved
      exact ⟨_, Or.inl rfl, tracks.kept, tracks.progress.commit safe.1 safe.2⟩
    · exact ⟨_, Or.inr ⟨raised, rfl⟩, same ▸ tracks⟩
  | makeConsumer => exact ⟨log, rfl, step ▸ tracks⟩
  | stopIsSet => exact ⟨log, rfl, step ▸ tracks⟩
  | monotonic => exact ⟨log, rfl, step ▸ tracks⟩
  | close => exact ⟨log, rfl, step ▸ tracks⟩

/-- A callback that does not touch the database. -/
theorem tracks_quiet {program : Handling Unit} {op : CallbackOp}
    (other : ∀ m value, op ≠ .handler m value) (tracks : Tracks topic kept done log s)
    (quiet : program.wp (handlerMachine around fun w => w.index = s.world.index)
      (fun _ after => after.index = s.world.index) s.world) :
    (program.inr : Prog embedderSig Exn Unit).wp
      (embedderMachine around config topic (Holds kept done))
      (fun answer after => ∃ log', loopStep (.inr op) log answer log' ∧
        Tracks topic kept done log' after) s := by
  have entry : ∀ answer : Except Exn Unit, ∀ m, op.outcome answer ≠ .polled m ∧
      op.outcome answer ≠ .handled m := by
    intro answer m
    cases answer with
    | error exn => exact ⟨Entry.noConfusion, Entry.noConfusion⟩
    | ok _ =>
      cases op with
      | handler m value => exact absurd rfl (other m value)
      | afterHandler => exact ⟨Entry.noConfusion, Entry.noConfusion⟩
      | preCommit => exact ⟨Entry.noConfusion, Entry.noConfusion⟩
      | idleHook => exact ⟨Entry.noConfusion, Entry.noConfusion⟩
  have still : ∀ w, w.index = s.world.index → Tracks topic kept done log { s with world := w } := by
    intro w same
    refine ⟨?_, ?_⟩
    · show kept w.index
      rw [same]
      exact tracks.kept
    · show Progress topic (fun p k => done p k w.index) log s.position s.committed
      rw [same]
      exact tracks.progress
  refine Prog.wp_mono ?_ (wp_handling (fun w same => (still w same).holds) quiet)
  rintro outcome after ⟨w, same, rfl⟩
  exact ⟨_, rfl, (still w same).cons (entry outcome)⟩

variable (stable : ∀ p, ∀ value ∈ topic p, Kept around config value kept)
  (stays : ∀ p k p', ∀ value ∈ topic p', Kept around config value (done p k))
  (finish : ∀ p (k : Nat) value, (topic p)[k]? = some value → ∀ after, kept after.index →
    Settled around config value after → done p k after.index)

include stable stays finish

/-- **The message polled last is handled.** -/
theorem tracks_handler {m : Message} {older : List Entry} {value : String}
    (tracks : Tracks topic kept done (.polled m :: older) s) (decoded : m.value = some value) :
    ((handler config value).inr : Prog embedderSig Exn Unit).wp
      (embedderMachine around config topic (Holds kept done))
      (fun answer after => ∃ log', loopStep (.inr (.handler m value)) (.polled m :: older) answer
        log' ∧ Tracks topic kept done log' after) s := by
  obtain ⟨k, offset, -, here⟩ := tracks.progress.polled m List.mem_cons_self
  have at' : (topic m.partition)[k]? = some value := here.symm.trans decoded
  have inside := List.mem_of_getElem? at'
  -- what is finished stays so at every statement of the handler
  have all : Kept around config value fun index => kept index ∧
      ∀ p k, done p k s.world.index → done p k index :=
    fun ev parsed stamp vectors index now statement both issued encoded backed =>
      ⟨stable _ value inside ev parsed stamp vectors index now statement both.1 issued encoded backed,
        fun p k before => stays p k _ value inside ev parsed stamp vectors index now statement
          (both.2 p k before) issued encoded backed⟩
  have during : ∀ w, (kept w.index ∧ ∀ p k, done p k s.world.index → done p k w.index) →
      Tracks topic kept done (.polled m :: older) { s with world := w } :=
    fun w both => ⟨both.1, tracks.progress.mono both.2⟩
  refine Prog.wp_mono ?_ (wp_handling (fun w both => (during w both).holds)
    (wp_handler_kept all ⟨tracks.kept, fun p k before => before⟩))
  rintro outcome after ⟨w, ends, rfl⟩
  refine ⟨_, rfl, ?_⟩
  cases outcome with
  | error exn => exact (during w ends).cons fun x => ⟨Entry.noConfusion, Entry.noConfusion⟩
  | ok _ =>
    obtain ⟨⟨holds, more⟩, handled⟩ := ends
    refine ⟨holds, tracks.progress.handle more fun k' place => ?_⟩
    obtain rfl : k' = k := by omega
    exact finish m.partition k' value at' w holds handled

/-- **Every call of the worker.** -/
theorem tracks_simulates (op : loopSig.Op) (log : List Entry) (s : Consumption)
    (tracks : Tracks topic kept done log s) (safe : turnMachine.safe op log) :
    (callbacks config op).wp (embedderMachine around config topic (Holds kept done))
      (fun answer after => ∃ log', turnMachine.step op log answer log' ∧
        Tracks topic kept done log' after) s := by
  cases op with
  | inl op => exact tracks_consumer op tracks safe
  | inr op =>
    cases op with
    | handler m value =>
      obtain ⟨decoded, older, rfl, -, -⟩ := safe
      exact tracks_handler stable stays finish tracks decoded
    | afterHandler =>
      exact ⟨_, rfl, tracks.cons fun m => ⟨Entry.noConfusion, Entry.noConfusion⟩⟩
    | preCommit =>
      refine tracks_quiet (by simp) tracks ?_
      refine (@Prog.wp_perform handlerSig Exn World _ (.inl .flush) _ _).mpr ⟨rfl, ?_⟩
      rintro answer after ⟨-, same⟩
      rw [same]
    | idleHook =>
      refine tracks_quiet (by simp) tracks ?_
      refine (@Prog.wp_perform handlerSig Exn World _ (.inr .beat) _ _).mpr ⟨rfl, ?_⟩
      intro answer after step
      rw [show after = s.world from step]

/-- **The rule for all lives.** -/
theorem Lives.always_from (lives : Lives around config topic first s) (start : kept first.world.index)
    (begun : ∀ p k, k < first.committed p → done p k first.world.index) : Holds kept done s := by
  induction lives with
  | first => exact ⟨start, begun⟩
  | @again s next last maxMessages idleTimeout stop commitEvery fuel rest before restarted life ih =>
    have begins : Tracks topic kept done [] next := by
      refine ⟨?_, ?_⟩
      · rw [restarted.index]
        exact ih.kept
      · rw [restarted.position, restarted.committed, restarted.index]
        exact Progress.restart ih.committed
    have spec := Prog.wp_interpret (tracks_simulates stable stays finish) begins
      (consumeLoop_inTurn (embedderLoop maxMessages idleTimeout stop commitEvery) fuel)
    refine Prog.kept_of_steps (fun _ _ holds => holds) ?_ spec
      (Prog.Steps.mono (m := embedderMachine around config topic fun _ => True)
        (fun _ _ _ _ step => step) life)
    rintro outcome after ⟨log, -, tracks⟩
    exact tracks.holds

/-- The rule for lives that start where nothing has been committed. -/
theorem Lives.always (lives : Lives around config topic first s) (start : kept first.world.index)
    (new : ∀ p, first.committed p = 0) : Holds kept done s :=
  Lives.always_from stable stays finish lives start fun p k below =>
    absurd (new p ▸ below) (Nat.not_lt_zero k)

end Lives

/-! ### Foreign keys -/

/-- **What `incident_services` and `incident_events` refer to is there.** -/
structure Referenced (index : Index) : Prop where
  services : ∀ incidentId service, (index.incidentServices.lookup (incidentId, service)).isSome →
    (index.incidents.lookup incidentId).isSome
  events : ∀ incidentId eventId, (index.incidentEvents.lookup (incidentId, eventId)).isSome →
    (index.incidents.lookup incidentId).isSome

theorem isSome_upsert_of {K V : Type} [DecidableEq K] {key : K} (other : K) (fresh : V)
    (change : V → V) {table : Table K V} (present : (table.lookup key).isSome) :
    ((table.upsert other fresh change).lookup key).isSome := by
  rw [Table.lookup_upsert]
  split_ifs
  · rfl
  · exact present

/-- No statement of the worker takes an incident away. -/
theorem incident_exec {index : Index} {incidentId : String}
    (present : (index.incidents.lookup incidentId).isSome) (now : Time) (statement : Statement) :
    ((index.exec now statement).incidents.lookup incidentId).isSome := by
  cases statement with
  | ensureIncident other title openedAt service => exact isSome_upsert_of other _ _ present
  | registerIndexing eventId => exact present
  | upsertRecord rec embedding model => exact present
  | deleteOrphanChunks eventId count => exact present
  | ensureService other service => exact present
  | incidentEvent other eventId => exact present
  | completeIndexing eventId => exact present

theorem service_exec {index : Index} {key : String × String}
    (present : (index.incidentServices.lookup key).isSome) (now : Time) (statement : Statement) :
    ((index.exec now statement).incidentServices.lookup key).isSome := by
  cases statement with
  | ensureService incidentId service => exact isSome_upsert_of (incidentId, service) _ _ present
  | registerIndexing eventId => exact present
  | upsertRecord rec embedding model => exact present
  | deleteOrphanChunks eventId count => exact present
  | ensureIncident incidentId title openedAt service => exact present
  | incidentEvent incidentId eventId => exact present
  | completeIndexing eventId => exact present

theorem event_exec {index : Index} {key : String × String}
    (present : (index.incidentEvents.lookup key).isSome) (now : Time) (statement : Statement) :
    ((index.exec now statement).incidentEvents.lookup key).isSome := by
  cases statement with
  | incidentEvent incidentId eventId => exact isSome_upsert_of (incidentId, eventId) _ _ present
  | registerIndexing eventId => exact present
  | upsertRecord rec embedding model => exact present
  | deleteOrphanChunks eventId count => exact present
  | ensureIncident incidentId title openedAt service => exact present
  | ensureService incidentId service => exact present
  | completeIndexing eventId => exact present

/-- **A statement whose own reference is there leaves none dangling.** -/
theorem Referenced.exec {index : Index} (referenced : Referenced index) {statement : Statement}
    (backed : Backed index statement) (now : Time) : Referenced (index.exec now statement) := by
  refine ⟨fun incidentId service present => ?_, fun incidentId eventId present => ?_⟩
  · refine incident_exec ?_ now statement
    cases statement with
    | ensureService other service' =>
      have present' : ((index.incidentServices.upsert (other, service') () id).lookup
          (incidentId, service)).isSome := present
      rw [Table.lookup_upsert] at present'
      split_ifs at present' with same
      · obtain ⟨rfl, rfl⟩ := Prod.mk.inj same
        exact backed
      · exact referenced.services incidentId service present'
    | registerIndexing eventId => exact referenced.services incidentId service present
    | upsertRecord rec embedding model => exact referenced.services incidentId service present
    | deleteOrphanChunks eventId count => exact referenced.services incidentId service present
    | ensureIncident other title openedAt service' =>
      exact referenced.services incidentId service present
    | incidentEvent other eventId => exact referenced.services incidentId service present
    | completeIndexing eventId => exact referenced.services incidentId service present
  · refine incident_exec ?_ now statement
    cases statement with
    | incidentEvent other eventId' =>
      have present' : ((index.incidentEvents.upsert (other, eventId') () id).lookup
          (incidentId, eventId)).isSome := present
      rw [Table.lookup_upsert] at present'
      split_ifs at present' with same
      · obtain ⟨rfl, rfl⟩ := Prod.mk.inj same
        exact backed
      · exact referenced.events incidentId eventId present'
    | registerIndexing eventId' => exact referenced.events incidentId eventId present
    | upsertRecord rec embedding model => exact referenced.events incidentId eventId present
    | deleteOrphanChunks eventId' count => exact referenced.events incidentId eventId present
    | ensureIncident other title openedAt service => exact referenced.events incidentId eventId present
    | ensureService other service => exact referenced.events incidentId eventId present
    | completeIndexing eventId' => exact referenced.events incidentId eventId present

/-- **No foreign key ever dangles.** -/
theorem never_dangling {first s : Consumption} (lives : Lives around config topic first s)
    (start : Referenced first.world.index) (new : ∀ p, first.committed p = 0) :
    Referenced s.world.index := by
  have rule := @Lives.always around config topic Referenced (fun _ _ _ => True) s first
    (fun _ _ _ _ _ _ _ _ now _ here _ _ backed => here.exec backed now)
    (fun _ _ _ _ _ _ _ _ _ _ _ _ _ _ _ _ => trivial) (fun _ _ _ _ _ _ _ => trivial)
  exact (rule lives start new).kept

/-! ### Where rows come from -/

/-- What an upsert does not overwrite. -/
structure SameOrigin (row : Chunk) (incidentId : Option String) (service : String) (ts : Time)
    (source : EventSource) : Prop where
  incidentId : row.incidentId = incidentId
  service : row.service = service
  ts : row.ts = ts
  source : row.source = source

/-- **A row is a chunk of one version of its event**, with what the column takes of the vector that the
encoder gave for that chunk among all of them. -/
structure OfVersion (around : Surroundings) (config : HandlerConfig) (topic : Int → List String)
    (key : String) (row : Chunk) : Prop where
  content : ∃ p k ev vectors i vector, Version around topic p k ev ∧
    around.encodes (chunkText ev.text) (.ok vectors) ∧ key = chunkId ev.eventId i ∧
    row.eventId = ev.eventId ∧ row.chunkIndex = some i ∧ (chunkText ev.text)[i]? = some row.text ∧
    vectors[i]? = some vector ∧ vector.length = embeddingDim ∧
    config.asVector (vecLiteral vector) = .ok row.embedding ∧ row.title = ev.recordTitle ∧
    row.severity = ev.severity ∧ row.type = ev.type
  model : row.model = config.name

/-- **It has its incident, service, time and source** from a version of its event, or from the row
that was there at first. -/
def HasOrigin (around : Surroundings) (topic : Int → List String) (before : Index) (key : String)
    (row : Chunk) : Prop :=
  (∃ p k ev, Version around topic p k ev ∧ ev.eventId = row.eventId ∧
    SameOrigin row ev.incidentId ev.service ev.ts ev.source) ∨
  ∃ old, before.vectorRecords.lookup key = some old ∧ old.eventId = row.eventId ∧
    SameOrigin row old.incidentId old.service old.ts old.source

/-- Every row is as it was at first, or comes from the topic. -/
structure FromTopic (around : Surroundings) (config : HandlerConfig) (topic : Int → List String)
    (before index : Index) : Prop where
  keyed : index.WellKeyed
  rows : ∀ key row, index.vectorRecords.lookup key = some row →
    before.vectorRecords.lookup key = some row ∨
      (OfVersion around config topic key row ∧ HasOrigin around topic before key row)

theorem texts_records (ev : Event) (stamp : Time) :
    (recordsForEvent ev stamp).map VectorRecord.text = chunkText ev.text := by
  unfold recordsForEvent
  rw [List.map_map]
  exact List.zipIdx_map_fst 0 _

/-- A pair is a chunk and the vector that was answered for it. -/
theorem encoded_of_pair {ev : Event} {stamp : Time} {vectors : List Embedding}
    (encoded : Encoded around ev stamp vectors) {pair : VectorRecord × Embedding}
    (member : pair ∈ pairsOf ev stamp vectors) :
    ∃ i chunk vector, pair = (ev.record stamp i chunk, vector) ∧
      around.encodes (chunkText ev.text) (.ok vectors) ∧ (chunkText ev.text)[i]? = some chunk ∧
      vectors[i]? = some vector ∧ vector.length = embeddingDim := by
  obtain ⟨i, at'⟩ := List.mem_iff_getElem?.mp member
  unfold pairsOf at at'
  obtain ⟨record, vector⟩ := List.getElem?_zip_eq_some.mp at'
  have made : ∃ chunk, (chunkText ev.text)[i]? = some chunk ∧ pair.1 = ev.record stamp i chunk := by
    unfold recordsForEvent at record
    rw [List.getElem?_map, List.getElem?_zipIdx, Option.map_map] at record
    obtain ⟨chunk, here, eq⟩ := Option.map_eq_some_iff.mp record
    refine ⟨chunk, here, ?_⟩
    rw [← eq]
    simp
  obtain ⟨chunk, here, eq⟩ := made
  refine ⟨i, chunk, pair.2, Prod.ext eq rfl, ?_, here, vector,
    encoded.dims _ (List.mem_of_getElem? vector)⟩
  rw [← texts_records ev stamp]
  exact encoded.answered

/-- **Every statement of a version keeps it.** -/
theorem FromTopic.exec {before index : Index} (fromTopic : FromTopic around config topic before index)
    {p : Int} {k : Nat} {ev : Event} (version : Version around topic p k ev) {stamp : Time}
    {vectors : List Embedding} {statement : Statement}
    (issued : Issued config ev (pairsOf ev stamp vectors) statement)
    (encoded : Ensures ev statement ∨ Encoded around ev stamp vectors) (now : Time) :
    FromTopic around config topic before (index.exec now statement) := by
  by_cases spares : Index.Spares statement
  · have fits : Index.KeyedStatement statement := by
      cases statement <;> first | exact spares.elim | trivial
    refine ⟨fromTopic.keyed.exec fits now, ?_⟩
    rw [Index.vectorRecords_exec spares]
    exact fromTopic.rows
  cases statement with
  | upsertRecord rec embedding model =>
    have answered : Encoded around ev stamp vectors := by
      refine encoded.resolve_left ?_
      rintro ⟨incidentId, -, -, same | same⟩ <;> cases same
    obtain ⟨rfl, pair, member, taken, indexedAt, rfl⟩ := issued
    obtain ⟨i, chunk, vector, rfl, answered, here, at', dims⟩ := encoded_of_pair answered member
    have keyed := @Index.WellKeyed.exec _ fromTopic.keyed
      (.upsertRecord { ev.record stamp i chunk with indexedAt } embedding config.name) rfl now
    refine ⟨keyed, fun key row found => ?_⟩
    have found' : (index.vectorRecords.upsert (chunkId ev.eventId i)
        (.fresh { ev.record stamp i chunk with indexedAt } embedding config.name)
        fun row => row.updated { ev.record stamp i chunk with indexedAt } embedding config.name).lookup
          key = some row := found
    rw [Table.lookup_upsert] at found'
    split_ifs at found' with same
    · subst same
      cases old : index.vectorRecords.lookup (chunkId ev.eventId i) with
      | none =>
        rw [old] at found'
        obtain rfl := Option.some.inj found'
        exact Or.inr ⟨⟨⟨p, k, ev, vectors, i, vector, version, answered, rfl, rfl, rfl, here, at', dims,
          taken, rfl, rfl, rfl⟩, rfl⟩, Or.inl ⟨p, k, ev, version, rfl, rfl, rfl, rfl, rfl⟩⟩
      | some held =>
        rw [old] at found'
        obtain rfl := Option.some.inj found'
        obtain ⟨event, -⟩ := fromTopic.keyed.columns old
        refine Or.inr ⟨⟨⟨p, k, ev, vectors, i, vector, version, answered, rfl, event, rfl, here, at',
          dims, taken, rfl, rfl, rfl⟩, rfl⟩, ?_⟩
        -- the columns that the upsert leaves are those of the row it found
        rcases fromTopic.rows _ held old with first | ⟨-, origin⟩
        · exact Or.inr ⟨held, first, rfl, rfl, rfl, rfl, rfl⟩
        · rcases origin with ⟨p', k', ev', version', same, columns⟩ | ⟨before', first, same, columns⟩
          · exact Or.inl ⟨p', k', ev', version', same, columns.incidentId, columns.service, columns.ts,
              columns.source⟩
          · exact Or.inr ⟨before', first, same, columns.incidentId, columns.service, columns.ts,
              columns.source⟩
    · exact fromTopic.rows key row found'
  | deleteOrphanChunks eventId count =>
    have keyed := @Index.WellKeyed.exec _ fromTopic.keyed (.deleteOrphanChunks eventId count) trivial
      now
    refine ⟨keyed, fun key row found => ?_⟩
    have found' : (index.vectorRecords.deleteWhere fun _ row =>
        decide (row.eventId = eventId) && row.chunkIndex.any fun i => decide (count ≤ i)).lookup
          key = some row := found
    rw [Table.lookup_deleteWhere] at found'
    exact fromTopic.rows key row (Option.filter_eq_some_iff.mp found').1
  | registerIndexing eventId => exact absurd trivial spares
  | ensureIncident incidentId title openedAt service => exact absurd trivial spares
  | ensureService incidentId service => exact absurd trivial spares
  | incidentEvent incidentId eventId => exact absurd trivial spares
  | completeIndexing eventId => exact absurd trivial spares

theorem Lives.tracks_fromTopic {first s : Consumption} (lives : Lives around config topic first s)
    (keyed : first.world.index.WellKeyed) (new : ∀ p, first.committed p = 0) :
    Holds (FromTopic around config topic first.world.index) (fun _ _ _ => True) s := by
  refine @Lives.always around config topic (FromTopic around config topic first.world.index)
    (fun _ _ _ => True) s first ?_ (fun _ _ _ _ _ _ _ _ _ _ _ _ _ _ _ _ => trivial)
    (fun _ _ _ _ _ _ _ => trivial) lives ⟨keyed, fun key row found => Or.inl found⟩ new
  intro p value inside ev parsed stamp vectors index now statement here issued encoded _
  obtain ⟨k, at'⟩ := List.mem_iff_getElem?.mp inside
  exact here.exec (p := p) (k := k) ⟨value, at', parsed⟩ issued encoded now

/-- **No row of the index is made up**: in every state of every life, it is as it was at first, or a
chunk of one version with its own vector. -/
theorem rows_from_topic {first s : Consumption} (lives : Lives around config topic first s)
    (keyed : first.world.index.WellKeyed) (new : ∀ p, first.committed p = 0) :
    FromTopic around config topic first.world.index s.world.index :=
  (lives.tracks_fromTopic keyed new).kept

/-! ### What a committed message has left -/

/-- **The message's incident is there with its service, and the event is linked to it and has its
receipt.** -/
structure Registered (fields : Fields) (index : Index) : Prop where
  incident : ∀ incidentId, fields.incidentId = some incidentId → incidentId ≠ "" →
    (index.incidents.lookup incidentId).isSome ∧
      (index.incidentServices.lookup (incidentId, fields.service)).isSome
  linked : ∀ incidentId eventId, fields.incidentId = some incidentId → incidentId ≠ "" →
    fields.eventId = some eventId → words fields.text ≠ [] →
    (index.incidentEvents.lookup (incidentId, eventId)).isSome
  receipt : ∀ eventId, fields.eventId = some eventId → words fields.text ≠ [] →
    ∃ receipt, index.eventIndexing.lookup eventId = some receipt ∧ receipt.lastQueryableAt.isSome

/-- A receipt that is complete stays so. -/
theorem complete_exec {index : Index} {eventId : String}
    (complete : ∃ receipt, index.eventIndexing.lookup eventId = some receipt ∧
      receipt.lastQueryableAt.isSome) (now : Time) (statement : Statement) :
    ∃ receipt, (index.exec now statement).eventIndexing.lookup eventId = some receipt ∧
      receipt.lastQueryableAt.isSome := by
  obtain ⟨receipt, found, stamped⟩ := complete
  cases statement with
  | registerIndexing other =>
    refine ⟨receipt, ?_, stamped⟩
    show (index.eventIndexing.upsert _ _ _).lookup _ = _
    rw [Table.lookup_upsert]
    split_ifs with same
    · rw [← same, found]
      rfl
    · exact found
  | completeIndexing other =>
    by_cases same : eventId = other
    · refine ⟨Index.complete now receipt, ?_, rfl⟩
      show (index.eventIndexing.modify _ _).lookup _ = _
      rw [Table.lookup_modify, if_pos same, ← same, found]
      rfl
    · refine ⟨receipt, ?_, stamped⟩
      show (index.eventIndexing.modify _ _).lookup _ = _
      rw [Table.lookup_modify, if_neg same]
      exact found
  | upsertRecord rec embedding model => exact ⟨receipt, found, stamped⟩
  | deleteOrphanChunks other count => exact ⟨receipt, found, stamped⟩
  | ensureIncident incidentId title openedAt service => exact ⟨receipt, found, stamped⟩
  | ensureService incidentId service => exact ⟨receipt, found, stamped⟩
  | incidentEvent incidentId other => exact ⟨receipt, found, stamped⟩

/-- **No statement undoes it.** -/
theorem Registered.exec {fields : Fields} {index : Index} (registered : Registered fields index)
    (now : Time) (statement : Statement) : Registered fields (index.exec now statement) := by
  refine ⟨fun incidentId named full => ?_, fun incidentId eventId named full event text => ?_,
    fun eventId event text => ?_⟩
  · obtain ⟨incident, service⟩ := registered.incident incidentId named full
    exact ⟨incident_exec incident now statement, service_exec service now statement⟩
  · exact event_exec (registered.linked incidentId eventId named full event text) now statement
  · exact complete_exec (registered.receipt eventId event text) now statement

/-- When the handler returns and no encoding fails, the message is registered. -/
theorem Settled.registered {after : World} (handled : Settled around config value after)
    (encodes : ¬ around.Fails) {fields : Fields} (valid : around.validate value = .ok fields) :
    Registered fields after.index := by
  have same : ∀ {ev}, Parsed around value ev → ∃ newId now, ev = fields.event newId now := by
    rintro ev ⟨fields', newId, now, valid', rfl⟩
    obtain rfl := Except.ok.inj (valid'.symm.trans valid)
    exact ⟨newId, now, rfl⟩
  cases handled with
  | malformed invalid =>
    rw [invalid] at valid
    cases valid
  | exhausted failed => exact absurd failed encodes
  | blank parsed blank ensured =>
    obtain ⟨newId, now, rfl⟩ := same parsed
    exact ⟨ensured, fun _ _ _ _ _ text => absurd blank text, fun _ _ text => absurd blank text⟩
  | indexed parsed length stored linked =>
    obtain ⟨newId, now, rfl⟩ := same parsed
    have names : ∀ {eventId}, fields.eventId = some eventId →
        (fields.event newId now).eventId = eventId := by
      intro eventId event
      unfold Fields.event
      rw [event, Option.getD_some]
    refine ⟨stored.incident, fun incidentId eventId named full event _ => ?_, fun eventId event _ => ?_⟩
    · rw [← names event]
      exact linked incidentId named full
    · obtain ⟨receipt, found, stamped⟩ := stored.receipt
      rw [names event] at found
      exact ⟨receipt, found, by rw [stamped]; rfl⟩

/-! ### A run -/

def namedFields : Fields :=
  { blankFields with
    incidentId := some "openai:INC-1"
    text := "Status: Monitoring".toList }

def namedAround : Surroundings where
  validate _ := .ok namedFields
  encodes texts answer := answer = zeroVectors texts

/-- One message of one partition has been consumed. -/
def namedConsumed : Consumption :=
  ((embedder plainConfig (embedderLoop (some 1) none false 50) 2).run
    (calmReader namedAround.validate zeroVectors plainConfig oneTopic) newConsumption).2

theorem named_lives : Lives namedAround plainConfig oneTopic newConsumption namedConsumed := by
  have life := @Prog.steps_run embedderSig Exn (Option Nat) Consumption
    (embedderMachine namedAround plainConfig oneTopic fun _ => True)
    (calmReader namedAround.validate zeroVectors plainConfig oneTopic)
    (embedder plainConfig (embedderLoop (some 1) none false 50) 2) newConsumption
    (embedderStep_reader fun _ => rfl)
  exact .again .first ⟨rfl, rfl, rfl⟩ life

theorem named_encodes : ¬ namedAround.Fails := by
  rintro ⟨texts, exn, failed⟩
  cases failed

theorem never_dangling_named : Referenced namedConsumed.world.index ∧
    (namedConsumed.world.index.incidentEvents.lookup ("openai:INC-1", "openai:INC-1:a")).isSome := by
  refine ⟨never_dangling named_lives ⟨?_, ?_⟩ fun _ => rfl, by decide +kernel⟩
  · intro incidentId service present
    cases present
  · intro incidentId eventId present
    cases present

theorem rows_from_topic_named :
    FromTopic namedAround plainConfig oneTopic newConsumption.world.index
      namedConsumed.world.index ∧
      (namedConsumed.world.index.vectorRecords.lookup "chk_openai:INC-1:a_0").isSome :=
  ⟨rows_from_topic named_lives keyed_empty fun _ => rfl, by decide +kernel⟩

end Freshet.Pipeline
