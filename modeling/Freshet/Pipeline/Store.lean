/-
**What the handler writes, statement by statement.**

`wp_store` follows the statements from the registration to the receipt, once. It is given an
assertion that each of these statements keeps, and adds what the writes leave behind (`Stored`):
every chunk with its vector, no orphan, a completed receipt. The receipt is written when the log
has all the chunks, which is what an assertion about receipts may rely on.
-/

import Freshet.Pipeline.Embedder

namespace Freshet.Pipeline

open Freshet.Lib Freshet.Kafka
open Freshet.Autopilot (Time ensureIncidentSql)

variable {around : Surroundings} {kept : World → Prop} {w : World} {config : HandlerConfig}
  {ev : Event} {pairs : List (VectorRecord × Embedding)}

/-! ### Incidents -/

/-- The statements of `ensure_incident`. -/
def Ensures (ev : Event) (statement : Statement) : Prop :=
  ∃ incidentId, ev.incidentId = some incidentId ∧ incidentId ≠ "" ∧
    (statement = .ensureIncident incidentId (ev.title.getD "") ev.ts ev.service ∨
      statement = .ensureService incidentId ev.service)

/-- The incident that an event names is there, with the event's service. -/
def Ensured (ev : Event) (w : World) : Prop :=
  ∀ incidentId, ev.incidentId = some incidentId → incidentId ≠ "" →
    (w.index.incidents.lookup incidentId).isSome ∧
      (w.index.incidentServices.lookup (incidentId, ev.service)).isSome

theorem isSome_upsert {K V : Type} [DecidableEq K] (key : K) (fresh : V) (change : V → V)
    (table : Table K V) : ((table.upsert key fresh change).lookup key).isSome := by
  rw [Table.lookup_upsert, if_pos rfl]
  rfl

/-- The incident that a statement refers to is there. -/
def Backed (index : Index) : Statement → Prop
  | .ensureService incidentId _ => (index.incidents.lookup incidentId).isSome
  | .incidentEvent incidentId _ => (index.incidents.lookup incidentId).isSome
  | _ => True

theorem wp_ensureIncident_backed {during : World → Prop} (start : during w)
    (again : ∀ w now statement, during w → w.clock ≤ now → Ensures ev statement →
      Backed w.index statement → during (w.exec now statement)) (keeps : ∀ w, during w → kept w) :
    (ensureIncident ev).wp (handlerMachine around kept)
      (Prog.Ends kept fun _ after => during after ∧ Ensured ev after) w := by
  unfold ensureIncident
  cases named : ev.incidentId with
  | none =>
    refine ⟨start, fun incidentId same => ?_⟩
    rw [named] at same
    exact absurd same (by simp)
  | some incidentId =>
    by_cases empty : incidentId = ""
    · simp only [if_pos empty]
      refine ⟨start, fun other same full => ?_⟩
      rw [named] at same
      exact absurd ((Option.some.inj same).symm.trans empty) full
    · simp only [if_neg empty]
      have ours : Ensures ev (.ensureIncident incidentId (ev.title.getD "") ev.ts ev.service) :=
        ⟨incidentId, named, empty, Or.inl rfl⟩
      have ours' : Ensures ev (.ensureService incidentId ev.service) :=
        ⟨incidentId, named, empty, Or.inr rfl⟩
      refine Prog.wp_seq (fun _ after => during after ∧
        (after.index.incidents.lookup incidentId).isSome)
        (wp_execute during start
          (fun w now here later => again w now _ here later ours trivial) keeps
          fun w now here later => ⟨again w now _ here later ours trivial, isSome_upsert _ _ _ _⟩) ?_
      rintro _ after ⟨here, incident⟩
      refine wp_execute (fun w => during w ∧ (w.index.incidents.lookup incidentId).isSome)
        ⟨here, incident⟩
        (fun w now both later => ⟨again w now _ both.1 later ours' both.2, both.2⟩)
        (fun w both => keeps w both.1)
        fun w now both later => ⟨again w now _ both.1 later ours' both.2, fun other same _ => ?_⟩
      rw [named] at same
      obtain rfl := Option.some.inj same
      exact ⟨both.2, isSome_upsert _ _ _ _⟩

theorem wp_ensureIncident {during : World → Prop} (start : during w)
    (again : ∀ w now statement, during w → w.clock ≤ now → Ensures ev statement →
      during (w.exec now statement)) (keeps : ∀ w, during w → kept w) :
    (ensureIncident ev).wp (handlerMachine around kept)
      (Prog.Ends kept fun _ after => during after ∧ Ensured ev after) w :=
  wp_ensureIncident_backed start (fun w now statement here later ours _ =>
    again w now statement here later ours) keeps

/-- The event is linked to the incident that it names. -/
def Linked (ev : Event) (w : World) : Prop :=
  ∀ incidentId, ev.incidentId = some incidentId → incidentId ≠ "" →
    (w.index.incidentEvents.lookup (incidentId, ev.eventId)).isSome

theorem wp_linkEvent {during : World → Prop} (start : during w)
    (again : ∀ w now incidentId, during w → w.clock ≤ now → ev.incidentId = some incidentId →
      incidentId ≠ "" → during (w.exec now (.incidentEvent incidentId ev.eventId)))
    (keeps : ∀ w, during w → kept w) :
    (linkEvent ev).wp (handlerMachine around kept)
      (Prog.Ends kept fun _ after => during after ∧ Linked ev after) w := by
  unfold linkEvent
  cases named : ev.incidentId with
  | none =>
    refine ⟨start, fun incidentId same => ?_⟩
    rw [named] at same
    exact absurd same (by simp)
  | some incidentId =>
    by_cases empty : incidentId = ""
    · simp only [if_pos empty]
      refine ⟨start, fun other same full => ?_⟩
      rw [named] at same
      exact absurd ((Option.some.inj same).symm.trans empty) full
    · simp only [if_neg empty]
      refine wp_execute during start
        (fun w now here later => again w now incidentId here later named empty) keeps
        fun w now here later => ⟨again w now incidentId here later named empty, fun other same _ => ?_⟩
      rw [named] at same
      obtain rfl := Option.some.inj same
      exact isSome_upsert _ _ _ _

/-! ### What the writes leave -/

/-- A row has what an upsert of the record writes into every row. -/
structure Carries (config : HandlerConfig) (pair : VectorRecord × Embedding) (row : Chunk) :
    Prop where
  chunkIndex : row.chunkIndex = some pair.1.chunkIndex
  text : row.text = pair.1.text
  title : row.title = pair.1.title
  severity : row.severity = pair.1.severity
  type : row.type = pair.1.type
  model : row.model = config.name
  embedding : config.asVector (vecLiteral pair.2) = .ok row.embedding

/-- The record's row is there. -/
def Carried (config : HandlerConfig) (pair : VectorRecord × Embedding) (index : Index) : Prop :=
  ∃ row, index.vectorRecords.lookup pair.1.chunkId = some row ∧ Carries config pair row

/-- The record's upsert is in the log. -/
def Wrote (config : HandlerConfig) (pair : VectorRecord × Embedding) (w : World) : Prop :=
  ∃ entry ∈ w.log, ∃ indexedAt column, config.asVector (vecLiteral pair.2) = .ok column ∧
    entry.statement = .upsertRecord { pair.1 with indexedAt } column config.name

/-- **What is left behind.** -/
structure Stored (config : HandlerConfig) (ev : Event) (pairs : List (VectorRecord × Embedding))
    (w : World) : Prop where
  rows : ∀ pair ∈ pairs, Carried config pair w.index
  orphans : ∀ key row, w.index.vectorRecords.lookup key = some row → row.eventId = ev.eventId →
    ∀ i, row.chunkIndex = some i → i < pairs.length
  incident : Ensured ev w
  receipt : ∃ receipt, w.index.eventIndexing.lookup ev.eventId = some receipt ∧
    receipt.lastQueryableAt = some w.clock

/-- The statements of `store`. -/
def Issued (config : HandlerConfig) (ev : Event) (pairs : List (VectorRecord × Embedding)) :
    Statement → Prop
  | .registerIndexing eventId => eventId = ev.eventId
  | .upsertRecord rec embedding model =>
    model = config.name ∧ ∃ pair ∈ pairs, config.asVector (vecLiteral pair.2) = .ok embedding ∧
      ∃ indexedAt, rec = { pair.1 with indexedAt }
  | .deleteOrphanChunks eventId count => eventId = ev.eventId ∧ count = pairs.length
  | .ensureIncident incidentId title openedAt service =>
    Ensures ev (.ensureIncident incidentId title openedAt service)
  | .ensureService incidentId service => Ensures ev (.ensureService incidentId service)
  | .incidentEvent incidentId eventId =>
    ev.incidentId = some incidentId ∧ incidentId ≠ "" ∧ eventId = ev.eventId
  | .completeIndexing eventId => eventId = ev.eventId

theorem issued_of_ensures {statement : Statement} (ours : Ensures ev statement) :
    Issued config ev pairs statement := by
  obtain ⟨incidentId, named, full, rfl | rfl⟩ := ours
  · exact ⟨incidentId, named, full, Or.inl rfl⟩
  · exact ⟨incidentId, named, full, Or.inr rfl⟩

/-- Records that stand under different keys, each below the number of records. -/
structure Distinct (pairs : List (VectorRecord × Embedding)) : Prop where
  keys : (pairs.map fun pair => pair.1.chunkId).Nodup
  below : ∀ pair ∈ pairs, pair.1.chunkIndex < pairs.length

/-- An upsert leaves the rows of the other records. -/
theorem Carried.upsert {pair : VectorRecord × Embedding} {index : Index} {rec : VectorRecord}
    (carried : Carried config pair index) (other : pair.1.chunkId ≠ rec.chunkId)
    (embedding : Column) (now : Time) :
    Carried config pair (index.exec now (.upsertRecord rec embedding config.name)) := by
  obtain ⟨row, found, carries⟩ := carried
  refine ⟨row, ?_, carries⟩
  show (index.vectorRecords.upsert _ _ _).lookup _ = _
  rw [Table.lookup_upsert, if_neg other]
  exact found

/-- **After its upsert a record's row is there**, whatever it was before. -/
theorem carried_upsert {pair : VectorRecord × Embedding} {column : Column}
    (taken : config.asVector (vecLiteral pair.2) = .ok column) (indexedAt now : Time) (index : Index) :
    Carried config pair
      (index.exec now (.upsertRecord { pair.1 with indexedAt } column config.name)) := by
  cases old : index.vectorRecords.lookup pair.1.chunkId with
  | none =>
    refine ⟨.fresh { pair.1 with indexedAt } column config.name, ?_,
      ⟨rfl, rfl, rfl, rfl, rfl, rfl, taken⟩⟩
    show (index.vectorRecords.upsert _ _ _).lookup _ = _
    rw [Table.lookup_upsert, if_pos rfl, old]
    rfl
  | some row =>
    refine ⟨row.updated { pair.1 with indexedAt } column config.name, ?_,
      ⟨rfl, rfl, rfl, rfl, rfl, rfl, taken⟩⟩
    show (index.vectorRecords.upsert _ _ _).lookup _ = _
    rw [Table.lookup_upsert, if_pos rfl, old]
    rfl

theorem Carried.spared {pair : VectorRecord × Embedding} {index : Index} {statement : Statement}
    (carried : Carried config pair index) (spares : Index.Spares statement) (now : Time) :
    Carried config pair (index.exec now statement) := by
  unfold Carried
  rw [Index.vectorRecords_exec spares]
  exact carried

/-- The deletion of the orphans leaves the row of a record below the count. -/
theorem Carried.delete {pair : VectorRecord × Embedding} {index : Index}
    (carried : Carried config pair index) {count : Nat} (below : pair.1.chunkIndex < count)
    (eventId : String) (now : Time) :
    Carried config pair (index.exec now (.deleteOrphanChunks eventId count)) := by
  obtain ⟨row, found, carries⟩ := carried
  refine ⟨row, ?_, carries⟩
  show (index.vectorRecords.deleteWhere _).lookup _ = _
  rw [Table.lookup_deleteWhere, found]
  simp [Option.filter, carries.chunkIndex, Nat.not_le.mpr below]

theorem Wrote.exec {pair : VectorRecord × Embedding} (wrote : Wrote config pair w) (now : Time)
    (statement : Statement) : Wrote config pair (w.exec now statement) := by
  obtain ⟨entry, member, sent⟩ := wrote
  exact ⟨entry, List.mem_cons_of_mem _ member, sent⟩

/-- No statement takes a receipt away. -/
theorem registered_exec {index : Index} {eventId : String}
    (registered : (index.eventIndexing.lookup eventId).isSome) (now : Time)
    (statement : Statement) :
    ((index.exec now statement).eventIndexing.lookup eventId).isSome := by
  cases statement with
  | registerIndexing other =>
    show ((index.eventIndexing.upsert _ _ _).lookup _).isSome
    rw [Table.lookup_upsert]
    split_ifs
    · rfl
    · exact registered
  | completeIndexing other =>
    show ((index.eventIndexing.modify _ _).lookup _).isSome
    rw [Table.lookup_modify]
    split_ifs with same
    · rw [← same, Option.isSome_map]
      exact registered
    · exact registered
  | upsertRecord rec embedding model => exact registered
  | deleteOrphanChunks other count => exact registered
  | ensureIncident incidentId title openedAt service => exact registered
  | ensureService incidentId service => exact registered
  | incidentEvent incidentId other => exact registered

/-! ### The rule -/

/-- Between two statements: the assertion, the registration, and the chunks written so far. -/
structure Underway (inv : World → Prop) (config : HandlerConfig) (ev : Event)
    (done : List (VectorRecord × Embedding)) (w : World) : Prop where
  inv : inv w
  registered : (w.index.eventIndexing.lookup ev.eventId).isSome
  rows : ∀ pair ∈ done, Carried config pair w.index
  wrote : ∀ pair ∈ done, Wrote config pair w

section Store

variable {inv : World → Prop} {done : List (VectorRecord × Embedding)}

theorem Underway.exec {statement : Statement} {now : Time} (underway : Underway inv config ev done w)
    (kept : inv (w.exec now statement))
    (rows : ∀ pair ∈ done, Carried config pair (w.index.exec now statement)) :
    Underway inv config ev done (w.exec now statement) where
  inv := kept
  registered := registered_exec underway.registered now statement
  rows := rows
  wrote pair member := (underway.wrote pair member).exec now statement

/-- The rows written so far survive the upsert of another record. -/
theorem Underway.upsert {pair : VectorRecord × Embedding} {column : Column} {now indexedAt : Time}
    (underway : Underway inv config ev done w)
    (other : ∀ earlier ∈ done, earlier.1.chunkId ≠ pair.1.chunkId)
    (kept : inv (w.exec now (.upsertRecord { pair.1 with indexedAt } column config.name))) :
    Underway inv config ev done
      (w.exec now (.upsertRecord { pair.1 with indexedAt } column config.name)) :=
  underway.exec kept fun earlier member =>
    @Carried.upsert _ earlier _ { pair.1 with indexedAt } (underway.rows earlier member)
      (other earlier member) column now

variable (stable : ∀ w now statement, inv w → w.clock ≤ now → Issued config ev pairs statement →
  Backed w.index statement →
  (statement = .completeIndexing ev.eventId → ∀ pair ∈ pairs, Wrote config pair w) →
  inv (w.exec now statement)) (keeps : ∀ w, inv w → kept w)

include stable keeps

/-- **The loop over the records.** -/
theorem wp_upsertRecords {later : List (VectorRecord × Embedding)} (all : pairs = done ++ later)
    (distinct : Distinct pairs) (underway : Underway inv config ev done w) :
    (upsertRecords config later).wp (handlerMachine around kept)
      (Prog.Ends kept fun _ => Underway inv config ev pairs) w := by
  induction later generalizing done w with
  | nil =>
    rw [List.append_nil] at all
    subst all
    exact underway
  | cons pair later ih =>
    obtain ⟨rec, vector⟩ := pair
    refine Prog.wp_seq (fun _ after => Underway inv config ev done after)
      (wp_quiet trivial (keeps w underway.inv) fun _ _ => underway) ?_
    rintro indexedAt w underway
    show (Prog.bind (upsertRecord config _ vector) fun _ => upsertRecords config later).wp _ _ w
    unfold upsertRecord
    cases taken : config.asVector (vecLiteral vector) with
    | error exn => exact keeps w underway.inv
    | ok column =>
    have ours : ∀ indexedAt, Issued config ev pairs
        (.upsertRecord { rec with indexedAt } column config.name) :=
      fun indexedAt => ⟨rfl, (rec, vector), by rw [all]; simp, taken, indexedAt, rfl⟩
    have other : ∀ earlier ∈ done, earlier.1.chunkId ≠ rec.chunkId := by
      have keys := distinct.keys
      rw [all, List.map_append, List.map_cons] at keys
      intro earlier member same
      refine (List.nodup_append.mp keys).2.2 _ (List.mem_map_of_mem member) _ List.mem_cons_self ?_
      exact same
    have next : ∀ w now, Underway inv config ev done w → w.clock ≤ now →
        Underway inv config ev done
          (w.exec now (.upsertRecord { rec with indexedAt } column config.name)) :=
      fun w now here later => @Underway.upsert _ _ _ _ _ (rec, vector) column now indexedAt here other
        (stable w now _ here.inv later (ours indexedAt) trivial (by simp))
    refine Prog.wp_seq (fun _ => Underway inv config ev (done ++ [(rec, vector)]))
      (wp_execute _ underway next (fun w here => keeps w here.inv) ?_) ?_
    · intro w now here later
      have before := next w now here later
      refine ⟨before.inv, before.registered, ?_, ?_⟩
      · refine List.forall_mem_append.mpr ⟨before.rows, fun pair member => ?_⟩
        obtain rfl := List.mem_singleton.mp member
        exact carried_upsert taken indexedAt now w.index
      · refine List.forall_mem_append.mpr ⟨before.wrote, fun pair member => ?_⟩
        obtain rfl := List.mem_singleton.mp member
        exact ⟨_, List.mem_cons_self, indexedAt, column, taken, rfl⟩
    · intro _ w underway
      exact ih (by rw [all, List.append_assoc]; rfl) underway

/-- No row of the event is beyond the records. -/
def Trimmed (ev : Event) (count : Nat) (w : World) : Prop :=
  ∀ key row, w.index.vectorRecords.lookup key = some row → row.eventId = ev.eventId →
    ∀ i, row.chunkIndex = some i → i < count

omit stable keeps in
theorem Trimmed.spared {count : Nat} {statement : Statement} (trimmed : Trimmed ev count w)
    (spares : Index.Spares statement) (now : Time) : Trimmed ev count (w.exec now statement) := by
  unfold Trimmed World.exec
  rw [Index.vectorRecords_exec spares]
  exact trimmed

omit stable keeps in
theorem trimmed_delete (ev : Event) (count : Nat) (now : Time) (w : World) :
    Trimmed ev count (w.exec now (.deleteOrphanChunks ev.eventId count)) := by
  intro key row found same i numbered
  have found' : (w.index.vectorRecords.deleteWhere _).lookup key = some row := found
  rw [Table.lookup_deleteWhere] at found'
  have stays := (Option.filter_eq_some_iff.mp found').2
  rw [same, numbered] at stays
  simpa using stays

/-- **The rule for `store`**: what refers to an incident is sent when the incident is there. -/
theorem wp_store_backed (distinct : Distinct pairs) (start : inv w) :
    (store config ev pairs).wp (handlerMachine around kept)
      (Prog.Ends kept fun _ after => inv after ∧ Stored config ev pairs after ∧ Linked ev after) w := by
  have spared : ∀ {w now statement}, Underway inv config ev pairs w → w.clock ≤ now →
      Issued config ev pairs statement → Backed w.index statement → Index.Spares statement →
      Underway inv config ev pairs (w.exec now statement) :=
    fun here later ours backed spares => here.exec
      (stable _ _ _ here.inv later ours backed fun _ pair member => here.wrote pair member)
      fun pair member => (here.rows pair member).spared spares _
  refine Prog.wp_seq (fun _ => Underway inv config ev [])
    (wp_execute inv start
      (fun w now here later => stable w now _ here later rfl trivial (by simp)) keeps
      fun w now here later => ⟨stable w now _ here later rfl trivial (by simp), isSome_upsert _ _ _ _,
        by simp, by simp⟩) ?_
  intro _ w underway
  refine Prog.wp_seq (fun _ => Underway inv config ev pairs)
    (wp_upsertRecords stable keeps rfl distinct underway) ?_
  intro _ w underway
  have deleted : ∀ w now, Underway inv config ev pairs w → w.clock ≤ now →
      Underway inv config ev pairs (w.exec now (.deleteOrphanChunks ev.eventId pairs.length)) :=
    fun w now here later => here.exec (stable w now _ here.inv later ⟨rfl, rfl⟩ trivial (by simp))
      fun pair member => (here.rows pair member).delete (distinct.below pair member) _ _
  refine Prog.wp_seq (fun _ after => Underway inv config ev pairs after ∧
      Trimmed ev pairs.length after)
    (wp_execute _ underway deleted (fun w here => keeps w here.inv)
      fun w now here later => ⟨deleted w now here later, trimmed_delete ev _ now w⟩) ?_
  rintro _ w both
  refine Prog.wp_seq (fun _ after => (Underway inv config ev pairs after ∧
      Trimmed ev pairs.length after) ∧ Ensured ev after)
    (wp_ensureIncident_backed both (fun w now statement here later ours backed => ?_)
      fun w here => keeps w here.1.inv) ?_
  · have spares : Index.Spares statement := by
      obtain ⟨incidentId, -, -, rfl | rfl⟩ := ours <;> trivial
    exact ⟨spared here.1 later (issued_of_ensures ours) backed spares, here.2.spared spares now⟩
  rintro _ w ⟨both, ensured⟩
  refine Prog.wp_seq (fun _ after => ((Underway inv config ev pairs after ∧
      Trimmed ev pairs.length after) ∧ Ensured ev after) ∧ Linked ev after)
    (wp_linkEvent ⟨both, ensured⟩ (fun w now incidentId here later named full => ?_)
      fun w here => keeps w here.1.1.inv) ?_
  · exact ⟨⟨spared here.1.1 later ⟨named, full, rfl⟩ (here.2 incidentId named full).1 trivial,
      @Trimmed.spared _ _ _ (.incidentEvent incidentId ev.eventId) here.1.2 trivial now⟩, here.2⟩
  rintro _ w ⟨⟨both, ensured⟩, linked⟩
  have completed : ∀ w now, ((Underway inv config ev pairs w ∧ Trimmed ev pairs.length w) ∧
      Ensured ev w) ∧ Linked ev w → w.clock ≤ now →
      ((Underway inv config ev pairs (w.exec now (.completeIndexing ev.eventId)) ∧
        Trimmed ev pairs.length (w.exec now (.completeIndexing ev.eventId))) ∧
        Ensured ev (w.exec now (.completeIndexing ev.eventId))) ∧
        Linked ev (w.exec now (.completeIndexing ev.eventId)) :=
    fun w now here later => ⟨⟨⟨spared here.1.1.1 later rfl trivial trivial,
      @Trimmed.spared _ _ _ (.completeIndexing ev.eventId) here.1.1.2 trivial now⟩, here.1.2⟩,
      here.2⟩
  refine Prog.wp_seq (fun _ after => inv after ∧ Stored config ev pairs after ∧ Linked ev after)
    (wp_execute _ ⟨⟨both, ensured⟩, linked⟩ completed (fun w here => keeps w here.1.1.1.inv) ?_) ?_
  · intro w now here later
    obtain ⟨⟨⟨underway, trimmed⟩, ensured⟩, linked⟩ := completed w now here later
    refine ⟨underway.inv, ⟨underway.rows, trimmed, ensured, ?_⟩, linked⟩
    obtain ⟨receipt, found⟩ := Option.isSome_iff_exists.mp here.1.1.1.registered
    refine ⟨Index.complete now receipt, ?_, rfl⟩
    show (w.index.eventIndexing.modify _ _).lookup _ = _
    rw [Table.lookup_modify, if_pos rfl, found]
    rfl
  · intro answer w holds
    cases answer with
    | none => exact keeps w holds.1
    | some completed => exact holds

end Store

/-- **The rule for `store`.** -/
theorem wp_store {inv : World → Prop} (stable : ∀ w now statement, inv w → w.clock ≤ now →
      Issued config ev pairs statement →
      (statement = .completeIndexing ev.eventId → ∀ pair ∈ pairs, Wrote config pair w) →
      inv (w.exec now statement))
    (keeps : ∀ w, inv w → kept w) (distinct : Distinct pairs) (start : inv w) :
    (store config ev pairs).wp (handlerMachine around kept)
      (Prog.Ends kept fun _ after => inv after ∧ Stored config ev pairs after) w := by
  refine Prog.wp_mono ?_ (wp_store_backed (fun w now statement here later ours _ =>
    stable w now statement here later ours) keeps distinct start)
  intro outcome after ends
  cases outcome with
  | error exn => exact ends
  | ok _ => exact ⟨ends.1, ends.2.1⟩

/-! ### Records of an event -/

/-- The records are numbered from nought on. -/
theorem map_chunkIndex (ev : Event) (stamp : Time) :
    (recordsForEvent ev stamp).map VectorRecord.chunkIndex =
      List.range (recordsForEvent ev stamp).length := by
  unfold recordsForEvent
  rw [List.map_map, List.length_map, List.length_zipIdx, List.range_eq_range']
  exact List.zipIdx_map_snd 0 _

theorem record_of_mem {rec : VectorRecord} {stamp : Time}
    (member : rec ∈ recordsForEvent ev stamp) :
    ∃ chunk, (chunk, rec.chunkIndex) ∈ (chunkText ev.text).zipIdx ∧
      rec = ev.record stamp rec.chunkIndex chunk := by
  obtain ⟨⟨chunk, i⟩, inside, rfl⟩ := List.mem_map.mp member
  exact ⟨chunk, inside, rfl⟩

theorem distinct_records {stamp : Time} {vectors : List Embedding}
    (same : vectors.length = (recordsForEvent ev stamp).length) :
    Distinct ((recordsForEvent ev stamp).zip vectors) := by
  have firsts : ((recordsForEvent ev stamp).zip vectors).map Prod.fst = recordsForEvent ev stamp :=
    List.map_fst_zip (Nat.le_of_eq same.symm)
  have count : ((recordsForEvent ev stamp).zip vectors).length =
      (recordsForEvent ev stamp).length := by
    rw [List.length_zip, same, Nat.min_self]
  constructor
  · have keys : ((recordsForEvent ev stamp).zip vectors).map (fun pair => pair.1.chunkId) =
        (List.range (recordsForEvent ev stamp).length).map (chunkId ev.eventId) := by
      rw [← map_chunkIndex, List.map_map]
      conv_rhs => rw [← firsts, List.map_map]
      refine List.map_congr_left fun pair member => ?_
      obtain ⟨chunk, -, eq⟩ := record_of_mem (List.of_mem_zip member).1
      rw [eq]
      rfl
    rw [keys]
    exact List.nodup_range.map fun i j eq => (chunkId_inj eq).2
  · intro pair member
    rw [count]
    have inside : pair.1.chunkIndex ∈ (recordsForEvent ev stamp).map VectorRecord.chunkIndex :=
      List.mem_map_of_mem (List.of_mem_zip member).1
    rw [map_chunkIndex] at inside
    exact List.mem_range.mp inside

end Freshet.Pipeline
