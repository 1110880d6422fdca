/-
**When the legacy section succeeds**, statement by statement.

Each statement is characterised by what it needs of the volume and by the volume that it leaves
(`…_eq_ok`). The updates of the ids need a service for every raw id, and that no row has the new key
already (`Qualifiable`); what the foreign keys ask for is there again once the orphans are deleted.

* **`legacySection_eq_ok`** — the section up to its second `DO` block.
* **`Constrained.qualify_eq_ok`** — the second block.
-/

import Freshet.Db.Init

namespace Freshet.Db.Volume

open Freshet.Lib Freshet.Pipeline

/-! ### The columns, the numbers and the arrays -/

section Steps

variable {engine : Engine} {db after : Volume}

/-- What `ADD COLUMN` needs: that the texts can be parsed, where that column is new. -/
def Parsable (engine : Engine) (db : Volume) : Prop :=
  .textTsv ∉ db.vectorColumns → ∀ v ∈ db.vectorRecords, engine.fitsTsvector v.text = true

theorem addVectorColumn_eq_ok {column : VectorColumn} :
    addVectorColumn engine db column = .ok after ↔ (column = .textTsv → db.Parsable engine) ∧
      after = { db with vectorColumns := added db.vectorColumns [column] } := by
  unfold addVectorColumn
  by_cases there : column ∈ db.vectorColumns
  · have same : added db.vectorColumns [column] = db.vectorColumns :=
      added_known (List.forall_mem_singleton.mpr there)
    rw [if_pos there, same, Except.ok.injEq]
    exact ⟨fun done => ⟨fun last missing => absurd (last ▸ there) missing, done.symm⟩,
      fun both => both.2.symm⟩
  · rw [if_neg there, added_new there, added_nil]
    by_cases fails : column = .textTsv ∧ ¬ ∀ v ∈ db.vectorRecords, engine.fitsTsvector v.text = true
    · rw [if_pos fails]
      obtain ⟨rfl, fails⟩ := fails
      constructor
      · intro done
        cases done
      · rintro ⟨parsable, -⟩
        exact absurd (parsable rfl there) fails
    · rw [if_neg fails, Except.ok.injEq]
      refine ⟨fun done => ⟨fun last _ => ?_, done.symm⟩, fun both => both.2.symm⟩
      by_contra unfit
      exact fails ⟨last, unfit⟩

theorem addVectorColumns_eq_ok {columns : List VectorColumn} :
    columns.foldlM (addVectorColumn engine) db = .ok after ↔
      (.textTsv ∈ columns → db.Parsable engine) ∧
        after = { db with vectorColumns := added db.vectorColumns columns } := by
  induction columns generalizing db with
  | nil =>
    rw [List.foldlM_nil]
    constructor
    · intro done
      obtain rfl := Except.ok.inj done
      exact ⟨fun member => absurd member List.not_mem_nil, by rw [added_nil]⟩
    · rintro ⟨-, rfl⟩
      rw [added_nil]
      rfl
  | cons column columns ih =>
    rw [List.foldlM_cons, bind_eq_ok, added_cons]
    simp only [addVectorColumn_eq_ok]
    constructor
    · rintro ⟨_, ⟨here, rfl⟩, done⟩
      obtain ⟨later, rfl⟩ := ih.mp done
      refine ⟨fun member missing => ?_, rfl⟩
      by_cases last : column = .textTsv
      · exact here last missing
      · refine later ((List.mem_cons.mp member).resolve_left (Ne.symm last)) fun there => ?_
        rcases mem_added.mp there with old | new
        · exact missing old
        · exact last (List.mem_singleton.mp new).symm
    · rintro ⟨all, rfl⟩
      refine ⟨_, ⟨fun last => all (List.mem_cons.mpr (Or.inl last.symm)), rfl⟩, ih.mpr ⟨?_, rfl⟩⟩
      exact fun member missing => all (List.mem_cons_of_mem _ member) fun there =>
        missing (mem_added.mpr (Or.inl there))

theorem addIncidentColumns_eq {columns : List IncidentColumn} :
    columns.foldl addIncidentColumn db =
      { db with incidentColumns := added db.incidentColumns columns } := by
  induction columns generalizing db with
  | nil => rw [List.foldl_nil, added_nil]
  | cons column columns ih =>
    have first : addIncidentColumn db column =
        { db with incidentColumns := added db.incidentColumns [column] } := by
      unfold addIncidentColumn
      by_cases there : column ∈ db.incidentColumns
      · rw [if_pos there, added_known (List.forall_mem_singleton.mpr there)]
      · rw [if_neg there, added_new there, added_nil]
    rw [List.foldl_cons, ih, first, added_cons db.incidentColumns column columns]

/-- The number of a chunk, or none where the cast raises. -/
def numbered (engine : Engine) (v : LegacyChunk) : LegacyChunk :=
  match v.chunkIndex with
  | some _ => v
  | none => { v with chunkIndex := (legacyChunkIndex engine.isDigit v.chunkId).toOption }

theorem numbered_of_some {v : LegacyChunk} (number : v.chunkIndex ≠ none) :
    numbered engine v = v := by
  obtain ⟨n, number⟩ := Option.ne_none_iff_exists'.mp number
  unfold numbered
  simp only [number]

/-- What the cast needs: a number that is an `integer`. -/
def Numberable (engine : Engine) (v : LegacyChunk) : Prop :=
  v.chunkIndex = none → ∃ n, legacyChunkIndex engine.isDigit v.chunkId = .ok n

theorem numberChunk_eq_ok {v v' : LegacyChunk} :
    numberChunk engine v = .ok v' ↔ Numberable engine v ∧ v' = numbered engine v := by
  unfold numberChunk Numberable numbered
  cases v.chunkIndex with
  | some n =>
    constructor
    · intro done
      exact ⟨nofun, (Except.ok.inj done).symm⟩
    · rintro ⟨-, rfl⟩
      rfl
  | none =>
    cases legacyChunkIndex engine.isDigit v.chunkId with
    | error e =>
      constructor
      · intro done
        cases done
      · rintro ⟨able, -⟩
        obtain ⟨n, wrong⟩ := able rfl
        cases wrong
    | ok n =>
      constructor
      · intro done
        exact ⟨fun _ => ⟨n, rfl⟩, (Except.ok.inj done).symm⟩
      · rintro ⟨-, rfl⟩
        rfl

theorem numberChunks_eq_ok : db.numberChunks engine = .ok after ↔
    (∀ v ∈ db.vectorRecords, Numberable engine v) ∧
      after = { db with vectorRecords := db.vectorRecords.map (numbered engine) } := by
  unfold numberChunks
  rw [map_eq_ok]
  simp only [mapM_eq_ok fun v v' => @numberChunk_eq_ok engine v v']
  constructor
  · rintro ⟨rows, ⟨able, rfl⟩, rfl⟩
    exact ⟨able, rfl⟩
  · rintro ⟨able, rfl⟩
    exact ⟨_, ⟨able, rfl⟩, rfl⟩

/-- The elements that are not NULL. -/
def elements (pairs : List (String × Option String)) : List (String × String) :=
  pairs.filterMap fun pair => pair.2.map fun element => (pair.1, element)

theorem insertMissing_eq_ok {rows out : List (String × String)}
    {pairs : List (String × Option String)} :
    insertMissing rows pairs = .ok out ↔
      (∀ pair ∈ pairs, pair.2 ≠ none) ∧ out = added rows (elements pairs) := by
  induction pairs generalizing rows with
  | nil =>
    have none : elements [] = [] := rfl
    rw [none, added_nil]
    constructor
    · intro done
      exact ⟨fun pair member => absurd member List.not_mem_nil, (Except.ok.inj done).symm⟩
    · rintro ⟨-, rfl⟩
      rfl
  | cons pair pairs ih =>
    obtain ⟨id, element⟩ := pair
    rw [List.forall_mem_cons]
    cases element with
    | none =>
      constructor
      · intro done
        cases done
      · rintro ⟨⟨wrong, -⟩, -⟩
        exact absurd rfl wrong
    | some element =>
      have first : elements ((id, some element) :: pairs) = (id, element) :: elements pairs := rfl
      have step : added (if (id, element) ∈ rows then rows else rows ++ [(id, element)])
          (elements pairs) = added rows ((id, element) :: elements pairs) := by
        by_cases there : (id, element) ∈ rows
        · rw [if_pos there, added_there there]
        · rw [if_neg there, added_new there]
      unfold insertMissing
      rw [ih, step, first]
      exact ⟨fun both => ⟨⟨Option.some_ne_none _, both.1⟩, both.2⟩,
        fun both => ⟨both.1.2, both.2⟩⟩

/-- What the arrays hold, if they are there. -/
def arrayPairs (db : Volume) (array : LegacyIncident → Option (List (Option String))) :
    List (String × String) :=
  if .services ∈ db.incidentColumns then elements (unnest array db.incidents) else []

/-- An incident after the first `DO` block. -/
def cleared (db : Volume) (i : LegacyIncident) : LegacyIncident :=
  if .services ∈ db.incidentColumns then { i with services := none, eventIds := none } else i

/-- What the first `DO` block needs: both arrays or none, and no NULL in them. -/
def Unnestable (db : Volume) : Prop :=
  .services ∈ db.incidentColumns → .eventIds ∈ db.incidentColumns ∧
    ∀ i ∈ db.incidents, none ∉ i.services.getD [] ∧ none ∉ i.eventIds.getD []

/-- The columns of `incidents` after the first `DO` block. -/
def clearedColumns (columns : List IncidentColumn) : List IncidentColumn :=
  if .services ∈ columns then columns.filter fun c => c ≠ .services ∧ c ≠ .eventIds else columns

theorem forall_mem_unnest {array : LegacyIncident → Option (List (Option String))}
    {incidents : List LegacyIncident} : (∀ pair ∈ unnest array incidents, pair.2 ≠ none) ↔
      ∀ i ∈ incidents, none ∉ (array i).getD [] := by
  unfold unnest
  constructor
  · intro every i member inside
    refine every (i.incidentId, none) (List.mem_flatMap.mpr ⟨i, member, ?_⟩) rfl
    exact List.mem_map.mpr ⟨none, inside, rfl⟩
  · rintro every pair member missing
    obtain ⟨i, among, inside⟩ := List.mem_flatMap.mp member
    obtain ⟨element, there, rfl⟩ := List.mem_map.mp inside
    obtain rfl : element = none := missing
    exact every i among there

theorem unnestArrays_eq_ok : db.unnestArrays = .ok after ↔ db.Unnestable ∧
    after = { db with
      incidentServices := added db.incidentServices (db.arrayPairs LegacyIncident.services)
      incidentEvents := added db.incidentEvents (db.arrayPairs LegacyIncident.eventIds)
      incidentColumns := clearedColumns db.incidentColumns
      incidents := db.incidents.map db.cleared } := by
  unfold unnestArrays Unnestable arrayPairs cleared clearedColumns
  by_cases there : .services ∈ db.incidentColumns
  · simp only [if_pos there, bind_eq_ok, insertMissing_eq_ok, forall_mem_unnest]
    constructor
    · rintro ⟨_, ⟨services, rfl⟩, done⟩
      split_ifs at done with missing
      obtain ⟨_, inserted, done⟩ := bind_eq_ok.mp done
      obtain ⟨events, rfl⟩ := insertMissing_eq_ok.mp inserted
      refine ⟨fun _ => ⟨missing, fun i member => ⟨services i member, ?_⟩⟩,
        (Except.ok.inj done).symm⟩
      exact forall_mem_unnest.mp events i member
    · rintro ⟨able, rfl⟩
      obtain ⟨both, every⟩ := able there
      refine ⟨_, ⟨fun i member => (every i member).1, rfl⟩, ?_⟩
      rw [if_neg (not_not.mpr both)]
      refine bind_eq_ok.mpr ⟨_, insertMissing_eq_ok.mpr ⟨?_, rfl⟩, rfl⟩
      exact forall_mem_unnest.mpr fun i member => (every i member).2
  · simp only [if_neg there, Except.ok.injEq, List.map_id', added_nil]
    exact ⟨fun done => ⟨fun wrong => absurd wrong there, done.symm⟩, fun both => both.2.symm⟩

/-! ### What the ids become -/

theorem isRaw_iff {id : String} : isRaw id = true ↔ ':' ∉ id.toList := decide_eq_true_iff

theorem isRaw_qualified (service id : String) : isRaw (qualified service id) = false := by
  refine decide_eq_false (not_not.mpr ?_)
  unfold qualified
  rw [String.toList_append, String.toList_append]
  exact List.mem_append_left _ (List.mem_append_right _ List.mem_cons_self)

theorem qualified_ne {service id id' : String} (raw : isRaw id' = true) :
    qualified service id ≠ id' := by
  intro same
  rw [← same, isRaw_qualified] at raw
  cases raw

/-- **The service can be told from an id without a colon.** -/
theorem qualified_inj {service service' id id' : String} (raw : isRaw id = true)
    (raw' : isRaw id' = true) (same : qualified service id = qualified service' id') : id = id' := by
  have letters := congrArg String.toList same
  unfold qualified at letters
  simp only [String.toList_append, List.append_assoc] at letters
  exact String.toList_injective
    (append_separator_inj (isRaw_iff.mp raw) (isRaw_iff.mp raw') letters).2

/-- The form `service:id`. -/
def HasService (id : String) : Prop := ∃ service rest, id = service ++ ":" ++ rest

theorem hasService_of_not_raw {id : String} (named : isRaw id = false) : HasService id := by
  have colon : ':' ∈ id.toList := not_not.mp (of_decide_eq_false named)
  obtain ⟨before, after, split⟩ := List.append_of_mem colon
  refine ⟨String.ofList before, String.ofList after, String.toList_injective ?_⟩
  simp only [String.toList_append, String.toList_ofList, split, List.append_assoc]
  rfl

/-- An incident after the update. -/
def withService (i : LegacyIncident) : LegacyIncident :=
  { i with incidentId := qualified (i.primaryService.getD "") i.incidentId }

theorem qualifyIncident_eq_ok {i i' : LegacyIncident} :
    qualifyIncident i = .ok i' ↔ i.primaryService ≠ none ∧ i' = withService i := by
  unfold qualifyIncident withService
  cases i.primaryService with
  | none =>
    constructor
    · intro done
      cases done
    · rintro ⟨wrong, -⟩
      exact absurd rfl wrong
  | some service =>
    constructor
    · intro done
      exact ⟨Option.some_ne_none _, (Except.ok.inj done).symm⟩
    · rintro ⟨-, rfl⟩
      rfl

/-- The incidents can be updated where each has a service, and none has the new id already. -/
theorem rekey_incidents_eq_ok {incidents out : List LegacyIncident}
    (nodup : (incidents.map LegacyIncident.incidentId).Nodup) :
    rekey LegacyIncident.incidentId (fun i => isRaw i.incidentId) qualifyIncident
        SqlError.uniqueViolation [] incidents = .ok out ↔
      (∀ i ∈ incidents, isRaw i.incidentId = true → ∃ service, i.primaryService = some service ∧
        qualified service i.incidentId ∉ incidents.map LegacyIncident.incidentId) ∧
      out = incidents.map (rekeyed (fun i => isRaw i.incidentId) withService) := by
  have spec := @rekey_eq_ok _ _ _ _ LegacyIncident.incidentId (fun i => isRaw i.incidentId)
    qualifyIncident SqlError.uniqueViolation _ withService (fun _ _ => qualifyIncident_eq_ok) []
    incidents out nodup fun a _ b _ raw raw' =>
      ⟨qualified_ne raw', fun same => qualified_inj raw raw' same⟩
  rw [List.map_nil, List.nil_append] at spec
  refine spec.trans (and_congr_left fun _ => forall₂_congr fun i member => ?_)
  refine imp_congr_right fun raw => ?_
  constructor
  · rintro ⟨some', free⟩
    obtain ⟨service, named⟩ := Option.ne_none_iff_exists'.mp some'
    refine ⟨service, named, fun there => ?_⟩
    obtain ⟨j, among, same⟩ := List.mem_map.mp there
    refine free j among (same ▸ isRaw_qualified service _) ?_
    unfold withService
    rw [named, same]
    rfl
  · rintro ⟨service, named, free⟩
    refine ⟨named ▸ Option.some_ne_none _, fun j among _ same => free ?_⟩
    unfold withService at same
    rw [named] at same
    exact List.mem_map.mpr ⟨j, among, same.symm⟩

/-- Rows of two columns can be updated where none is the new row already. -/
theorem rekey_rows_eq_ok {rows out : List (String × String)} {service : String × String → String}
    (nodup : rows.Nodup) :
    rekey id (fun row => isRaw row.1) (fun row => .ok (qualified (service row) row.1, row.2))
        SqlError.uniqueViolation [] rows = .ok out ↔
      (∀ row ∈ rows, isRaw row.1 = true → (qualified (service row) row.1, row.2) ∉ rows) ∧
      out = rows.map
        (rekeyed (fun row => isRaw row.1) fun row => (qualified (service row) row.1, row.2)) := by
  have apart : ∀ a ∈ [] ++ rows, ∀ b ∈ [] ++ rows, isRaw a.1 = true → isRaw b.1 = true →
      id (qualified (service a) a.1, a.2) ≠ id b ∧
        (id (qualified (service a) a.1, a.2) = id (qualified (service b) b.1, b.2) →
          id a = id b) := by
    intro a _ b _ raw raw'
    constructor
    · intro same
      exact qualified_ne raw' (Prod.ext_iff.mp same).1
    · intro same
      obtain ⟨ids, others⟩ := Prod.mk.inj same
      exact Prod.ext (qualified_inj raw raw' ids) others
  have spec := @rekey_eq_ok _ _ _ _ id (fun row : String × String => isRaw row.1)
    (fun row => .ok (qualified (service row) row.1, row.2)) SqlError.uniqueViolation (fun _ => True)
    (fun row => (qualified (service row) row.1, row.2))
    (fun row row' => by rw [true_and, Except.ok.injEq, eq_comm]) [] rows out
    (by rw [List.map_id]; exact nodup) apart
  rw [List.map_nil, List.nil_append] at spec
  refine spec.trans (and_congr_left fun _ => forall₂_congr fun row member => ?_)
  refine imp_congr_right fun raw => ?_
  constructor
  · rintro ⟨-, free⟩ there
    exact free _ there (isRaw_qualified _ _) rfl
  · refine fun free => ⟨trivial, fun other among _ same => free ?_⟩
    obtain rfl : (qualified (service row) row.1, row.2) = other := same
    exact among

/-- **What the four updates need**: a service for each id that is raw, and no row that has the new key
already. -/
structure Qualifiable (db : Volume) : Prop where
  incidents : ∀ i ∈ db.incidents, isRaw i.incidentId = true → ∃ service,
    i.primaryService = some service ∧
      qualified service i.incidentId ∉ db.incidents.map LegacyIncident.incidentId
  services : ∀ row ∈ db.incidentServices, isRaw row.1 = true →
    qualifyService row ∉ db.incidentServices
  events : ∀ row ∈ db.incidentEvents, isRaw row.1 = true → qualifyEvent row ∉ db.incidentEvents

/-- The four tables after the updates. -/
def qualifiedRows (db : Volume) : Volume :=
  { db with
    vectorRecords := db.vectorRecords.map qualifyChunk
    incidents := db.incidents.map (rekeyed (fun i => isRaw i.incidentId) withService)
    incidentServices := db.incidentServices.map (rekeyed (fun row => isRaw row.1) qualifyService)
    incidentEvents := db.incidentEvents.map (rekeyed (fun row => isRaw row.1) qualifyEvent) }

theorem qualifyIds_eq_ok (incidents : (db.incidents.map LegacyIncident.incidentId).Nodup)
    (services : db.incidentServices.Nodup) (events : db.incidentEvents.Nodup) :
    db.qualifyIds = .ok after ↔ db.Qualifiable ∧ after = db.qualifiedRows := by
  have first : ∀ {out}, _ ↔ _ := fun {out} => @rekey_incidents_eq_ok db.incidents out incidents
  have second : ∀ {out}, _ ↔ _ := fun {out} => @rekey_rows_eq_ok db.incidentServices out
    (fun row => row.2) services
  have third : ∀ {out}, _ ↔ _ := fun {out} => @rekey_rows_eq_ok db.incidentEvents out
    (fun row => splitPart row.2) events
  unfold qualifyIds
  constructor
  · intro done
    obtain ⟨_, here, done⟩ := bind_eq_ok.mp done
    obtain ⟨_, here', done⟩ := bind_eq_ok.mp done
    obtain ⟨_, here'', done⟩ := bind_eq_ok.mp done
    obtain ⟨named, rfl⟩ := first.mp here
    obtain ⟨free, rfl⟩ := second.mp here'
    obtain ⟨free', rfl⟩ := third.mp here''
    exact ⟨⟨named, free, free'⟩, (Except.ok.inj done).symm⟩
  · rintro ⟨able, rfl⟩
    exact bind_eq_ok.mpr ⟨_, first.mpr ⟨able.incidents, rfl⟩, bind_eq_ok.mpr
      ⟨_, second.mpr ⟨able.services, rfl⟩, bind_eq_ok.mpr
        ⟨_, third.mpr ⟨able.events, rfl⟩, rfl⟩⟩⟩

/-- The volume after the second `DO` block, where it has anything to do. -/
def qualifiedVolume (db : Volume) : Volume :=
  { db.deleteNameless.qualifiedRows.deleteOrphans with servicesFkey := true, eventsFkey := true }

theorem Constrained.qualify_eq_ok (constrained : db.Constrained) : db.qualify = .ok after ↔
    (db.hasRaw = true → db.deleteNameless.Qualifiable) ∧
      after = if db.hasRaw = true then db.qualifiedVolume else db := by
  unfold qualify
  cases raw : db.hasRaw with
  | false =>
    simp only [if_neg Bool.false_ne_true, Except.ok.injEq]
    exact ⟨fun done => ⟨fun wrong => absurd wrong Bool.false_ne_true, done.symm⟩,
      fun both => both.2.symm⟩
  | true =>
    have kept : (db.deleteNameless.incidents.map LegacyIncident.incidentId).Nodup :=
      constrained.incidentIds.sublist (List.filter_sublist.map _)
    have dropped : db.deleteNameless.dropFkeys =
        .ok { db.deleteNameless with servicesFkey := false, eventsFkey := false } := by
      unfold dropFkeys
      rw [show db.deleteNameless.servicesFkey = true from constrained.servicesFkey.1,
        show db.deleteNameless.eventsFkey = true from constrained.eventsFkey.1]
      rfl
    have referring : ∀ mid : Volume, mid.deleteOrphans.addFkeys =
        .ok { mid.deleteOrphans with servicesFkey := true, eventsFkey := true } := by
      intro mid
      refine if_pos ⟨fun row member => ?_, fun row member => ?_⟩
      · exact of_decide_eq_true (List.mem_filter.mp member).2
      · exact of_decide_eq_true (List.mem_filter.mp member).2
    rw [if_pos rfl, dropped]
    simp only [if_true, forall_const]
    have ids := fun {out} => @qualifyIds_eq_ok
      { db.deleteNameless with servicesFkey := false, eventsFkey := false } out kept
      (constrained.services.filter _) (constrained.events.filter _)
    constructor
    · intro done
      obtain ⟨_, same, done⟩ := bind_eq_ok.mp done
      obtain rfl := Except.ok.inj same
      obtain ⟨_, updated, done⟩ := bind_eq_ok.mp done
      obtain ⟨able, rfl⟩ := ids.mp updated
      rw [referring] at done
      exact ⟨⟨able.incidents, able.services, able.events⟩, (Except.ok.inj done).symm⟩
    · rintro ⟨able, rfl⟩
      refine bind_eq_ok.mpr ⟨_, rfl, bind_eq_ok.mpr
        ⟨_, ids.mpr ⟨⟨able.incidents, able.services, able.events⟩, rfl⟩, ?_⟩⟩
      rw [referring]
      rfl

/-! ### The whole section -/

/-- The volume before the first `DO` block. -/
def columned (engine : Engine) (db : Volume) : Volume :=
  { db with
    vectorColumns := added db.vectorColumns vectorAdditions
    vectorRecords := db.vectorRecords.map (numbered engine)
    incidentColumns := added db.incidentColumns incidentAdditions }

/-- The volume after it. -/
def unnested (db : Volume) : Volume :=
  { db with
    incidentServices := added db.incidentServices (db.arrayPairs LegacyIncident.services)
    incidentEvents := added db.incidentEvents (db.arrayPairs LegacyIncident.eventIds)
    incidentColumns := clearedColumns db.incidentColumns
    incidents := db.incidents.map db.cleared }

/-- The arrays are not among the columns that are added. -/
theorem mem_columned {column : IncidentColumn} (array : column ∉ incidentAdditions) :
    column ∈ (db.columned engine).incidentColumns ↔ column ∈ db.incidentColumns :=
  mem_added.trans (or_iff_left array)

theorem unnestable_columned : (db.columned engine).Unnestable ↔ db.Unnestable := by
  unfold Unnestable
  rw [mem_columned (by decide), mem_columned (by decide)]
  rfl

theorem arrayPairs_columned (array : LegacyIncident → Option (List (Option String))) :
    (db.columned engine).arrayPairs array = db.arrayPairs array := by
  unfold arrayPairs
  simp only [mem_columned (show IncidentColumn.services ∉ incidentAdditions by decide)]
  rfl

/-- **The section goes through its steps.** -/
theorem legacySection_eq_ok : db.legacySection engine = .ok after ↔ db.Parsable engine ∧
    (∀ v ∈ db.vectorRecords, Numberable engine v) ∧ db.Unnestable ∧
      (db.columned engine).unnested.qualify = .ok after := by
  unfold legacySection
  constructor
  · intro done
    obtain ⟨_, columns, done⟩ := bind_eq_ok.mp done
    obtain ⟨parsable, rfl⟩ := addVectorColumns_eq_ok.mp columns
    obtain ⟨_, numbers, done⟩ := bind_eq_ok.mp done
    rw [addIncidentColumns_eq] at numbers
    obtain ⟨able, rfl⟩ := numberChunks_eq_ok.mp numbers
    obtain ⟨_, arrays, done⟩ := bind_eq_ok.mp done
    obtain ⟨unnestable, rfl⟩ := unnestArrays_eq_ok.mp arrays
    exact ⟨parsable (by decide), able, unnestable_columned.mp unnestable, done⟩
  · rintro ⟨parsable, able, unnestable, done⟩
    refine bind_eq_ok.mpr ⟨_, addVectorColumns_eq_ok.mpr ⟨fun _ => parsable, rfl⟩, ?_⟩
    refine bind_eq_ok.mpr ⟨db.columned engine, ?_, ?_⟩
    · rw [addIncidentColumns_eq]
      exact numberChunks_eq_ok.mpr ⟨able, rfl⟩
    · exact bind_eq_ok.mpr ⟨_, unnestArrays_eq_ok.mpr ⟨unnestable_columned.mpr unnestable, rfl⟩, done⟩

end Steps

end Freshet.Db.Volume
