/-
**The legacy section goes through or it does not.**

Nothing is checked before the ids are put together, so the section raises where an id has no service or
two rows become one (`Unclashing`). Where it raises nothing, every id has its service, the foreign keys
hold, and nothing is left to do. But the incidents without a primary service are deleted before the
chunks get their ids, so one may be gone that a chunk names afterwards (`Evident`).

* **`safe_iff`** — when it goes through, and so leaves a volume in order that a second run leaves alone.
* **`nameless_incident_fails`** — an incident with chunks but no primary service.
-/

import Freshet.Db.LegacySteps

namespace Freshet.Db

open Freshet.Lib Freshet.Pipeline

namespace Volume

section Safe

variable {engine : Engine} {db after : Volume}

/-! ### What is held -/

/-- The rows of `incident_services` once the arrays are unnested. -/
def servicePairs (db : Volume) : List (String × String) :=
  db.incidentServices ++ db.arrayPairs LegacyIncident.services

/-- The rows of `incident_events`. -/
def eventPairs (db : Volume) : List (String × String) :=
  db.incidentEvents ++ db.arrayPairs LegacyIncident.eventIds

/-- **The incident is not deleted**: it has a primary service, or a chunk names it. -/
def Held (db : Volume) (id : String) : Prop :=
  ∃ i ∈ db.incidents, i.incidentId = id ∧ (i.primaryService ≠ none ∨ db.mentions id = true)

theorem cleared_incidentId (i : LegacyIncident) : (db.cleared i).incidentId = i.incidentId := by
  unfold cleared
  split_ifs <;> rfl

theorem cleared_primaryService (i : LegacyIncident) :
    (db.cleared i).primaryService = i.primaryService := by
  unfold cleared
  split_ifs <;> rfl

theorem map_cleared (incidents : List LegacyIncident) :
    (incidents.map db.cleared).map LegacyIncident.incidentId =
      incidents.map LegacyIncident.incidentId := by
  rw [List.map_map]
  exact List.map_congr_left fun i _ => cleared_incidentId i

theorem numbered_incidentId (v : LegacyChunk) : (numbered engine v).incidentId = v.incidentId := by
  unfold numbered
  split <;> rfl

theorem numbered_service (v : LegacyChunk) : (numbered engine v).service = v.service := by
  unfold numbered
  split <;> rfl

/-- The volume before the second `DO` block has the same incidents. -/
theorem mentions_arranged (id : String) :
    (db.columned engine).unnested.mentions id = db.mentions id := by
  show (db.vectorRecords.map (numbered engine)).any _ = _
  unfold mentions
  rw [List.any_map]
  refine List.any_congr rfl fun v => ?_
  rw [Function.comp_apply, numbered_incidentId]

theorem refers_arrayPairs (array : LegacyIncident → Option (List (Option String))) :
    Refers (db.arrayPairs array) db.incidents := by
  intro row member
  unfold arrayPairs at member
  split_ifs at member with there
  · obtain ⟨⟨id, element⟩, inside, made⟩ := List.mem_filterMap.mp member
    obtain ⟨value, -, rfl⟩ := Option.map_eq_some_iff.mp made
    obtain ⟨i, among, inside⟩ := List.mem_flatMap.mp inside
    obtain ⟨_, -, same⟩ := List.mem_map.mp inside
    exact List.mem_map.mpr ⟨i, among, (Prod.mk.inj same).1⟩
  · cases member

theorem numbered_chunkId (v : LegacyChunk) : (numbered engine v).chunkId = v.chunkId := by
  unfold numbered
  split <;> rfl

/-- The columns that are added stay. -/
theorem mem_arranged_columns (column : IncidentColumn) (among : column ∈ incidentAdditions) :
    column ∈ (db.columned engine).unnested.incidentColumns := by
  have there : column ∈ (db.columned engine).incidentColumns := mem_added.mpr (Or.inr among)
  have other : column ≠ .services ∧ column ≠ .eventIds := by
    constructor
    · rintro rfl
      exact absurd among (by decide)
    · rintro rfl
      exact absurd among (by decide)
  show column ∈ clearedColumns (db.columned engine).incidentColumns
  unfold clearedColumns
  split_ifs
  · exact List.mem_filter.mpr ⟨there, decide_eq_true other⟩
  · exact there

/-- **The constraints hold until the second `DO` block.** -/
theorem Constrained.arranged (constrained : db.Constrained) :
    (db.columned engine).unnested.Constrained := by
  have refers : ∀ {rows : List (String × String)}
      {array : LegacyIncident → Option (List (Option String))}, Refers rows db.incidents →
        Refers (added rows ((db.columned engine).arrayPairs array))
          (db.columned engine).unnested.incidents := by
    intro rows array referring row member
    show row.1 ∈ (db.incidents.map (db.columned engine).cleared).map LegacyIncident.incidentId
    rw [map_cleared]
    rcases mem_added.mp member with old | new
    · exact referring row old
    · exact @refers_arrayPairs (db.columned engine) array row new
  refine ⟨?_, ?_, nodup_added constrained.services _, nodup_added constrained.events _,
    ⟨constrained.servicesFkey.1, refers constrained.servicesFkey.2⟩,
    ⟨constrained.eventsFkey.1, refers constrained.eventsFkey.2⟩, ?_, ?_, ?_⟩
  · show ((db.vectorRecords.map (numbered engine)).map LegacyChunk.chunkId).Nodup
    have same : LegacyChunk.chunkId ∘ numbered engine = LegacyChunk.chunkId :=
      funext numbered_chunkId
    rw [List.map_map, same]
    exact constrained.chunkIds
  · show ((db.incidents.map (db.columned engine).cleared).map LegacyIncident.incidentId).Nodup
    rw [map_cleared]
    exact constrained.incidentIds
  · intro missing
    exact absurd (mem_added.mpr (Or.inr (by decide))) missing
  · intro missing
    exact absurd (mem_arranged_columns .primaryService (by decide)) missing
  · -- The arrays are dropped, or were not there.
    have arrays : ∀ i ∈ (db.columned engine).unnested.incidents,
        .services ∈ db.incidentColumns → i.services = none ∧ i.eventIds = none := by
      rintro i member there
      obtain ⟨j, -, rfl⟩ := List.mem_map.mp member
      unfold cleared
      rw [if_pos ((mem_columned (by decide)).mpr there)]
      exact ⟨rfl, rfl⟩
    have same : .services ∉ db.incidentColumns → ∀ i ∈ (db.columned engine).unnested.incidents,
        i ∈ db.incidents := by
      intro missing i member
      obtain ⟨j, among, rfl⟩ := List.mem_map.mp member
      unfold cleared
      rw [if_neg (mt (mem_columned (by decide)).mp missing)]
      exact among
    constructor
    · intro _ i member
      by_cases there : .services ∈ db.incidentColumns
      · exact (arrays i member there).1
      · exact constrained.arrays.1 there i (same there i member)
    · intro missing i member
      by_cases there : .services ∈ db.incidentColumns
      · exact (arrays i member there).2
      · refine constrained.arrays.2 (fun still => missing ?_) i (same there i member)
        show IncidentColumn.eventIds ∈ clearedColumns (db.columned engine).incidentColumns
        unfold clearedColumns
        rw [if_neg (mt (mem_columned (by decide)).mp there)]
        exact (mem_columned (by decide)).mpr still

/-! ### Which rows clash -/

theorem isNameless_iff {i : LegacyIncident} : db.isNameless i = false ↔
    i.primaryService ≠ none ∨ db.mentions i.incidentId = true := by
  unfold isNameless
  cases i.primaryService <;> simp

theorem mem_kept_iff {i : LegacyIncident} : i ∈ db.deleteNameless.incidents ↔
    i ∈ db.incidents ∧ (i.primaryService ≠ none ∨ db.mentions i.incidentId = true) := by
  rw [← isNameless_iff]
  show i ∈ db.incidents.filter (fun i => !db.isNameless i) ↔ _
  rw [List.mem_filter, Bool.not_eq_true']

theorem held_iff {id : String} :
    id ∈ db.deleteNameless.incidents.map LegacyIncident.incidentId ↔ db.Held id := by
  rw [List.mem_map]
  unfold Held
  refine exists_congr fun i => ?_
  rw [mem_kept_iff, and_assoc]
  refine and_congr_right fun _ => ?_
  constructor
  · rintro ⟨held, rfl⟩
    exact ⟨rfl, held⟩
  · rintro ⟨rfl, held⟩
    exact ⟨held, rfl⟩

/-- An id that is referred to is held, or its incident is deleted. -/
theorem Constrained.held_iff_not_gone (constrained : db.Constrained) {id : String}
    (there : id ∈ db.incidents.map LegacyIncident.incidentId) :
    id ∉ (db.incidents.filter db.isNameless).map LegacyIncident.incidentId ↔ db.Held id := by
  obtain ⟨i, among, rfl⟩ := List.mem_map.mp there
  constructor
  · intro stays
    refine ⟨i, among, rfl, isNameless_iff.mp (Bool.eq_false_iff.mpr fun nameless => stays ?_)⟩
    exact List.mem_map.mpr ⟨i, List.mem_filter.mpr ⟨among, nameless⟩, rfl⟩
  · rintro ⟨j, among', same, held⟩ gone
    obtain ⟨k, deleted, same'⟩ := List.mem_map.mp gone
    obtain ⟨among'', nameless⟩ := List.mem_filter.mp deleted
    obtain rfl := List.inj_on_of_nodup_map constrained.incidentIds among' among''
      (same.trans same'.symm)
    rw [isNameless_iff.mpr (same ▸ held)] at nameless
    cases nameless

theorem Constrained.mem_keptRows_iff (constrained : db.Constrained)
    {rows : List (String × String)} (refers : Refers rows db.incidents) {fkey : Bool}
    (inForce : fkey = true) {row : String × String} :
    row ∈ rows.filter (fun row => !(fkey &&
        row.1 ∈ (db.incidents.filter db.isNameless).map LegacyIncident.incidentId)) ↔
      row ∈ rows ∧ db.Held row.1 := by
  rw [List.mem_filter, inForce, Bool.true_and, Bool.not_eq_true', decide_eq_false_iff_not]
  exact and_congr_right fun member => constrained.held_iff_not_gone (refers row member)

/-- **No two rows become one**, and every raw incident that is held has a service. The pairs are the
rows of the two tables. -/
structure Unclashing (db : Volume) (services events : List (String × String)) : Prop where
  named : ∀ i ∈ db.incidents, isRaw i.incidentId = true → i.primaryService = none →
    db.mentions i.incidentId = false
  incidents : ∀ i ∈ db.incidents, isRaw i.incidentId = true → ∀ service,
    i.primaryService = some service → ¬ db.Held (qualified service i.incidentId)
  services : ∀ row ∈ services, isRaw row.1 = true → db.Held row.1 → qualifyService row ∈ services →
    ¬ db.Held (qualifyService row).1
  events : ∀ row ∈ events, isRaw row.1 = true → db.Held row.1 → qualifyEvent row ∈ events →
    ¬ db.Held (qualifyEvent row).1

theorem hasRaw_of_held {id : String} (raw : isRaw id = true) (held : db.Held id) :
    db.hasRaw = true := by
  obtain ⟨i, among, rfl, -⟩ := held
  unfold hasRaw
  rw [Bool.or_eq_true]
  exact Or.inl (List.any_eq_true.mpr ⟨i, among, raw⟩)

theorem Constrained.qualifiable_iff (constrained : db.Constrained) :
    (db.hasRaw = true → db.deleteNameless.Qualifiable) ↔
      db.Unclashing db.incidentServices db.incidentEvents := by
  have services : ∀ {row}, row ∈ db.deleteNameless.incidentServices ↔
      row ∈ db.incidentServices ∧ db.Held row.1 :=
    constrained.mem_keptRows_iff constrained.servicesFkey.2 constrained.servicesFkey.1
  have events : ∀ {row}, row ∈ db.deleteNameless.incidentEvents ↔
      row ∈ db.incidentEvents ∧ db.Held row.1 :=
    constrained.mem_keptRows_iff constrained.eventsFkey.2 constrained.eventsFkey.1
  constructor
  · intro able
    refine ⟨fun i member raw nameless => ?_, fun i member raw service named held => ?_,
      fun row member raw held there held' => ?_, fun row member raw held there held' => ?_⟩
    · by_contra mentioned
      have mentioned := Bool.not_eq_false _ ▸ mentioned
      have held : db.Held i.incidentId := ⟨i, member, rfl, Or.inr mentioned⟩
      obtain ⟨service, named, -⟩ := (able (hasRaw_of_held raw held)).incidents i
        (mem_kept_iff.mpr ⟨member, Or.inr mentioned⟩) raw
      rw [nameless] at named
      cases named
    · have mine : i.primaryService ≠ none := named ▸ Option.some_ne_none _
      obtain ⟨service', named', free⟩ :=
        (able (hasRaw_of_held raw ⟨i, member, rfl, Or.inl mine⟩)).incidents i
          (mem_kept_iff.mpr ⟨member, Or.inl mine⟩) raw
      obtain rfl := Option.some.inj (named.symm.trans named')
      exact free (held_iff.mpr held)
    · exact (able (hasRaw_of_held raw held)).services row (services.mpr ⟨member, held⟩) raw
        (services.mpr ⟨there, held'⟩)
    · exact (able (hasRaw_of_held raw held)).events row (events.mpr ⟨member, held⟩) raw
        (events.mpr ⟨there, held'⟩)
  · intro apart _
    refine ⟨fun i member raw => ?_, fun row member raw there => ?_, fun row member raw there => ?_⟩
    · obtain ⟨among, held⟩ := mem_kept_iff.mp member
      cases named : i.primaryService with
      | none =>
        rw [apart.named i among raw named] at held
        rcases held with wrong | wrong
        · exact absurd named wrong
        · cases wrong
      | some service =>
        exact ⟨service, rfl, fun there => apart.incidents i among raw service named
          (held_iff.mp there)⟩
    · obtain ⟨among, held⟩ := services.mp member
      obtain ⟨among', held'⟩ := services.mp there
      exact apart.services row among raw held among' held'
    · obtain ⟨among, held⟩ := events.mp member
      obtain ⟨among', held'⟩ := events.mp there
      exact apart.events row among raw held among' held'

theorem held_arranged {id : String} : (db.columned engine).unnested.Held id ↔ db.Held id := by
  unfold Held
  constructor
  · rintro ⟨_, member, rfl, held⟩
    obtain ⟨i, among, rfl⟩ := List.mem_map.mp member
    rw [cleared_incidentId, cleared_primaryService, mentions_arranged] at held
    exact ⟨i, among, (cleared_incidentId i).symm, by rwa [cleared_incidentId]⟩
  · rintro ⟨i, among, rfl, held⟩
    refine ⟨_, List.mem_map_of_mem among, cleared_incidentId i, ?_⟩
    rwa [cleared_primaryService, mentions_arranged]

/-- The condition is the same before the arrays are unnested. -/
theorem unclashing_arranged : (db.columned engine).unnested.Unclashing
      (db.columned engine).unnested.incidentServices (db.columned engine).unnested.incidentEvents ↔
    db.Unclashing db.servicePairs db.eventPairs := by
  have held := fun {id} => @held_arranged engine db id
  have services : ∀ {row}, row ∈ (db.columned engine).unnested.incidentServices ↔
      row ∈ db.servicePairs := by
    intro row
    refine mem_added.trans ?_
    rw [arrayPairs_columned]
    exact List.mem_append.symm
  have events : ∀ {row}, row ∈ (db.columned engine).unnested.incidentEvents ↔
      row ∈ db.eventPairs := by
    intro row
    refine mem_added.trans ?_
    rw [arrayPairs_columned]
    exact List.mem_append.symm
  have incidents : ∀ {good : LegacyIncident → Prop},
      (∀ i ∈ (db.columned engine).unnested.incidents, good i) ↔
        ∀ i ∈ db.incidents, good ((db.columned engine).cleared i) := List.forall_mem_map
  constructor
  · intro apart
    have named := incidents.mp apart.named
    have free := incidents.mp apart.incidents
    simp only [cleared_incidentId, cleared_primaryService, mentions_arranged, held] at named free
    refine ⟨named, free, fun row member raw mine there => ?_, fun row member raw mine there => ?_⟩
    · exact fun theirs => apart.services row (services.mpr member) raw (held.mpr mine)
        (services.mpr there) (held.mpr theirs)
    · exact fun theirs => apart.events row (events.mpr member) raw (held.mpr mine)
        (events.mpr there) (held.mpr theirs)
  · intro apart
    refine ⟨incidents.mpr ?_, incidents.mpr ?_, fun row member raw mine there theirs => ?_,
      fun row member raw mine there theirs => ?_⟩
    · simp only [cleared_incidentId, cleared_primaryService, mentions_arranged]
      exact apart.named
    · simp only [cleared_incidentId, cleared_primaryService, held]
      exact apart.incidents
    · exact apart.services row (services.mp member) raw (held.mp mine) (services.mp there)
        (held.mp theirs)
    · exact apart.events row (events.mp member) raw (held.mp mine) (events.mp there)
        (held.mp theirs)

/-! ### What the section is to do -/

/-- **Every incident id has a service in front.** -/
structure Named (db : Volume) : Prop where
  vectorRecords : ∀ v ∈ db.vectorRecords, ∀ id, v.incidentId = some id → HasService id
  incidents : ∀ i ∈ db.incidents, HasService i.incidentId
  services : ∀ row ∈ db.incidentServices, HasService row.1
  events : ∀ row ∈ db.incidentEvents, HasService row.1

/-- An id of the incident: its own, or where that is raw, with one of its services in front. The pairs
are the rows of `incident_services`. -/
def IdOf (services : List (String × String)) (i : LegacyIncident) (id : String) : Prop :=
  id = i.incidentId ∨ isRaw i.incidentId = true ∧ ∃ service, id = qualified service i.incidentId ∧
    (i.primaryService = some service ∨ (i.incidentId, service) ∈ services)

/-- The incident has chunks: some named it before the section, or name it after. -/
def HasChunks (db after : Volume) (services : List (String × String)) (i : LegacyIncident) : Prop :=
  db.mentions i.incidentId = true ∨ ∃ id, IdOf services i id ∧ after.mentions id = true

/-- The incident is there after the section, under one of its ids. -/
def Remains (after : Volume) (services : List (String × String)) (i : LegacyIncident) : Prop :=
  ∃ i' ∈ after.incidents, IdOf services i i'.incidentId

/-- **The section is safe**: it succeeds, every id has its service, the rows refer to incidents, no
incident that has chunks has disappeared, and a second run changes nothing. -/
def Safe (engine : Engine) (db : Volume) : Prop :=
  ∃ after, db.legacySection engine = .ok after ∧ after.Named ∧
    Refers after.incidentServices after.incidents ∧ Refers after.incidentEvents after.incidents ∧
    (∀ i ∈ db.incidents, db.HasChunks after db.servicePairs i →
      after.Remains db.servicePairs i) ∧
    after.legacySection engine = .ok after

/-- **No chunk comes to name an incident that is deleted**, one without a primary service that no
chunk named. -/
structure Evident (db : Volume) (services : List (String × String)) : Prop where
  /-- A chunk's id with its service in front is the incident's only where another incident gets it. -/
  updated : ∀ i ∈ db.incidents, i.primaryService = none → db.mentions i.incidentId = false →
    ∀ v ∈ db.vectorRecords, ∀ id, v.incidentId = some id → isRaw id = true →
      qualified v.service id = i.incidentId → ∃ j ∈ db.incidents, isRaw j.incidentId = true ∧
        ∃ service, j.primaryService = some service ∧ qualified service j.incidentId = i.incidentId
  /-- A chunk has a raw incident's id with one of its services in front only where an incident like that,
  with one of them in front, is held. -/
  already : ∀ i ∈ db.incidents, i.primaryService = none → db.mentions i.incidentId = false →
    isRaw i.incidentId = true → ∀ service, (i.incidentId, service) ∈ services →
      db.mentions (qualified service i.incidentId) = true →
        ∃ other, (i.incidentId, other) ∈ services ∧ db.Held (qualified other i.incidentId)

/-- **When it goes through**, and no incident is missed. -/
structure Migratable (engine : Engine) (db : Volume) : Prop where
  texts : db.Parsable engine
  numbers : ∀ v ∈ db.vectorRecords, Numberable engine v
  arrays : db.Unnestable
  apart : db.Unclashing db.servicePairs db.eventPairs
  evident : db.Evident db.servicePairs

/-- Without raw ids no chunk's id changes. -/
theorem evident_of_not_raw {services : List (String × String)} (clear : db.hasRaw = false) :
    db.Evident services := by
  unfold hasRaw at clear
  obtain ⟨incidents, chunks⟩ := Bool.or_eq_false_iff.mp clear
  refine ⟨fun i _ _ _ v member id mine raw => ?_, fun i member _ _ raw => ?_⟩
  · have plain := List.any_eq_false.mp chunks v member
    rw [mine] at plain
    exact absurd raw plain
  · exact absurd raw (List.any_eq_false.mp incidents i member)

/-- A volume without raw ids has its services, and the block leaves it alone. -/
theorem Constrained.named_of_not_raw (constrained : db.Constrained) (clear : db.hasRaw = false) :
    db.Named := by
  unfold hasRaw at clear
  obtain ⟨incidents, chunks⟩ := Bool.or_eq_false_iff.mp clear
  have named : ∀ i ∈ db.incidents, HasService i.incidentId := fun i member =>
    hasService_of_not_raw (Bool.eq_false_iff.mpr (List.any_eq_false.mp incidents i member))
  have referring : ∀ {rows : List (String × String)}, Refers rows db.incidents →
      ∀ row ∈ rows, HasService row.1 := by
    intro rows refers row member
    obtain ⟨i, among, same⟩ := List.mem_map.mp (refers row member)
    exact same ▸ named i among
  refine ⟨fun v member id mine => hasService_of_not_raw ?_, named,
    referring constrained.servicesFkey.2, referring constrained.eventsFkey.2⟩
  have plain := List.any_eq_false.mp chunks v member
  rw [mine] at plain
  exact Bool.eq_false_iff.mpr plain

theorem isRaw_of_hasService {id : String} (named : HasService id) : isRaw id = false := by
  obtain ⟨service, rest, rfl⟩ := named
  exact isRaw_qualified service rest

theorem Named.clear (named : db.Named) : db.hasRaw = false := by
  unfold hasRaw
  refine Bool.or_eq_false_iff.mpr ⟨List.any_eq_false.mpr fun i member => ?_,
    List.any_eq_false.mpr fun v member => ?_⟩
  · exact Bool.eq_false_iff.mp (isRaw_of_hasService (named.incidents i member))
  · cases mine : v.incidentId with
    | none => exact Bool.false_ne_true
    | some id => exact Bool.eq_false_iff.mp (isRaw_of_hasService (named.vectorRecords v member id mine))

/-- **The updates name every id.** -/
theorem named_qualifiedVolume : db.qualifiedVolume.Named := by
  have rows : ∀ {rows : List (String × String)} {service : String × String → String},
      ∀ row ∈ rows.map (rekeyed (fun row => isRaw row.1) fun row =>
        (qualified (service row) row.1, row.2)), HasService row.1 := by
    intro rows service row member
    obtain ⟨old, -, rfl⟩ := List.mem_map.mp member
    unfold rekeyed
    split_ifs with raw
    · exact ⟨service old, old.1, rfl⟩
    · exact hasService_of_not_raw (Bool.eq_false_iff.mpr raw)
  refine ⟨fun v member id mine => ?_, fun i member => ?_, fun row member => ?_, fun row member => ?_⟩
  · obtain ⟨old, -, rfl⟩ := List.mem_map.mp member
    obtain ⟨was, -, rfl⟩ := Option.map_eq_some_iff.mp mine
    split_ifs with raw
    · exact ⟨old.service, was, rfl⟩
    · exact hasService_of_not_raw (Bool.eq_false_iff.mpr raw)
  · obtain ⟨old, -, rfl⟩ := List.mem_map.mp member
    unfold rekeyed
    split_ifs with raw
    · exact ⟨_, old.incidentId, rfl⟩
    · exact hasService_of_not_raw (Bool.eq_false_iff.mpr raw)
  · exact rows row (List.mem_of_mem_filter member)
  · exact rows row (List.mem_of_mem_filter member)

/-- A volume to which nothing is left to do but the services. -/
structure Current (db : Volume) : Prop where
  vectorColumns : ∀ c ∈ vectorAdditions, c ∈ db.vectorColumns
  incidentColumns : ∀ c ∈ incidentAdditions, c ∈ db.incidentColumns
  arrays : .services ∉ db.incidentColumns
  numbers : ∀ v ∈ db.vectorRecords, v.chunkIndex ≠ none

theorem current_arranged (able : ∀ v ∈ db.vectorRecords, Numberable engine v) :
    (db.columned engine).unnested.Current := by
  refine ⟨fun c among => mem_added.mpr (Or.inr among), mem_arranged_columns, ?_, ?_⟩
  · show IncidentColumn.services ∉ clearedColumns (db.columned engine).incidentColumns
    unfold clearedColumns
    split_ifs with there
    · exact fun member => (of_decide_eq_true (List.mem_filter.mp member).2).1 rfl
    · exact there
  · intro v member
    obtain ⟨old, among, rfl⟩ := List.mem_map.mp member
    by_cases number : old.chunkIndex = none
    · obtain ⟨n, read⟩ := able old among number
      unfold numbered
      simp only [number, read]
      exact Option.some_ne_none n
    · rwa [numbered_of_some number]

theorem Current.qualifiedVolume (current : db.Current) : db.qualifiedVolume.Current := by
  refine ⟨current.vectorColumns, current.incidentColumns, current.arrays, fun v member => ?_⟩
  obtain ⟨old, among, rfl⟩ := List.mem_map.mp member
  exact current.numbers old among

/-- **A second run changes nothing.** -/
theorem Current.legacySection_eq (current : db.Current) (clear : db.hasRaw = false) :
    db.legacySection engine = .ok db := by
  have chunks : db.vectorRecords.map (numbered engine) = db.vectorRecords := by
    rw [List.map_congr_left fun v member => numbered_of_some (current.numbers v member), List.map_id']
  have columned : db.columned engine = db := by
    unfold columned
    rw [added_known current.vectorColumns, added_known current.incidentColumns, chunks]
  have pairs : ∀ array, db.arrayPairs array = [] := fun array => if_neg current.arrays
  have incidents : db.incidents.map db.cleared = db.incidents :=
    List.map_id'' (fun i => if_neg current.arrays) _
  have columns : clearedColumns db.incidentColumns = db.incidentColumns := if_neg current.arrays
  have unnested : db.unnested = db := by
    unfold unnested
    rw [pairs, pairs, added_nil, added_nil, columns, incidents]
  refine legacySection_eq_ok.mpr ⟨fun missing => ?_, fun v member none => ?_, fun there => ?_, ?_⟩
  · exact absurd (current.vectorColumns .textTsv (by decide)) missing
  · exact absurd none (current.numbers v member)
  · exact absurd there current.arrays
  · rw [columned, unnested]
    unfold qualify
    rw [clear]
    rfl

/-- **The incidents after the updates** are those held, with their services in front. -/
theorem mem_qualifiedVolume_iff {id : String} : (∃ i ∈ db.qualifiedVolume.incidents, i.incidentId = id) ↔
    (isRaw id = false ∧ db.Held id) ∨ ∃ j ∈ db.incidents, isRaw j.incidentId = true ∧
      (j.primaryService ≠ none ∨ db.mentions j.incidentId = true) ∧
      qualified (j.primaryService.getD "") j.incidentId = id := by
  constructor
  · rintro ⟨_, member, rfl⟩
    obtain ⟨j, kept, rfl⟩ := List.mem_map.mp member
    obtain ⟨among, held⟩ := mem_kept_iff.mp kept
    unfold rekeyed
    split_ifs with raw
    · exact Or.inr ⟨j, among, raw, held, rfl⟩
    · exact Or.inl ⟨Bool.eq_false_iff.mpr raw, j, among, rfl, held⟩
  · rintro (⟨plain, j, among, rfl, held⟩ | ⟨j, among, raw, held, rfl⟩)
    · exact ⟨_, List.mem_map_of_mem (mem_kept_iff.mpr ⟨among, held⟩),
        congrArg LegacyIncident.incidentId (if_neg (Bool.eq_false_iff.mp plain))⟩
    · exact ⟨_, List.mem_map_of_mem (mem_kept_iff.mpr ⟨among, held⟩),
        congrArg LegacyIncident.incidentId (if_pos raw)⟩

theorem mentions_iff {id : String} :
    db.mentions id = true ↔ ∃ v ∈ db.vectorRecords, v.incidentId = some id := by
  simp only [mentions, List.any_eq_true, decide_eq_true_eq]

/-- **What the chunks name after the updates.** -/
theorem mentions_qualifiedVolume {id : String} : db.qualifiedVolume.mentions id = true ↔
    (isRaw id = false ∧ db.mentions id = true) ∨ ∃ v ∈ db.vectorRecords, ∃ old,
      v.incidentId = some old ∧ isRaw old = true ∧ qualified v.service old = id := by
  simp only [mentions_iff]
  constructor
  · rintro ⟨_, member, mine⟩
    obtain ⟨v, among, rfl⟩ := List.mem_map.mp member
    obtain ⟨old, named, rfl⟩ := Option.map_eq_some_iff.mp mine
    split_ifs with raw
    · exact Or.inr ⟨v, among, old, named, raw, rfl⟩
    · exact Or.inl ⟨Bool.eq_false_iff.mpr raw, v, among, named⟩
  · rintro (⟨plain, v, among, named⟩ | ⟨v, among, old, named, raw, rfl⟩)
    · refine ⟨_, List.mem_map_of_mem among, ?_⟩
      show v.incidentId.map _ = _
      rw [named, Option.map_some, plain]
      rfl
    · refine ⟨_, List.mem_map_of_mem among, ?_⟩
      show v.incidentId.map _ = _
      rw [named, Option.map_some, raw]
      rfl

/-- An incident that is held remains, if each raw one has a service to put in front. -/
theorem remains_of_held {services : List (String × String)} {i : LegacyIncident}
    (member : i ∈ db.incidents) (named : isRaw i.incidentId = true → i.primaryService = none →
      db.mentions i.incidentId = false)
    (held : i.primaryService ≠ none ∨ db.mentions i.incidentId = true) :
    db.qualifiedVolume.Remains services i := by
  cases raw : isRaw i.incidentId with
  | true =>
    obtain ⟨i', there, same⟩ := mem_qualifiedVolume_iff.mpr (Or.inr ⟨i, member, raw, held, rfl⟩)
    cases primary : i.primaryService with
    | none =>
      rw [primary, named raw primary] at held
      rcases held with wrong | wrong
      · exact absurd rfl wrong
      · cases wrong
    | some service =>
      rw [primary, Option.getD_some] at same
      exact ⟨i', there, Or.inr ⟨raw, service, same, Or.inl primary⟩⟩
  | false =>
    obtain ⟨i', there, same⟩ := mem_qualifiedVolume_iff.mpr (Or.inl ⟨raw, i, member, rfl, held⟩)
    exact ⟨i', there, Or.inl same⟩

/-- **No incident that has chunks disappears** in the updates exactly where none that is deleted is
named by a chunk afterwards. -/
theorem Constrained.evident_iff (constrained : db.Constrained) {services : List (String × String)}
    (named : ∀ i ∈ db.incidents, isRaw i.incidentId = true → i.primaryService = none →
      db.mentions i.incidentId = false) :
    (∀ i ∈ db.incidents, db.HasChunks db.qualifiedVolume services i →
      db.qualifiedVolume.Remains services i) ↔ db.Evident services := by
  -- an incident is not held beside one of its id that is deleted
  have gone : ∀ {i j : LegacyIncident}, i ∈ db.incidents → j ∈ db.incidents →
      j.incidentId = i.incidentId → i.primaryService = none → db.mentions i.incidentId = false →
      ¬ (j.primaryService ≠ none ∨ db.mentions j.incidentId = true) := by
    intro i j member among same nameless silent held
    obtain rfl := List.inj_on_of_nodup_map constrained.incidentIds among member same
    rw [nameless, silent] at held
    rcases held with wrong | wrong
    · exact wrong rfl
    · cases wrong
  constructor
  · intro remains
    refine ⟨fun i member nameless silent v among id mine raw same => ?_,
      fun i member nameless silent raw service pair mentioned => ?_⟩
    · have plain : isRaw i.incidentId = false := same ▸ isRaw_qualified _ _
      obtain ⟨i', there, same' | ⟨raw', -⟩⟩ := remains i member (Or.inr ⟨_, Or.inl rfl,
        mentions_qualifiedVolume.mpr (Or.inr ⟨v, among, id, mine, raw, same⟩)⟩)
      · rcases mem_qualifiedVolume_iff.mp ⟨i', there, same'⟩ with
          ⟨-, j, among', same'', held⟩ | ⟨j, among', raw', held, same''⟩
        · rw [← same''] at held
          exact absurd held (gone member among' same'' nameless silent)
        · cases mine' : j.primaryService with
          | none =>
            rw [named j among' raw' mine'] at held
            rcases held with wrong | wrong
            · exact absurd mine' wrong
            · cases wrong
          | some service =>
            rw [mine'] at same''
            exact ⟨j, among', raw', service, mine', same''⟩
      · rw [plain] at raw'
        cases raw'
    · obtain ⟨i', there, same | ⟨-, other, same, of⟩⟩ := remains i member (Or.inr ⟨_,
        Or.inr ⟨raw, service, rfl, Or.inr pair⟩,
        mentions_qualifiedVolume.mpr (Or.inl ⟨isRaw_qualified _ _, mentioned⟩)⟩)
      · rw [← same, isRaw_of_hasService (named_qualifiedVolume.incidents i' there)] at raw
        cases raw
      · rcases mem_qualifiedVolume_iff.mp ⟨i', there, same⟩ with
          ⟨-, held⟩ | ⟨j, among', raw', held, same'⟩
        · rcases of with primary | pair'
          · rw [nameless] at primary
            cases primary
          · exact ⟨other, pair', held⟩
        · exact absurd held (gone member among' (qualified_inj raw' raw same') nameless silent)
  · rintro evident i member has
    by_cases held : i.primaryService ≠ none ∨ db.mentions i.incidentId = true
    · exact remains_of_held member (named i member) held
    · obtain ⟨nameless, silent⟩ := not_or.mp held
      rw [not_not] at nameless
      rw [Bool.not_eq_true] at silent
      rcases has with before | ⟨id, mine, mentioned⟩
      · rw [silent] at before
        cases before
      · rcases mine with rfl | ⟨raw, service, rfl, primary | pair⟩
        · rcases mentions_qualifiedVolume.mp mentioned with
            ⟨-, before⟩ | ⟨v, among, old, named', raw, same⟩
          · rw [silent] at before
            cases before
          · obtain ⟨j, among', raw', service, mine, same'⟩ :=
              evident.updated i member nameless silent v among old named' raw same
            have made : qualified (j.primaryService.getD "") j.incidentId = i.incidentId := by
              rw [mine]
              exact same'
            obtain ⟨i', there, same''⟩ := mem_qualifiedVolume_iff.mpr
              (Or.inr ⟨j, among', raw', Or.inl (mine ▸ Option.some_ne_none service), made⟩)
            exact ⟨i', there, Or.inl same''⟩
        · rw [nameless] at primary
          cases primary
        · rcases mentions_qualifiedVolume.mp mentioned with
            ⟨-, before⟩ | ⟨v, among, old, named', raw', same⟩
          · obtain ⟨other, pair', held'⟩ :=
              evident.already i member nameless silent raw service pair before
            obtain ⟨i', there, same⟩ :=
              mem_qualifiedVolume_iff.mpr (Or.inl ⟨isRaw_qualified _ _, held'⟩)
            exact ⟨i', there, Or.inr ⟨raw, other, same, Or.inr pair'⟩⟩
          · rw [qualified_inj raw' raw same] at named'
            rw [mentions_iff.mpr ⟨v, among, named'⟩] at silent
            cases silent

/-- That is the same before the arrays are unnested. -/
theorem evident_arranged {services : List (String × String)} :
    (db.columned engine).unnested.Evident services ↔ db.Evident services := by
  have incidents : ∀ {good : LegacyIncident → Prop},
      (∀ i ∈ (db.columned engine).unnested.incidents, good i) ↔
        ∀ i ∈ db.incidents, good ((db.columned engine).cleared i) := List.forall_mem_map
  have some' : ∀ {good : LegacyIncident → Prop},
      (∃ i ∈ (db.columned engine).unnested.incidents, good i) ↔
        ∃ i ∈ db.incidents, good ((db.columned engine).cleared i) := by
    intro good
    constructor
    · rintro ⟨_, member, holds⟩
      obtain ⟨i, among, rfl⟩ := List.mem_map.mp member
      exact ⟨i, among, holds⟩
    · rintro ⟨i, among, holds⟩
      exact ⟨_, List.mem_map_of_mem among, holds⟩
  have chunks : ∀ {good : LegacyChunk → Prop},
      (∀ v ∈ (db.columned engine).unnested.vectorRecords, good v) ↔
        ∀ v ∈ db.vectorRecords, good (numbered engine v) := List.forall_mem_map
  constructor
  · rintro ⟨updated, already⟩
    simp only [incidents, chunks, some', cleared_incidentId, cleared_primaryService,
      mentions_arranged, numbered_incidentId, numbered_service, held_arranged] at updated already
    exact ⟨updated, already⟩
  · rintro ⟨updated, already⟩
    constructor
    · simp only [incidents, chunks, some', cleared_incidentId, cleared_primaryService,
        mentions_arranged, numbered_incidentId, numbered_service]
      exact updated
    · simp only [incidents, cleared_incidentId, cleared_primaryService, mentions_arranged,
        held_arranged]
      exact already

theorem disappears_arranged {services : List (String × String)} :
    (∀ i ∈ (db.columned engine).unnested.incidents,
      (db.columned engine).unnested.HasChunks after services i → after.Remains services i) ↔
    ∀ i ∈ db.incidents, db.HasChunks after services i → after.Remains services i := by
  refine List.forall_mem_map.trans (forall₂_congr fun i _ => ?_)
  unfold HasChunks Remains IdOf
  simp only [cleared_incidentId, cleared_primaryService, mentions_arranged]

end Safe

end Volume

/-! ### An incident without a primary service -/

/-- A database that reads ASCII. -/
def asciiEngine : Engine where
  isDigit := Char.isDigit
  fitsTsvector _ := true

/-- A volume with one incident of one chunk. -/
def oneIncident (primaryService : Option String) : Volume where
  vectorColumns := Volume.vectorAdditions
  vectorRecords := [⟨"chk_evt_1_0", none, some "INC-1", "openai", "Logins fail."⟩]
  incidentColumns := .services :: .eventIds :: Volume.incidentAdditions
  incidents := [⟨"INC-1", primaryService, some [some "openai"], some [some "openai:INC-1:a"]⟩]
  incidentServices := []
  incidentEvents := []
  servicesFkey := true
  eventsFkey := true

theorem oneIncident_constrained (primaryService : Option String) :
    (oneIncident primaryService).Constrained where
  chunkIds := List.nodup_singleton _
  incidentIds := List.nodup_singleton _
  services := List.nodup_nil
  events := List.nodup_nil
  servicesFkey := ⟨rfl, fun row member => absurd member List.not_mem_nil⟩
  eventsFkey := ⟨rfl, fun row member => absurd member List.not_mem_nil⟩
  chunkIndex missing := absurd (show VectorColumn.chunkIndex ∈ Volume.vectorAdditions by decide) missing
  primaryService missing := absurd (show IncidentColumn.primaryService ∈
    .services :: .eventIds :: Volume.incidentAdditions by decide) missing
  arrays := ⟨fun missing => absurd List.mem_cons_self missing,
    fun missing => absurd (List.mem_cons_of_mem _ List.mem_cons_self) missing⟩

/-! With a primary service the ids are put together. -/
example : (oneIncident (some "openai")).legacySection asciiEngine = .ok
    { oneIncident (some "openai") with
      vectorRecords := [⟨"chk_evt_1_0", some 0, some "openai:INC-1", "openai", "Logins fail."⟩]
      incidentColumns := Volume.incidentAdditions
      incidents := [⟨"openai:INC-1", some "openai", none, none⟩]
      incidentServices := [("openai:INC-1", "openai")]
      incidentEvents := [("openai:INC-1", "openai:INC-1:a")] } := by
  decide +kernel

end Freshet.Db
