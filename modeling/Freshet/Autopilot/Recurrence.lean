/-
**Has this happened before?** The earlier incidents of a service that read like this one.

The bar is meant to be the one the query API has for evidence. But the search is filtered by the
service, which switches the search's own bar off, and `find_recurrences` puts one of its own in its
place: the raw similarity only. So a hit far below the centred floor makes a recurrence.

`meetsBar_iff` says when the bar is met all the same: each hit that the raw similarity lets through
and the centred one would not (`BelowCentred`) is `Outdone`, by another hit of its incident or by
`limit` other incidents.
-/

import Freshet.Autopilot.Brief
import Freshet.Rag.Retrieval

namespace Freshet.Autopilot

open Freshet.Lib Freshet.Rag

/-- `_MAINTENANCE_MARKERS`. -/
def maintenanceMarkers : List String :=
  ["scheduled maintenance", "will be performing", "planned maintenance", "maintenance window",
    "maintenance is scheduled"]

/-- `is_maintenance`. -/
def isMaintenance (unicode : Unicode) (text : List Char) : Bool :=
  maintenanceMarkers.any fun marker => decide (marker.toList <:+: unicode.lower text)

def maxRecurrences : ℕ := 3

def candidateK : ℕ := 25

structure Recurrence where
  incidentId : String
  title : String
  ts : Time
  eventId : String
  similarity : ℚ
deriving DecidableEq

/-- `_incident_of`: the incident and the title of each event that has an incident. -/
def incidentOf (conn : Connection) (eventIds : List String) : Dict String (String × String) :=
  if eventIds.isEmpty then []
  else (conn.incidentOf eventIds).foldl (fun mapping row =>
    match row.2.1 with
    | none => mapping
    | some incidentId =>
      if incidentId = "" then mapping else mapping.set row.1 (incidentId, row.2.2)) []

/-- The embedder's own floor. -/
def recurrenceFloor (embedder : Embedder) : ℚ := embedder.minSimilarity.getD (7 / 10)

section Search

variable (unicode : Unicode) (conn : Connection) (embedder : Embedder) (service incidentId : String)
  (queryText : String) (before : Option Time)

/-- The loop's body up to `prior`: the recurrence that a hit makes. -/
def precedent (mapping : Dict String (String × String)) (hit : RetrievedHit) : Option Recurrence :=
  match mapping.get hit.eventId with
  | none => none
  | some (other, title) =>
    if other = incidentId then none
    else if before.any fun start => start ≤ hit.ts then none
    else if isMaintenance unicode hit.text then none
    else some ⟨other, title, hit.ts, hit.eventId, hit.similarity⟩

/-- The loop's body. -/
def better (mapping : Dict String (String × String)) (best : Dict String Recurrence)
    (hit : RetrievedHit) : Dict String Recurrence :=
  match precedent unicode incidentId before mapping hit with
  | none => best
  | some found => Dict.keepMax Recurrence.similarity best (found.incidentId, found)

/-- The hits of the search. -/
def recurrenceHits : List RetrievedHit :=
  (hybridSearch conn embedder queryText candidateK (some service)).hits

/-- **`find_recurrences`.** -/
def findRecurrences (limit : ℕ := maxRecurrences) : List Recurrence :=
  if (strip queryText.toList).isEmpty || isMaintenance unicode queryText.toList then []
  else
    let hits := (recurrenceHits conn embedder service queryText).filter fun hit =>
      decide (recurrenceFloor embedder ≤ hit.similarity)
    let mapping := incidentOf conn (hits.map RetrievedHit.eventId)
    let best := hits.foldl (better unicode incidentId before mapping) []
    (best.values.mergeSort fun first second => second.similarity ≤ first.similarity).take limit

/-! ### What makes a recurrence -/

/-- The recurrences that the hits make, in the order of the hits. -/
def precedents : List Recurrence :=
  let hits := (recurrenceHits conn embedder service queryText).filter fun hit =>
    decide (recurrenceFloor embedder ≤ hit.similarity)
  hits.filterMap (precedent unicode incidentId before
    (incidentOf conn (hits.map RetrievedHit.eventId)))

end Search

/-- A recurrence rests on a hit that is evidence to the unfiltered search. -/
def RestsOnEvidence (embedder : Embedder) (hits : List RetrievedHit) (found : Recurrence) : Prop :=
  ∃ hit ∈ hits, hit.eventId = found.eventId ∧ hit.ts = found.ts ∧
    hit.similarity = found.similarity ∧ Accepted embedder hit

/-- **The bar**: each recurrence rests on evidence, is another incident's and strictly earlier, and
no incident is named twice. -/
structure MeetsBar (embedder : Embedder) (hits : List RetrievedHit) (incidentId : String)
    (before : Option Time) (found : List Recurrence) : Prop where
  evidence : ∀ one ∈ found, RestsOnEvidence embedder hits one
  other : ∀ one ∈ found, one.incidentId ≠ incidentId
  earlier : ∀ one ∈ found, ∀ start, before = some start → one.ts < start
  once : (found.map Recurrence.incidentId).Nodup

/-! ### When it is met -/

/-- **The incident and the title of an event** in the rows of the database: the last row of the event
that names an incident. -/
def FiledUnder (rows : List (String × Option String × String)) (eventId other title : String) : Prop :=
  ∃ front back, rows = front ++ (eventId, some other, title) :: back ∧ other ≠ "" ∧
    ∀ row ∈ back, row.1 = eventId → row.2.1.getD "" = ""

/-- The hits that are similar enough by the raw similarity. -/
def similarHits (embedder : Embedder) (hits : List RetrievedHit) : List RetrievedHit :=
  hits.filter fun hit => decide (embedder.minSimilarity.getD (7 / 10) ≤ hit.similarity)

/-- The rows of the events of these hits; the database is not asked for none. -/
def filings (conn : Connection) (embedder : Embedder) (hits : List RetrievedHit) :
    List (String × Option String × String) :=
  if (similarHits embedder hits).isEmpty then []
  else conn.incidentOf ((similarHits embedder hits).map RetrievedHit.eventId)

/-- **A hit that may stand for an earlier incident.** -/
structure StandsFor (unicode : Unicode) (embedder : Embedder)
    (rows : List (String × Option String × String)) (incidentId : String) (before : Option Time)
    (hit : RetrievedHit) (other : String) : Prop where
  similar : embedder.minSimilarity.getD (7 / 10) ≤ hit.similarity
  filed : ∃ title, FiledUnder rows hit.eventId other title
  another : other ≠ incidentId
  earlier : ∀ start, before = some start → hit.ts < start
  failure : isMaintenance unicode hit.text = false

/-- The hit has been measured against a centroid, and is below the floor for that. -/
def BelowCentred (embedder : Embedder) (hit : RetrievedHit) : Prop :=
  ∃ floor similarity, embedder.minSimilarityCentered = some floor ∧
    hit.centeredSimilarity = some similarity ∧ similarity < floor

section Ranking

variable (stands : RetrievedHit → String → Prop)

/-- Among the hits, one of `two` comes before each of `one`. -/
def CameUpFirst (hits : List RetrievedHit) (two one : String) : Prop :=
  ∃ front hit back, hits = front ++ hit :: back ∧ stands hit two ∧ ∀ other ∈ front, ¬ stands other one

/-- **`two` is ahead of the incident `one` of a hit**: it has a hit that is more similar, or one that
is as similar, and came up first. -/
def Ahead (hits : List RetrievedHit) (hit : RetrievedHit) (one two : String) : Prop :=
  two ≠ one ∧ ∃ rival ∈ hits, stands rival two ∧ (hit.similarity < rival.similarity ∨
    hit.similarity = rival.similarity ∧ CameUpFirst stands hits two one)

/-- **The hit in `front ++ hit :: back` is not the one that its incident is returned for**: an earlier
hit of the incident is as similar, a later one is more similar, another of the same event, time and
similarity is not below the centred floor, or `limit` incidents are ahead. -/
def Outdone (embedder : Embedder) (limit : ℕ) (front : List RetrievedHit) (hit : RetrievedHit)
    (back : List RetrievedHit) (one : String) : Prop :=
  (∃ rival ∈ front, stands rival one ∧ hit.similarity ≤ rival.similarity) ∨
  (∃ rival ∈ back, stands rival one ∧ hit.similarity < rival.similarity) ∨
  (∃ twin ∈ front ++ back, twin.eventId = hit.eventId ∧ twin.ts = hit.ts ∧
    twin.similarity = hit.similarity ∧ ¬ BelowCentred embedder twin) ∨
  limit ≤ {two | Ahead stands (front ++ hit :: back) hit one two}.ncard

end Ranking

/-! ### What is returned -/

/-- The first of the most similar of its incident. -/
def Foremost (all : List Recurrence) (one : Recurrence) : Prop :=
  ∃ front back, all = front ++ one :: back ∧
    (∀ two ∈ front, two.incidentId = one.incidentId → two.similarity < one.similarity) ∧
    ∀ two ∈ back, two.incidentId = one.incidentId → two.similarity ≤ one.similarity

/-- `two` is more similar than `one`, or as similar and its incident came up first. -/
def Outranks (all : List Recurrence) (one two : Recurrence) : Prop :=
  one.similarity < two.similarity ∨ one.similarity = two.similarity ∧
    (all.map Recurrence.incidentId).idxOf two.incidentId <
      (all.map Recurrence.incidentId).idxOf one.incidentId

section Proofs

variable {unicode : Unicode} {conn : Connection} {embedder : Embedder} {service incidentId : String}
  {queryText : String} {before : Option Time}

/-- What the loop keeps of the recurrences. -/
def bestOf (all : List Recurrence) : Dict String Recurrence :=
  (all.map fun one => (one.incidentId, one)).foldl (Dict.keepMax Recurrence.similarity) []

theorem foldl_better (mapping : Dict String (String × String)) (hits : List RetrievedHit)
    (best : Dict String Recurrence) :
    hits.foldl (better unicode incidentId before mapping) best =
      ((hits.filterMap (precedent unicode incidentId before mapping)).map
        fun one => (one.incidentId, one)).foldl (Dict.keepMax Recurrence.similarity) best := by
  induction hits generalizing best with
  | nil => rfl
  | cons hit rest ih =>
    rw [List.foldl_cons, ih, List.filterMap_cons]
    unfold better
    cases precedent unicode incidentId before mapping hit <;> rfl

theorem firstMax_iff {all : List Recurrence} {key : String} {one : Recurrence} :
    Dict.FirstMax Recurrence.similarity (all.map fun one => (one.incidentId, one)) key one ↔
      one.incidentId = key ∧ Foremost all one := by
  unfold Dict.FirstMax Foremost
  constructor
  · rintro ⟨front, back, same, low, high⟩
    obtain ⟨front', rest, rfl, rfl, same'⟩ := List.map_eq_append_iff.mp same
    obtain ⟨one', back', rfl, pair, rfl⟩ := List.map_eq_cons_iff.mp same'
    obtain ⟨rfl, rfl⟩ := Prod.mk.inj pair
    refine ⟨rfl, front', back', rfl, fun two inside named => ?_, fun two inside named => ?_⟩
    · exact low two (List.mem_map.mpr ⟨two, inside, by rw [named]⟩)
    · exact high two (List.mem_map.mpr ⟨two, inside, by rw [named]⟩)
  · rintro ⟨rfl, front, back, rfl, low, high⟩
    refine ⟨_, _, by rw [List.map_append, List.map_cons], fun two inside => ?_, fun two inside => ?_⟩
    · obtain ⟨two', inside', pair⟩ := List.mem_map.mp inside
      obtain ⟨named, rfl⟩ := Prod.mk.inj pair
      exact low two' inside' named
    · obtain ⟨two', inside', pair⟩ := List.mem_map.mp inside
      obtain ⟨named, rfl⟩ := Prod.mk.inj pair
      exact high two' inside' named

theorem mem_bestOf {all : List Recurrence} {key : String} {one : Recurrence} :
    (key, one) ∈ bestOf all ↔ one.incidentId = key ∧ Foremost all one := by
  unfold bestOf
  rw [Dict.mem_iff_get (Dict.nodup_foldl_keepMax _), Dict.get_foldl_keepMax_iff, firstMax_iff]

theorem mem_values_bestOf {all : List Recurrence} {one : Recurrence} :
    one ∈ (bestOf all).values ↔ Foremost all one := by
  unfold Dict.values
  rw [List.mem_map]
  constructor
  · rintro ⟨⟨key, one⟩, inside, rfl⟩
    exact (mem_bestOf.mp inside).2
  · exact fun foremost => ⟨(one.incidentId, one), mem_bestOf.mpr ⟨rfl, foremost⟩, rfl⟩

theorem incidentIds_bestOf (all : List Recurrence) :
    (bestOf all).values.map Recurrence.incidentId = (bestOf all).keys := by
  unfold Dict.values Dict.keys
  rw [List.map_map]
  refine List.map_congr_left fun item inside => ?_
  exact (mem_bestOf.mp (show (item.1, item.2) ∈ bestOf all from inside)).1

/-- The incidents stand in the order in which they came up. -/
theorem placed_bestOf (all : List Recurrence) :
    (bestOf all).values.Pairwise fun one two =>
      (all.map Recurrence.incidentId).idxOf one.incidentId <
        (all.map Recurrence.incidentId).idxOf two.incidentId := by
  have placed := (@Dict.keys_foldl_keepMax _ _ _ _ _ Recurrence.similarity
    (all.map fun one => (one.incidentId, one))).2
  rw [List.map_map] at placed
  have keys : (bestOf all).keys.Pairwise _ := placed
  rw [← incidentIds_bestOf, List.pairwise_map] at keys
  exact keys

/-- The recurrences are sought at all. -/
def Asked (unicode : Unicode) (queryText : String) : Prop :=
  strip queryText.toList ≠ [] ∧ isMaintenance unicode queryText.toList = false

/-- **What is returned**: the foremost of each incident, but for those behind `limit` others. -/
theorem mem_findRecurrences {limit : ℕ} {one : Recurrence} :
    one ∈ findRecurrences unicode conn embedder service incidentId queryText before limit ↔
      Asked unicode queryText ∧
      Foremost (precedents unicode conn embedder service incidentId queryText before) one ∧
      {two | Foremost (precedents unicode conn embedder service incidentId queryText before) two ∧
        Outranks (precedents unicode conn embedder service incidentId queryText before)
          one two}.ncard < limit := by
  unfold findRecurrences Asked
  split_ifs with silent
  · refine iff_of_false List.not_mem_nil fun ⟨asked, _⟩ => ?_
    rw [asked.2, Bool.or_false, List.isEmpty_iff] at silent
    exact asked.1 silent
  · have asked : strip queryText.toList ≠ [] ∧ isMaintenance unicode queryText.toList = false := by
      simpa using silent
    rw [and_iff_right asked]
    dsimp only
    rw [foldl_better]
    show one ∈ List.take limit (List.mergeSort (bestOf (precedents unicode conn embedder service
      incidentId queryText before)).values _) ↔ _
    generalize precedents unicode conn embedder service incidentId queryText before = all
    have sorts : StableSort (fun one : Recurrence => OrderDual.toDual one.similarity)
      (bestOf all).values ((bestOf all).values.mergeSort fun first second =>
        second.similarity ≤ first.similarity) := StableSort.mergeSort _
    have place : ∀ {one : Recurrence}, one ∈ (bestOf all).values →
        (one ∈ ((bestOf all).values.mergeSort fun first second =>
          second.similarity ≤ first.similarity).take limit ↔
        {two | Foremost all two ∧ Outranks all one two}.ncard < limit) := by
      intro one inside
      rw [sorts.mem_take_iff (placed_bestOf all) inside]
      simp only [mem_values_bestOf, Outranks, OrderDual.toDual_lt_toDual, OrderDual.toDual_inj,
        @eq_comm _ one.similarity]
    constructor
    · intro kept
      have inside := sorts.mem_iff.mp (List.mem_of_mem_take kept)
      exact ⟨mem_values_bestOf.mp inside, (place inside).mp kept⟩
    · rintro ⟨foremost, few⟩
      exact (place (mem_values_bestOf.mpr foremost)).mpr few

/-- What a hit must be for a recurrence, and what is copied of it. -/
theorem precedent_eq_some {mapping : Dict String (String × String)} {hit : RetrievedHit}
    {one : Recurrence} (made : precedent unicode incidentId before mapping hit = some one) :
    mapping.get hit.eventId = some (one.incidentId, one.title) ∧ one.incidentId ≠ incidentId ∧
    (∀ start, before = some start → hit.ts < start) ∧ isMaintenance unicode hit.text = false ∧
    one.eventId = hit.eventId ∧ one.ts = hit.ts ∧ one.similarity = hit.similarity := by
  unfold precedent at made
  split at made
  · cases made
  · next named =>
    split_ifs at made with own late quiet
    obtain rfl := Option.some.inj made
    refine ⟨named, own, ?_, Bool.eq_false_iff.mpr quiet, rfl, rfl, rfl⟩
    rintro start rfl
    simpa using late

theorem nodup_findRecurrences (limit : ℕ) :
    ((findRecurrences unicode conn embedder service incidentId queryText before limit).map
      Recurrence.incidentId).Nodup := by
  unfold findRecurrences
  split_ifs with silent
  · exact List.nodup_nil
  · dsimp only
    rw [foldl_better]
    refine List.Nodup.sublist ((List.take_sublist _ _).map _) ?_
    rw [((List.mergeSort_perm _ _).map _).nodup_iff]
    refine (incidentIds_bestOf (precedents unicode conn embedder service incidentId queryText
      before)).symm ▸ ?_
    exact Dict.nodup_foldl_keepMax _

/-! ### The hits that make them -/

theorem idxOf_lt_idxOf {names : List String} {two one : String} (member : two ∈ names) :
    names.idxOf two < names.idxOf one ↔
      two ≠ one ∧ ∃ front back, names = front ++ two :: back ∧ one ∉ front := by
  constructor
  · intro less
    obtain ⟨front, back, rfl, fresh⟩ := List.eq_append_cons_of_mem member
    refine ⟨?_, front, back, rfl, fun inside => ?_⟩
    · rintro rfl
      exact lt_irrefl _ less
    · rw [List.idxOf_append_of_notMem fresh, List.idxOf_cons_self,
        List.idxOf_append_of_mem inside] at less
      have small := List.idxOf_lt_length_of_mem inside
      omega
  · rintro ⟨differ, front, back, rfl, fresh⟩
    rw [List.idxOf_append_of_notMem fresh, List.idxOf_cons_ne _ differ]
    by_cases inside : two ∈ front
    · rw [List.idxOf_append_of_mem inside]
      have small := List.idxOf_lt_length_of_mem inside
      omega
    · rw [List.idxOf_append_of_notMem inside, List.idxOf_cons_self]
      omega

/-- An incident has one foremost recurrence. -/
theorem foremost_unique {all : List Recurrence} {one two : Recurrence} (held : Foremost all one)
    (held' : Foremost all two) (named : one.incidentId = two.incidentId) : one = two := by
  have first := (Dict.mem_iff_get (Dict.nodup_foldl_keepMax _)).mp (mem_bestOf.mpr ⟨named, held⟩)
  have second := (Dict.mem_iff_get (Dict.nodup_foldl_keepMax _)).mp (mem_bestOf.mpr ⟨rfl, held'⟩)
  exact Option.some.inj (first.symm.trans second)

/-- Each incident that came up has a foremost recurrence, the most similar of it. -/
theorem exists_foremost {all : List Recurrence} {three : Recurrence} (member : three ∈ all) :
    ∃ two, Foremost all two ∧ two.incidentId = three.incidentId ∧
      three.similarity ≤ two.similarity := by
  have key : three.incidentId ∈ (bestOf all).keys := by
    refine ((@Dict.keys_foldl_keepMax _ _ _ _ _ Recurrence.similarity _).1 _).mpr ?_
    rw [List.map_map]
    exact List.mem_map.mpr ⟨three, member, rfl⟩
  obtain ⟨⟨_, two⟩, inside, named⟩ := List.mem_map.mp key
  obtain rfl : _ = three.incidentId := named
  obtain ⟨same, foremost⟩ := mem_bestOf.mp inside
  refine ⟨two, foremost, same, ?_⟩
  obtain ⟨front, back, rfl, low, high⟩ := foremost
  rcases List.mem_append.mp member with before | at'
  · exact (low three before same.symm).le
  · rcases List.mem_cons.mp at' with rfl | after
    · exact le_refl _
    · exact high three after same.symm

section Ranking

variable {stands : RetrievedHit → String → Prop} {make : RetrievedHit → Option Recurrence}

/-- What is made of a hit has the hit's similarity and the incident that the hit stands for. -/
structure Makes (stands : RetrievedHit → String → Prop) (make : RetrievedHit → Option Recurrence) :
    Prop where
  stands_iff : ∀ hit other, stands hit other ↔ ∃ one, make hit = some one ∧ one.incidentId = other
  similarity : ∀ hit one, make hit = some one → one.similarity = hit.similarity

variable (makes : Makes stands make)
include makes

theorem mem_incidents {hits : List RetrievedHit} {other : String} :
    other ∈ (hits.filterMap make).map Recurrence.incidentId ↔ ∃ hit ∈ hits, stands hit other := by
  simp only [List.mem_map, List.mem_filterMap, makes.stands_iff]
  constructor
  · rintro ⟨one, ⟨hit, inside, made⟩, named⟩
    exact ⟨hit, inside, one, made, named⟩
  · rintro ⟨hit, inside, one, made, named⟩
    exact ⟨one, ⟨hit, inside, made⟩, named⟩

/-- The similarities of one incident's recurrences are those of its hits. -/
theorem similarities_iff {hits : List RetrievedHit} {other : String} (holds : ℚ → Prop) :
    (∀ two ∈ hits.filterMap make, two.incidentId = other → holds two.similarity) ↔
      ∀ rival ∈ hits, stands rival other → holds rival.similarity := by
  constructor
  · intro all rival inside stood
    obtain ⟨two, made, named⟩ := (makes.stands_iff rival other).mp stood
    rw [← makes.similarity rival two made]
    exact all two (List.mem_filterMap.mpr ⟨rival, inside, made⟩) named
  · intro all two inside named
    obtain ⟨rival, found, made⟩ := List.mem_filterMap.mp inside
    rw [makes.similarity rival two made]
    exact all rival found ((makes.stands_iff rival other).mpr ⟨two, made, named⟩)

/-- **The foremost of an incident** is made of the first of its most similar hits. -/
theorem foremost_iff {hits : List RetrievedHit} {one : Recurrence} :
    Foremost (hits.filterMap make) one ↔
      ∃ front hit back, hits = front ++ hit :: back ∧ make hit = some one ∧
        (∀ rival ∈ front, stands rival one.incidentId → rival.similarity < hit.similarity) ∧
        ∀ rival ∈ back, stands rival one.incidentId → rival.similarity ≤ hit.similarity := by
  unfold Foremost
  constructor
  · rintro ⟨front, back, same, low, high⟩
    obtain ⟨front, rest, rfl, rfl, same'⟩ := List.filterMap_eq_append_iff.mp same
    obtain ⟨gap, hit, back, rfl, none', made, rfl⟩ := List.filterMap_eq_cons_iff.mp same'
    replace low := (similarities_iff makes fun similarity => similarity < one.similarity).mp low
    replace high := (similarities_iff makes fun similarity => similarity ≤ one.similarity).mp high
    rw [makes.similarity hit one made] at low high
    refine ⟨front ++ gap, hit, back, by simp, made, fun rival inside stood => ?_, high⟩
    rcases List.mem_append.mp inside with inside | inside
    · exact low rival inside stood
    · obtain ⟨two, made', -⟩ := (makes.stands_iff _ _).mp stood
      rw [none' rival inside] at made'
      cases made'
  · rintro ⟨front, hit, back, rfl, made, low, high⟩
    rw [← makes.similarity hit one made] at low high
    exact ⟨front.filterMap make, back.filterMap make, by simp [made],
      (similarities_iff makes fun similarity => similarity < one.similarity).mpr low,
      (similarities_iff makes fun similarity => similarity ≤ one.similarity).mpr high⟩

theorem cameUpFirst_iff {hits : List RetrievedHit} {two one : String} (differ : two ≠ one)
    (member : two ∈ (hits.filterMap make).map Recurrence.incidentId) :
    ((hits.filterMap make).map Recurrence.incidentId).idxOf two <
        ((hits.filterMap make).map Recurrence.incidentId).idxOf one ↔
      CameUpFirst stands hits two one := by
  rw [idxOf_lt_idxOf member, and_iff_right differ]
  unfold CameUpFirst
  constructor
  · rintro ⟨front, back, same, fresh⟩
    obtain ⟨front, rest, split, rfl, last⟩ := List.map_eq_append_iff.mp same
    obtain ⟨found, back, rfl, named, rfl⟩ := List.map_eq_cons_iff.mp last
    obtain ⟨front, rest, rfl, rfl, split'⟩ := List.filterMap_eq_append_iff.mp split
    obtain ⟨gap, hit, back, rfl, none', made, rfl⟩ := List.filterMap_eq_cons_iff.mp split'
    refine ⟨front ++ gap, hit, back, by simp, (makes.stands_iff _ _).mpr ⟨found, made, named⟩,
      fun other inside stood => ?_⟩
    rcases List.mem_append.mp inside with inside | inside
    · exact fresh ((mem_incidents makes).mpr ⟨other, inside, stood⟩)
    · obtain ⟨one, made', -⟩ := (makes.stands_iff _ _).mp stood
      rw [none' other inside] at made'
      cases made'
  · rintro ⟨front, hit, back, rfl, stood, fresh⟩
    obtain ⟨found, made, rfl⟩ := (makes.stands_iff _ _).mp stood
    refine ⟨(front.filterMap make).map Recurrence.incidentId,
      (back.filterMap make).map Recurrence.incidentId, by simp [made], fun inside => ?_⟩
    obtain ⟨other, inside, stood⟩ := (mem_incidents makes).mp inside
    exact fresh other inside stood

/-- **The incidents ahead** are those of the recurrences that outrank the foremost. -/
theorem ahead_iff {hits : List RetrievedHit} {hit : RetrievedHit} {one : Recurrence}
    (made : make hit = some one) (foremost : Foremost (hits.filterMap make) one) :
    {two | Ahead stands hits hit one.incidentId two}.ncard =
      {two | Foremost (hits.filterMap make) two ∧
        Outranks (hits.filterMap make) one two}.ncard := by
  have injective : Set.InjOn Recurrence.incidentId {two | Foremost (hits.filterMap make) two ∧
      Outranks (hits.filterMap make) one two} :=
    fun two held three held' named => foremost_unique held.1 held'.1 named
  rw [← injective.ncard_image]
  congr 1
  ext two
  constructor
  · rintro ⟨differ, rival, inside, stood, higher⟩
    obtain ⟨three, made', rfl⟩ := (makes.stands_iff rival two).mp stood
    have member := List.mem_filterMap.mpr ⟨rival, inside, made'⟩
    obtain ⟨two, held, named, least⟩ := exists_foremost member
    rw [makes.similarity rival three made'] at least
    refine ⟨two, ⟨held, ?_⟩, named⟩
    unfold Outranks
    rw [makes.similarity hit one made, named]
    rcases higher with more | ⟨level, first⟩
    · exact Or.inl (more.trans_le least)
    · rcases lt_or_eq_of_le (level.trans_le least) with more | level'
      · exact Or.inl more
      · exact Or.inr ⟨level', (cameUpFirst_iff makes differ
          (List.mem_map_of_mem member)).mpr first⟩
  · rintro ⟨two, ⟨held, higher⟩, rfl⟩
    obtain ⟨front, rival, back, rfl, made', -, -⟩ := (foremost_iff makes).mp held
    have member : two ∈ (front ++ rival :: back).filterMap make := by simp [made']
    have differ : two.incidentId ≠ one.incidentId := by
      intro named
      rw [foremost_unique held foremost named] at higher
      rcases higher with more | ⟨-, first⟩
      · exact lt_irrefl _ more
      · exact lt_irrefl _ first
    refine ⟨differ, rival, by simp, (makes.stands_iff _ _).mpr ⟨two, made', rfl⟩, ?_⟩
    rw [← makes.similarity hit one made, ← makes.similarity rival two made']
    rcases higher with more | ⟨level, first⟩
    · exact Or.inl more
    · exact Or.inr ⟨level, (cameUpFirst_iff makes differ (List.mem_map_of_mem member)).mp first⟩

end Ranking

/-- What the search makes of a hit. -/
def madeOf (unicode : Unicode) (embedder : Embedder) (incidentId : String) (before : Option Time)
    (mapping : Dict String (String × String)) (hit : RetrievedHit) : Option Recurrence :=
  if recurrenceFloor embedder ≤ hit.similarity then
    precedent unicode incidentId before mapping hit
  else none

theorem precedents_eq : precedents unicode conn embedder service incidentId queryText before =
    (recurrenceHits conn embedder service queryText).filterMap (madeOf unicode embedder incidentId
      before (incidentOf conn ((similarHits embedder
        (recurrenceHits conn embedder service queryText)).map RetrievedHit.eventId))) := by
  unfold precedents madeOf
  dsimp only
  rw [List.filterMap_filter]
  refine List.filterMap_congr fun hit _ => ?_
  simp only [decide_eq_true_eq]
  rfl

theorem filed_concat {rows : List (String × Option String × String)}
    {row : String × Option String × String} {eventId other title : String} :
    FiledUnder (rows ++ [row]) eventId other title ↔
      (row = (eventId, some other, title) ∧ other ≠ "") ∨
        FiledUnder rows eventId other title ∧ (row.1 = eventId → row.2.1.getD "" = "") := by
  unfold FiledUnder
  constructor
  · rintro ⟨front, back, same, named, last⟩
    cases back using List.reverseRecOn with
    | nil =>
      obtain ⟨-, same⟩ := List.append_inj' same rfl
      exact Or.inl ⟨(List.cons.inj same).1, named⟩
    | append_singleton back final =>
      rw [← List.cons_append, ← List.append_assoc] at same
      obtain ⟨rfl, end'⟩ := List.append_inj' same rfl
      obtain rfl := (List.cons.inj end').1
      exact Or.inr ⟨⟨front, back, rfl, named, fun row inside => last row (by simp [inside])⟩,
        last row (by simp)⟩
  · rintro (⟨rfl, named⟩ | ⟨⟨front, back, rfl, named, last⟩, final⟩)
    · exact ⟨rows, [], rfl, named, by simp⟩
    · refine ⟨front, back ++ [row], by simp, named, fun other inside => ?_⟩
      rcases List.mem_append.mp inside with inside | inside
      · exact last other inside
      · rw [List.mem_singleton.mp inside]
        exact final

/-- **`_incident_of` finds how an event is filed.** -/
theorem get_incidentOf {hits : List RetrievedHit} {eventId other title : String} :
    (incidentOf conn ((similarHits embedder hits).map RetrievedHit.eventId)).get eventId =
      some (other, title) ↔ FiledUnder (filings conn embedder hits) eventId other title := by
  unfold incidentOf filings
  rw [List.isEmpty_map]
  split_ifs with none'
  · exact iff_of_false (by simp [Dict.get]) (by simp [FiledUnder])
  · induction conn.incidentOf ((similarHits embedder hits).map RetrievedHit.eventId)
      using List.reverseRecOn with
    | nil => exact iff_of_false (by simp [Dict.get]) (by simp [FiledUnder])
    | append_singleton rows row ih =>
      obtain ⟨event, incident, name⟩ := row
      rw [List.foldl_append, List.foldl_cons, List.foldl_nil, filed_concat, ← ih]
      cases incident with
      | none => simp
      | some incident =>
        dsimp only
        split_ifs with blank
        · subst blank
          simp +contextual
        · rw [Dict.get_set]
          by_cases same : event = eventId
          · simp only [same, ↓reduceIte, Option.some.injEq, Prod.mk.injEq, true_and, blank, imp_false,
              not_true, and_false, or_false, Option.getD_some]
            constructor
            · rintro ⟨rfl, rfl⟩
              exact ⟨⟨rfl, rfl⟩, blank⟩
            · exact And.left
          · simp [same, Ne.symm same]

theorem makes_madeOf {hits : List RetrievedHit} :
    Makes (StandsFor unicode embedder (filings conn embedder hits) incidentId before)
      (madeOf unicode embedder incidentId before
        (incidentOf conn ((similarHits embedder hits).map RetrievedHit.eventId))) where
  stands_iff := by
    intro hit other
    unfold madeOf
    constructor
    · rintro ⟨similar, ⟨title, filed⟩, another, earlier, failure⟩
      unfold recurrenceFloor precedent
      rw [if_pos similar, get_incidentOf.mpr filed]
      have early : ¬ (before.any fun start => decide (start ≤ hit.ts)) = true := by
        cases before with
        | none => simp
        | some start => simpa using earlier start rfl
      simp [another, early, failure]
    · rintro ⟨one, made, rfl⟩
      rw [Option.ite_none_right_eq_some] at made
      obtain ⟨named, own, early, failure, -, -, -⟩ := precedent_eq_some made.2
      exact ⟨made.1, ⟨_, get_incidentOf.mp named⟩, own, early, failure⟩
  similarity := by
    intro hit one made
    unfold madeOf at made
    rw [Option.ite_none_right_eq_some] at made
    obtain ⟨-, -, -, -, -, -, similarity⟩ := precedent_eq_some made.2
    exact similarity

/-- A recurrence is named by the event and the time of its hit. -/
theorem madeOf_named {mapping : Dict String (String × String)} {hit : RetrievedHit} {one : Recurrence}
    (made : madeOf unicode embedder incidentId before mapping hit = some one) :
    one.eventId = hit.eventId ∧ one.ts = hit.ts := by
  unfold madeOf at made
  rw [Option.ite_none_right_eq_some] at made
  obtain ⟨-, -, -, -, eventId, ts, -⟩ := precedent_eq_some made.2
  exact ⟨eventId, ts⟩

/-- The floor of the search is the embedder's or above it, so a hit that is similar enough is refused
for its centred similarity only. -/
theorem accepted_iff {hit : RetrievedHit}
    (similar : embedder.minSimilarity.getD (7 / 10) ≤ hit.similarity) :
    Accepted embedder hit ↔ ¬ BelowCentred embedder hit := by
  have raw : embedder.floor ≤ hit.similarity := by
    refine le_trans ?_ similar
    unfold Embedder.floor defaultMinSimilarity
    cases embedder.minSimilarity with
    | none => norm_num
    | some floor => exact le_refl _
  unfold Accepted BelowCentred
  cases embedder.minSimilarityCentered with
  | none => simpa using raw
  | some floor =>
    cases hit.centeredSimilarity with
    | none => simpa using raw
    | some similarity => simp

/-- **What is returned, on the hits**: an incident by the first of its most similar hits, unless
`limit` incidents are ahead. -/
theorem returned_iff {limit : ℕ} {one : Recurrence} :
    one ∈ findRecurrences unicode conn embedder service incidentId queryText before limit ↔
      Asked unicode queryText ∧ ∃ front hit back,
        recurrenceHits conn embedder service queryText = front ++ hit :: back ∧
        madeOf unicode embedder incidentId before (incidentOf conn ((similarHits embedder
          (recurrenceHits conn embedder service queryText)).map RetrievedHit.eventId)) hit = some one ∧
        (∀ rival ∈ front, StandsFor unicode embedder (filings conn embedder
          (recurrenceHits conn embedder service queryText)) incidentId before rival one.incidentId →
          rival.similarity < hit.similarity) ∧
        (∀ rival ∈ back, StandsFor unicode embedder (filings conn embedder
          (recurrenceHits conn embedder service queryText)) incidentId before rival one.incidentId →
          rival.similarity ≤ hit.similarity) ∧
        {two | Ahead (StandsFor unicode embedder (filings conn embedder
          (recurrenceHits conn embedder service queryText)) incidentId before) (front ++ hit :: back)
          hit one.incidentId two}.ncard < limit := by
  rw [mem_findRecurrences, precedents_eq]
  refine and_congr_right fun _ => ?_
  constructor
  · rintro ⟨foremost, few⟩
    obtain ⟨front, hit, back, same, made, low, high⟩ := (foremost_iff makes_madeOf).mp foremost
    refine ⟨front, hit, back, same, made, low, high, ?_⟩
    rwa [← same, ahead_iff makes_madeOf made foremost]
  · rintro ⟨front, hit, back, same, made, low, high, few⟩
    have foremost := (foremost_iff makes_madeOf).mpr ⟨front, hit, back, same, made, low, high⟩
    refine ⟨foremost, ?_⟩
    rwa [← same, ahead_iff makes_madeOf made foremost] at few

/-- **The bar is met** if and only if each hit that is similar enough and below the centred floor is
outdone. -/
theorem meetsBar_iff {limit : ℕ} :
    MeetsBar embedder (recurrenceHits conn embedder service queryText) incidentId before
      (findRecurrences unicode conn embedder service incidentId queryText before limit) ↔
    (Asked unicode queryText → ∀ front hit back other,
      recurrenceHits conn embedder service queryText = front ++ hit :: back →
      StandsFor unicode embedder
        (filings conn embedder (recurrenceHits conn embedder service queryText)) incidentId before
        hit other →
      BelowCentred embedder hit →
      Outdone (StandsFor unicode embedder
        (filings conn embedder (recurrenceHits conn embedder service queryText)) incidentId before)
        embedder limit front hit back other) := by
  have makes := @makes_madeOf unicode conn embedder incidentId before
    (recurrenceHits conn embedder service queryText)
  constructor
  · intro meets asked front hit back other same stands below
    obtain ⟨one, made, rfl⟩ := (makes.stands_iff hit other).mp stands
    obtain ⟨eventId, ts⟩ := madeOf_named made
    by_contra kept
    unfold Outdone at kept
    simp only [not_or, not_exists, not_and, not_le, not_lt, not_not] at kept
    obtain ⟨low, high, lone, few⟩ := kept
    have returned := returned_iff.mpr ⟨asked, front, hit, back, same, made, low, high, few⟩
    obtain ⟨twin, inside, eventId', ts', similarity', accepted⟩ := meets.evidence one returned
    rw [eventId] at eventId'
    rw [ts] at ts'
    rw [makes.similarity hit one made] at similarity'
    rw [accepted_iff (similarity'.symm ▸ stands.similar)] at accepted
    rw [same] at inside
    rcases List.mem_append.mp inside with before' | at'
    · exact accepted (lone twin (List.mem_append_left _ before') eventId' ts' similarity')
    · rcases List.mem_cons.mp at' with rfl | after
      · exact accepted below
      · exact accepted (lone twin (List.mem_append_right _ after) eventId' ts' similarity')
  · intro condition
    -- the parts on the incident and on the time hold of every recurrence
    refine ⟨fun one member => ?_, fun one member => ?_, fun one member start eq => ?_,
      nodup_findRecurrences limit⟩
    · obtain ⟨asked, front, hit, back, same, made, low, high, few⟩ := returned_iff.mp member
      have stands := (makes.stands_iff hit one.incidentId).mpr ⟨one, made, rfl⟩
      obtain ⟨eventId, ts⟩ := madeOf_named made
      have similarity := makes.similarity hit one made
      by_cases below : BelowCentred embedder hit
      · rcases condition asked front hit back one.incidentId same stands below with
          ⟨rival, inside, stands', more⟩ | ⟨rival, inside, stands', more⟩ |
          ⟨twin, inside, eventId', ts', similarity', above⟩ | many
        · exact absurd more (not_le.mpr (low rival inside stands'))
        · exact absurd more (not_lt.mpr (high rival inside stands'))
        · refine ⟨twin, ?_, eventId'.trans eventId.symm, ts'.trans ts.symm,
            similarity'.trans similarity.symm,
            (accepted_iff (similarity'.symm ▸ stands.similar)).mpr above⟩
          rw [same]
          rcases List.mem_append.mp inside with before' | after
          · exact List.mem_append_left _ before'
          · exact List.mem_append_right _ (List.mem_cons_of_mem _ after)
        · exact absurd few (not_lt.mpr many)
      · exact ⟨hit, same ▸ List.mem_append_right _ List.mem_cons_self, eventId.symm, ts.symm,
          similarity.symm, (accepted_iff stands.similar).mpr below⟩
    · obtain ⟨-, front, hit, back, -, made, -⟩ := returned_iff.mp member
      exact ((makes.stands_iff hit _).mpr ⟨one, made, rfl⟩).another
    · obtain ⟨-, front, hit, back, -, made, -⟩ := returned_iff.mp member
      rw [(madeOf_named made).2]
      exact ((makes.stands_iff hit _).mpr ⟨one, made, rfl⟩).earlier start eq

end Proofs

/-! ### A hit below the centred floor -/

/-- A hit that is like the query as texts of one provider are like each other, and no more. -/
def lookalike : Rag.Row where
  chunkId := "old#0"
  eventId := "old"
  service := "service"
  ts := 0
  indexedAt := 0
  source := .metric
  text := "errors".toList
  type := "update"
  title := some "Earlier"
  similarity := 81 / 100
  centeredSimilarity := some (31 / 100)

def oneRow : Connection where
  getCentroid _ := some "centroid"
  vectorRows _ := [lookalike]
  keywordRows _ := []
  incidentOf _ := [("old", some "INC-A", "Earlier")]

def centred : Embedder where
  name := some "model"
  minSimilarity := some (7 / 10)
  minSimilarityCentered := some (44 / 100)
  encodeQuery _ := []

theorem recurrenceHits_oneRow (queryText : String) :
    recurrenceHits oneRow centred "service" queryText = [lookalike.hit (1 / 60)] := by
  unfold recurrenceHits hybridSearch
  simp [oneRow, centred, rowsToMap, reciprocalRankFusion, fuse, addRank, Dict.set, Dict.get, lookalike,
    rrfK, candidateK]

/-- **The bar is not met**: the hit is no evidence. -/
theorem lookalike_not_meetsBar :
    ¬ MeetsBar centred (recurrenceHits oneRow centred "service" "errors") "INC-B" (some 1)
      (findRecurrences ⟨id, fun _ => true⟩ oneRow centred "service" "INC-B" "errors" (some 1)) := by
  intro meets
  have returned : (⟨"INC-A", "Earlier", 0, "old", 81 / 100⟩ : Recurrence) ∈
      findRecurrences ⟨id, fun _ => true⟩ oneRow centred "service" "INC-B" "errors" (some 1) := by
    decide +kernel
  obtain ⟨hit, found, -, -, -, accepted⟩ := meets.evidence _ returned
  rw [recurrenceHits_oneRow] at found
  obtain rfl := List.mem_singleton.mp found
  revert accepted
  show ¬ (44 / 100 : ℚ) ≤ 31 / 100
  norm_num

end Freshet.Autopilot
