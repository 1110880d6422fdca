/-
**The keys of the pipeline.**

Three keys are put together in three places: the property `partition_key`, the expressions of the stream
job that make `incident_id` and `event_id` (which is to equal `dedup_key`), and the f-string that makes
`chunk_id`. The schema's legacy section takes the number off a `chunk_id` again.

* **`keys_apart`** — no two incidents, updates or chunks share a key, and the number is read back.
-/

import Freshet.Ingest.Statuspage
import Freshet.Pipeline.Index
import Freshet.Stream.Dedup

namespace Freshet.Pipeline

open Freshet.Lib Freshet.Ingest Freshet.Stream

/-! ### What the keys are made of -/

/-- `[0-9a-f]`. -/
def isHexDigit (c : Char) : Bool := c.isDigit || ('a' ≤ c && c ≤ 'f')

/-- An incident id that `_INCIDENT_ID` has found. -/
def Extracted (lib : Adapter) (incidentId : String) : Prop :=
  ∃ id found, lib.incidentId.search id = some found ∧ incidentId = String.ofList (Adapter.incidentOf found)

/-- **An update of a provider without a colon**, as the adapter makes it. -/
structure Proper (lib : Adapter) (u : IncidentUpdate) : Prop where
  provider : ':' ∉ u.provider.toList
  incident : Extracted lib u.incidentId
  update : ∀ c ∈ u.updateId.toList, isHexDigit c = true

/-- An incident id is made of word characters and hyphens. -/
theorem mem_incidentOf {lib : Adapter} {id : List Char} {found : Regex.Match Char}
    (search : lib.incidentId.search id = some found) {c : Char} (member : c ∈ Adapter.incidentOf found) :
    (lib.isWord c || c == '-') = true := by
  obtain ⟨before, after, rest, -, here⟩ := Regex.first_of_search search
  have way := Regex.mem_ways_of_first here
  rcases List.mem_append.mp way with incident | path
  · obtain ⟨x, head, tail⟩ := Regex.mem_ways_seq.mp incident
    obtain ⟨-, -, -, none⟩ := mem_ways_anyCase.mp head
    obtain ⟨y, captured, last⟩ := Regex.mem_ways_seq.mp tail
    obtain rfl := List.mem_singleton.mp last
    obtain ⟨text, -, every, -, groups⟩ := Regex.mem_ways_group_some.mp captured
    have same : Adapter.incidentOf found = text := by
      unfold Adapter.incidentOf Regex.Match.group
      rw [show found.groups = (1, text) :: x.groups from groups]
      rfl
    rw [every c (same ▸ member), Bool.true_or]
  · obtain ⟨x, head, tail⟩ := Regex.mem_ways_seq.mp path
    obtain ⟨-, -, -, none⟩ := mem_ways_anyCase.mp head
    obtain ⟨y, plural, tail⟩ := Regex.mem_ways_seq.mp tail
    have none' : y.groups = x.groups := by
      rcases List.mem_append.mp plural with letter | nothing
      · exact (mem_ways_anyCase.mp letter).choose_spec.2.2
      · rw [List.mem_singleton.mp nothing]
    obtain ⟨z, slash, tail⟩ := Regex.mem_ways_seq.mp tail
    obtain ⟨-, -, -, none''⟩ := mem_ways_anyCase.mp slash
    obtain ⟨u, captured, last⟩ := Regex.mem_ways_seq.mp tail
    obtain rfl := List.mem_singleton.mp last
    obtain ⟨text, -, every, -, groups⟩ := Regex.mem_ways_group_some.mp captured
    have same : Adapter.incidentOf found = text := by
      unfold Adapter.incidentOf Regex.Match.group
      rw [show found.groups = (2, text) :: z.groups from groups, none'', none', none]
      rfl
    exact every c (same ▸ member)

/-- No incident id holds a colon. -/
theorem Extracted.noColon {lib : Adapter} (colon : lib.isWord ':' = false) {incidentId : String}
    (extracted : Extracted lib incidentId) : ':' ∉ incidentId.toList := by
  obtain ⟨id, found, search, rfl⟩ := extracted
  rw [String.toList_ofList]
  intro member
  have passes := mem_incidentOf search member
  rw [colon] at passes
  cases passes

/-! ### Two parts and a colon -/

/-- The two sides of a first colon. -/
theorem colon_inj {first first' second second' : String} (clear : ':' ∉ first.toList)
    (clear' : ':' ∉ first'.toList) (same : first ++ ":" ++ second = first' ++ ":" ++ second') :
    first = first' ∧ second = second' := by
  have letters := congrArg String.toList same
  rw [String.toList_append, String.toList_append, String.toList_append, String.toList_append,
    List.append_assoc, List.append_assoc] at letters
  obtain ⟨one, two⟩ := separator_append_inj clear clear' letters
  exact ⟨String.toList_injective one, String.toList_injective two⟩

theorem partitionKey_inj {u v : IncidentUpdate} (clear : ':' ∉ u.provider.toList)
    (clear' : ':' ∉ v.provider.toList) (same : u.partitionKey = v.partitionKey) :
    u.provider = v.provider ∧ u.incidentId = v.incidentId :=
  colon_inj clear clear' same

theorem dedupKey_inj {u v : IncidentUpdate} (clear : ':' ∉ u.provider.toList)
    (clear' : ':' ∉ v.provider.toList) (inside : ':' ∉ u.incidentId.toList)
    (inside' : ':' ∉ v.incidentId.toList) (same : u.dedupKey = v.dedupKey) :
    u.provider = v.provider ∧ u.incidentId = v.incidentId ∧ u.updateId = v.updateId := by
  have letters := congrArg String.toList same
  unfold IncidentUpdate.dedupKey at letters
  simp only [String.toList_append, List.append_assoc] at letters
  obtain ⟨providers, rest⟩ := separator_append_inj clear clear' letters
  obtain ⟨incidents, updates⟩ := separator_append_inj inside inside' rest
  exact ⟨String.toList_injective providers, String.toList_injective incidents,
    String.toList_injective updates⟩

/-- **The stream job's keys are the poller's.** -/
theorem normalized_keys (library : Library) (readStamp : String → Option Int) (procTime : Int)
    (u : IncidentUpdate) :
    (received readStamp (toMessage library u) procTime).normalized.eventId = some u.dedupKey ∧
      (received readStamp (toMessage library u) procTime).normalized.incidentId =
        some u.partitionKey :=
  ⟨rfl, rfl⟩

/-! ### The number of a chunk -/

/-- What a cast to `integer` raises. -/
inductive CastError
  | invalidText
  | outOfRange
deriving DecidableEq, Repr

/-- A number as an `integer` column takes it. -/
def toInteger (n : ℕ) : Except CastError ℕ := if n < 2 ^ 31 then .ok n else .error .outOfRange

/-- `::int`, of a text of digits. -/
def castInteger (digits : List Char) : Except CastError ℕ :=
  if digits.all Char.isDigit then toInteger (Nat.ofDigitChars 10 digits 0) else .error .invalidText

/-- `'_(\d+)$'`, where `isDigit` is the database's `\d`. -/
def chunkSuffix (isDigit : Char → Bool) : Regex Char :=
  .all [.one (· == '_'), .group 1 (.some isDigit), .atEnd]

/-- `coalesce((regexp_match(chunk_id, '_(\d+)$'))[1]::int, 0)`. -/
def legacyChunkIndex (isDigit : Char → Bool) (chunkId : String) : Except CastError ℕ :=
  match (chunkSuffix isDigit).search chunkId.toList with
  | none => .ok 0
  | some found => castInteger ((found.group 1).getD [])

section Suffix

variable {isDigit : Char → Bool}

theorem mem_ways_chunkSuffix {input : List Char} {v : Way Char} :
    v ∈ (chunkSuffix isDigit).ways ⟨input, []⟩ ↔ ∃ digits, digits ≠ [] ∧
      (∀ c ∈ digits, isDigit c = true) ∧ input = '_' :: digits ∧ v = ⟨[], [(1, digits)]⟩ := by
  constructor
  · intro member
    obtain ⟨x, head, tail⟩ := Regex.mem_ways_seq.mp member
    obtain ⟨c, first, passes, none⟩ := Regex.mem_ways_one.mp head
    obtain ⟨y, captured, tail⟩ := Regex.mem_ways_seq.mp tail
    obtain ⟨digits, nonempty, every, split, groups⟩ := Regex.mem_ways_group_some.mp captured
    obtain ⟨z, ended, last⟩ := Regex.mem_ways_seq.mp tail
    obtain rfl := List.mem_singleton.mp last
    unfold Regex.ways at ended
    split_ifs at ended with empty
    · obtain rfl := List.mem_singleton.mp ended
      have empty := List.isEmpty_iff.mp empty
      obtain rfl := eq_of_beq passes
      refine ⟨digits, nonempty, every, ?_, ?_⟩
      · rw [show input = _ from first, split, empty, List.append_nil]
      · rw [none] at groups
        obtain ⟨rest, held⟩ := v
        obtain rfl : rest = [] := empty
        obtain rfl : held = [(1, digits)] := groups
        rfl
    · cases ended
  · rintro ⟨digits, nonempty, every, rfl, rfl⟩
    refine Regex.mem_ways_seq.mpr ⟨⟨digits, []⟩, Regex.mem_ways_one.mpr ⟨'_', rfl, rfl, rfl⟩,
      Regex.mem_ways_seq.mpr ⟨⟨[], [(1, digits)]⟩, Regex.mem_ways_group_some.mpr
        ⟨digits, nonempty, every, (List.append_nil _).symm, rfl⟩,
      Regex.mem_ways_seq.mpr ⟨⟨[], [(1, digits)]⟩, List.mem_singleton_self _,
        List.mem_singleton_self _⟩⟩⟩

/-- **The match is the last underscore and the digits behind it.** -/
theorem search_chunkSuffix {name digits : List Char} (underscore : isDigit '_' = false)
    (nonempty : digits ≠ []) (every : ∀ c ∈ digits, isDigit c = true) :
    (chunkSuffix isDigit).search (name ++ '_' :: digits) =
      some ⟨'_' :: digits, [(1, digits)]⟩ := by
  rw [Regex.search_append]
  · have here : ⟨[], [(1, digits)]⟩ ∈ (chunkSuffix isDigit).ways ⟨'_' :: digits, []⟩ :=
      mem_ways_chunkSuffix.mpr ⟨digits, nonempty, every, rfl, rfl⟩
    cases found : (chunkSuffix isDigit).first ('_' :: digits) with
    | none =>
      rw [Regex.first_eq_none.mp found] at here
      cases here
    | some result =>
      obtain ⟨m, rest⟩ := result
      obtain ⟨digits', -, -, same, way⟩ := mem_ways_chunkSuffix.mp (Regex.mem_ways_of_first found)
      obtain ⟨-, rfl⟩ := List.cons.inj same
      obtain ⟨rfl, groups⟩ := Way.mk.inj way
      have text := Regex.first_split found
      rw [List.append_nil] at text
      rw [Regex.search_of_first found, text, ← groups]
  · intro before c after split
    rw [Regex.first_eq_none, List.eq_nil_iff_forall_not_mem]
    intro v member
    obtain ⟨digits', -, letters, same, -⟩ := mem_ways_chunkSuffix.mp member
    -- The underscore behind would be a digit.
    have inside : '_' ∈ digits' := by
      obtain ⟨-, rfl⟩ := List.cons.inj same
      exact List.mem_append_right _ List.mem_cons_self
    rw [letters '_' inside] at underscore
    cases underscore

/-- **The number is read back** from the id of a chunk. -/
theorem legacyChunkIndex_chunkId (ascii : ∀ c, c.isDigit = true → isDigit c = true)
    (underscore : isDigit '_' = false) (eventId : String) (i : ℕ) :
    legacyChunkIndex isDigit (chunkId eventId i) = toInteger i := by
  have digits : ∀ c ∈ Nat.toDigits 10 i, c.isDigit = true := fun c member =>
    Nat.isDigit_of_mem_toDigits (by decide) (by decide) member
  have found := @search_chunkSuffix isDigit ("chk_".toList ++ eventId.toList) (Nat.toDigits 10 i)
    underscore Nat.toDigits_ne_nil fun c member => ascii c (digits c member)
  unfold legacyChunkIndex
  rw [toList_chunkId, suffixed, found]
  show castInteger (Nat.toDigits 10 i) = _
  unfold castInteger
  rw [if_pos (List.all_eq_true.mpr digits), Nat.ofDigitChars_ten_toDigits]

end Suffix

/-- **Keys never collide.** `_INCIDENT_ID` takes no colon for a word character; the database takes the
ten digits for digits and the underscore for none. -/
theorem keys_apart (lib : Adapter) (colon : lib.isWord ':' = false) (isDigit : Char → Bool)
    (ascii : ∀ c, c.isDigit = true → isDigit c = true) (underscore : isDigit '_' = false) :
    (∀ u v, Proper lib u → Proper lib v → u.partitionKey = v.partitionKey →
      u.provider = v.provider ∧ u.incidentId = v.incidentId) ∧
    (∀ u v, Proper lib u → Proper lib v → u.dedupKey = v.dedupKey →
      u.provider = v.provider ∧ u.incidentId = v.incidentId ∧ u.updateId = v.updateId) ∧
    (∀ library readStamp procTime u,
      (received readStamp (toMessage library u) procTime).normalized.eventId = some u.dedupKey ∧
      (received readStamp (toMessage library u) procTime).normalized.incidentId =
        some u.partitionKey) ∧
    (∀ eventId eventId' i i', chunkId eventId i = chunkId eventId' i' → eventId = eventId' ∧ i = i') ∧
    ∀ eventId i, legacyChunkIndex isDigit (chunkId eventId i) = toInteger i := by
  refine ⟨?_, ?_, normalized_keys, fun _ _ _ _ => chunkId_inj,
    legacyChunkIndex_chunkId ascii underscore⟩
  · exact fun u v proper proper' => partitionKey_inj proper.provider proper'.provider
  · exact fun u v proper proper' => dedupKey_inj proper.provider proper'.provider
      (proper.incident.noColon colon) (proper'.incident.noColon colon)

/-! An adapter that reads ASCII. -/

def asciiWords : Adapter where
  fromString _ := none
  fromIsoFormat _ := none
  isoformat _ := []
  isWord c := c.isAlphanum || c == '_'
  lower text := text.map Char.toLower
  html5 _ := none
  intMaxStrDigits := 4300
  digest _ := ""

/-- An update of incident.io. -/
def liveUpdate : IncidentUpdate where
  provider := "openai"
  incidentId := "01KXPGWH5Y"
  updateId := "74a76a4ddfe3"
  createdAt := 0
  status := "Monitoring"
  text := "A fix is live."
  incidentName := "Elevated errors"

/-- One of Statuspage, of another provider. -/
def pagedUpdate : IncidentUpdate :=
  { liveUpdate with provider := "box", incidentId := "30125", updateId := "0a" }

theorem extracted_of_search {lib : Adapter} {id : List Char} {incidentId : String}
    (found : (lib.incidentId.search id).map (fun found => String.ofList (Adapter.incidentOf found)) =
      some incidentId) : Extracted lib incidentId := by
  obtain ⟨here, search, rfl⟩ := Option.map_eq_some_iff.mp found
  exact ⟨id, here, search, rfl⟩

theorem liveUpdate_proper : Proper asciiWords liveUpdate where
  provider := by decide
  incident := @extracted_of_search _ "tag:status.openai.com,2026:Incident/01KXPGWH5Y".toList _
    (by decide +kernel)
  update := List.all_eq_true.mp (by decide)

theorem pagedUpdate_proper : Proper asciiWords pagedUpdate where
  provider := by decide
  incident := @extracted_of_search _ "https://status.box.com/incidents/30125".toList _
    (by decide +kernel)
  update := List.all_eq_true.mp (by decide)

/-- Two updates with two keys, and a chunk whose number is read back. -/
theorem keys_apart_ascii :
    liveUpdate.partitionKey ≠ pagedUpdate.partitionKey ∧
    liveUpdate.dedupKey ≠ pagedUpdate.dedupKey ∧
    legacyChunkIndex Char.isDigit (chunkId "box:29_247-55:74a76a4ddfe3" 12) = .ok 12 := by
  have apart := keys_apart asciiWords (by decide) Char.isDigit (fun _ digit => digit) (by decide)
  obtain ⟨partitions, updates, -, -, numbers⟩ := apart
  have different : liveUpdate.provider ≠ pagedUpdate.provider := by decide
  refine ⟨fun same => ?_, fun same => ?_, numbers _ 12⟩
  · exact different (partitions _ _ liveUpdate_proper pagedUpdate_proper same).1
  · exact different (updates _ _ liveUpdate_proper pagedUpdate_proper same).1

end Freshet.Pipeline
