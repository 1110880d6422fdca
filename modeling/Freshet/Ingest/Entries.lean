/-
**A feed, entry by entry**: how an entry is dated, when it is skipped, and that the loop over the
entries appends what each of them gives.
-/

import Freshet.Ingest.Statuspage
import Freshet.Lib.StableSort

namespace Freshet.Ingest.Adapter

open Freshet.Lib

variable {lib : Adapter}

/-! ### The date of an entry -/

/-- The stamp that an entry is dated by. -/
def stampText (entry : Entry) : List Char :=
  if text entry.updated = [] then text entry.published else text entry.updated

/-- `raw.replace("Z", "+00:00")`. -/
def zoned (raw : List Char) : List Char :=
  raw.flatMap fun c => if c = 'Z' then "+00:00".toList else [c]

/-- The revision is read when it is an instant that a `datetime` holds, or none. -/
theorem parseIso_eq_ok {raw : List Char} {result : Option DateTime} :
    lib.parseIso raw = .ok result ↔
      lib.fromIsoFormat (zoned raw) = none ∧ result = none ∨
        ∃ clock ahead revised, lib.fromIsoFormat (zoned raw) = some (clock, ahead) ∧
          dateTimeOf (clock.instant - ahead) = .ok revised ∧ result = some revised := by
  unfold parseIso
  unfold zoned
  cases lib.fromIsoFormat (raw.flatMap fun c => if c = 'Z' then "+00:00".toList else [c]) with
  | none =>
    show Except.ok none = .ok result ↔ _
    simp [eq_comm]
  | some read =>
    obtain ⟨clock, ahead⟩ := read
    show (dateTimeOf (clock.instant - ahead)).map some = .ok result ↔ _
    rw [map_eq_ok]
    constructor
    · rintro ⟨revised, made, rfl⟩
      exact Or.inr ⟨clock, ahead, revised, rfl, made, rfl⟩
    · rintro (⟨missing, -⟩ | ⟨clock', ahead', revised, same, made, rfl⟩)
      · exact absurd missing nofun
      · obtain ⟨rfl, rfl⟩ := Prod.ext_iff.mp (Option.some_injective _ same)
        exact ⟨revised, made, rfl⟩

/-- A dated entry with an incident is parsed as its markup is. -/
theorem entryUpdates_usable {provider : String} {entry : Entry} {incident : Regex.Match Char}
    {revised : DateTime} (found : lib.incidentId.search (text entry.id) = some incident)
    (read : lib.parseIso (stampText entry) = .ok (some revised)) :
    lib.entryUpdates provider entry = lib.unescaped (text entry.content) >>=
      lib.markupUpdates ⟨provider, incidentOf incident, text entry.title, revised⟩ := by
  unfold entryUpdates
  rw [show lib.parseIso (if text entry.updated = [] then text entry.published
    else text entry.updated) = .ok (some revised) from read, found]
  rfl

/-- Another gives nothing. -/
theorem entryUpdates_skipped {provider : String} {entry : Entry} {result : Option DateTime}
    (read : lib.parseIso (stampText entry) = .ok result)
    (missing : lib.incidentId.search (text entry.id) = none ∨ result = none) :
    lib.entryUpdates provider entry = .ok [] := by
  unfold entryUpdates
  rw [show lib.parseIso (if text entry.updated = [] then text entry.published
    else text entry.updated) = .ok result from read]
  rcases missing with unnamed | rfl
  · rw [unnamed]
    rfl
  · cases lib.incidentId.search (text entry.id) <;> rfl

theorem entryUpdates_read {provider : String} {entry : Entry} {updates : List IncidentUpdate}
    (done : lib.entryUpdates provider entry = .ok updates) :
    ∃ result, lib.parseIso (stampText entry) = .ok result := by
  unfold entryUpdates at done
  obtain ⟨result, read, -⟩ := bind_eq_ok.mp done
  exact ⟨result, mapError_eq_ok.mp read⟩

/-- An entry with update blocks is parsed block by block. -/
theorem entryUpdates_blocks {provider : String} {entry : Entry} {incident : Regex.Match Char}
    {revised : DateTime} {markup : List Char}
    (found : lib.incidentId.search (text entry.id) = some incident)
    (read : lib.parseIso (stampText entry) = .ok (some revised))
    (escaped : lib.unescaped (text entry.content) = .ok markup) (full : update.findAll markup ≠ []) :
    lib.entryUpdates provider entry = lib.blockUpdates
      ⟨provider, incidentOf incident, text entry.title, revised⟩ [] (update.findAll markup) := by
  rw [entryUpdates_usable found read, escaped]
  show lib.markupUpdates _ markup = _
  unfold markupUpdates
  cases blocks : update.findAll markup with
  | nil => exact absurd blocks full
  | cons block later => rfl

/-! ### The loop over the entries -/

/-- The loop over the entries appends what each gives. -/
theorem entriesUpdates_eq_ok {provider : String} {entries : List Entry}
    {updates : List IncidentUpdate} :
    lib.entriesUpdates provider entries = .ok updates ↔
      ∃ parts, List.Forall₂ (fun entry part => lib.entryUpdates provider entry = .ok part)
        entries parts ∧ parts.flatten = updates := by
  induction entries generalizing updates with
  | nil =>
    constructor
    · intro done
      obtain rfl := Except.ok.inj done
      exact ⟨[], .nil, rfl⟩
    · rintro ⟨parts, each, rfl⟩
      cases each
      rfl
  | cons entry later ih =>
    unfold entriesUpdates
    constructor
    · intro done
      obtain ⟨here, parsed, done⟩ := bind_eq_ok.mp done
      obtain ⟨rest, after, done⟩ := bind_eq_ok.mp done
      obtain ⟨parts, each, rfl⟩ := ih.mp after
      obtain rfl := Except.ok.inj done
      exact ⟨here :: parts, .cons parsed each, rfl⟩
    · rintro ⟨parts, each, rfl⟩
      obtain ⟨here, rest, parsed, after, rfl⟩ := List.forall₂_cons_left_iff.mp each
      exact bind_eq_ok.mpr ⟨here, parsed,
        bind_eq_ok.mpr ⟨rest.flatten, ih.mpr ⟨rest, after, rfl⟩, rfl⟩⟩

/-- What the loop appends is given by an entry. -/
theorem of_mem_entriesUpdates {provider : String} {entries : List Entry}
    {updates : List IncidentUpdate} (done : lib.entriesUpdates provider entries = .ok updates)
    {u : IncidentUpdate} (member : u ∈ updates) :
    ∃ entry ∈ entries, ∃ part, lib.entryUpdates provider entry = .ok part ∧ u ∈ part := by
  obtain ⟨parts, each, rfl⟩ := entriesUpdates_eq_ok.mp done
  induction each with
  | nil => exact absurd member List.not_mem_nil
  | @cons entry part entries parts parsed each ih =>
    rw [List.flatten_cons] at member
    rcases List.mem_append.mp member with here | later
    · exact ⟨entry, List.mem_cons_self, part, parsed, here⟩
    · obtain ⟨entry', among, found⟩ := ih (entriesUpdates_eq_ok.mpr ⟨parts, each, rfl⟩) later
      exact ⟨entry', List.mem_cons_of_mem _ among, found⟩

/-- What the loop appends before, at and behind an entry. -/
theorem entriesUpdates_split {provider : String} {front back : List Entry} {entry : Entry}
    {updates : List IncidentUpdate}
    (done : lib.entriesUpdates provider (front ++ entry :: back) = .ok updates) :
    ∃ fronts mine backs, lib.entriesUpdates provider front = .ok fronts ∧
      lib.entryUpdates provider entry = .ok mine ∧ lib.entriesUpdates provider back = .ok backs ∧
      updates = fronts ++ (mine ++ backs) := by
  induction front generalizing updates with
  | nil =>
    obtain ⟨mine, parsed, done⟩ := bind_eq_ok.mp done
    obtain ⟨backs, after, done⟩ := bind_eq_ok.mp done
    exact ⟨[], mine, backs, rfl, parsed, after, (Except.ok.inj done).symm⟩
  | cons first later ih =>
    obtain ⟨here, parsed, done⟩ := bind_eq_ok.mp done
    obtain ⟨rest, after, done⟩ := bind_eq_ok.mp done
    obtain ⟨fronts, mine, backs, before, parsed', behind, rfl⟩ := ih after
    obtain rfl := Except.ok.inj done
    refine ⟨here ++ fronts, mine, backs, ?_, parsed', behind, (List.append_assoc _ _ _).symm⟩
    exact bind_eq_ok.mpr ⟨here, parsed, bind_eq_ok.mpr ⟨fronts, before, rfl⟩⟩

theorem entriesUpdates_join {provider : String} {front back : List Entry} {entry : Entry}
    {fronts mine backs : List IncidentUpdate}
    (before : lib.entriesUpdates provider front = .ok fronts)
    (here : lib.entryUpdates provider entry = .ok mine)
    (behind : lib.entriesUpdates provider back = .ok backs) :
    lib.entriesUpdates provider (front ++ entry :: back) = .ok (fronts ++ (mine ++ backs)) := by
  induction front generalizing fronts with
  | nil =>
    obtain rfl := Except.ok.inj before
    exact bind_eq_ok.mpr ⟨mine, here, bind_eq_ok.mpr ⟨backs, behind, rfl⟩⟩
  | cons first later ih =>
    obtain ⟨one, parsed, before⟩ := bind_eq_ok.mp before
    obtain ⟨rest, after, before⟩ := bind_eq_ok.mp before
    obtain rfl := Except.ok.inj before
    rw [List.append_assoc]
    exact bind_eq_ok.mpr ⟨one, parsed, bind_eq_ok.mpr ⟨_, ih after, rfl⟩⟩

theorem sorted_spec (updates : List IncidentUpdate) :
    StableSort IncidentUpdate.createdAt updates (sorted updates) :=
  StableSort.insertionSort updates

end Freshet.Ingest.Adapter
