/-
**One bad entry harms all others**: `parse_atom` raises when an entry's times leave the years 1 to
9999, or its content writes a number that `int` does not take.

`_parse_iso` catches `ValueError`, but a stamp that cannot be moved to UTC raises `OverflowError`, as
the arithmetic of `_parse_when` does next to both ends. `parseAtom_each_iff` says exactly when the
feed is parsed entry by entry: when every entry is `Calculable`.
-/

import Freshet.Ingest.Entries

namespace Freshet.Ingest

open Freshet.Lib

/-! ### When the stamp of a block is formed -/

/-- A `datetime` holds the instant. -/
def InYears (instant : Int) : Prop := yearStart 1 ≤ instant ∧ instant < yearStart 10000

instance (instant : Int) : Decidable (InYears instant) := instDecidableAnd

/-- **Every datetime that is formed for a stamp exists**: the stamp itself, the minute after the
revision, and 400 days before it, unless the stamp is one of February the 29th that rolls over. -/
structure Formed (clock : Clock) (hours : Int) (revised : DateTime) : Prop where
  stamp : InYears (clock.instant - hours * usPerHour)
  latest : revised.instant + usPerMinute < yearStart 10000
  oldest : yearStart 1 ≤ revised.instant - 400 * usPerDay ∨
    revised.instant + usPerMinute < clock.instant - hours * usPerHour ∧
      replaceYear clock (revised.year - 1) = none

theorem checked_eq_ok {instant result : Int} :
    checked instant = .ok result ↔ InYears instant ∧ instant = result := by
  unfold checked InYears
  split_ifs with inside
  · simp [inside]
  · simp [inside]

theorem toUtc_eq_ok {clock : Clock} {hours stamp : Int} :
    toUtc clock hours = .ok stamp ↔
      InYears (clock.instant - hours * usPerHour) ∧ clock.instant - hours * usPerHour = stamp :=
  checked_eq_ok

/-- The last guard forms one datetime. -/
theorem notTooOld_ok_iff {stamp : Int} {revised : DateTime} :
    (∃ result, notTooOld stamp revised = .ok result) ↔
      yearStart 1 ≤ revised.instant - 400 * usPerDay := by
  constructor
  · rintro ⟨result, done⟩
    obtain ⟨oldest, formed, -⟩ := bind_eq_ok.mp done
    exact (checked_eq_ok.mp formed).1.1
  · intro early
    have bounds := revised.instant_supported
    unfold notTooOld
    rw [checked_ok early (by unfold usPerDay; omega)]
    show ∃ result, (if stamp < _ then _ else _) = _
    split_ifs
    · exact ⟨none, rfl⟩
    · exact ⟨some stamp, rfl⟩

/-- A stamp that rolls over is formed again, a year earlier. -/
theorem rollBack_ok_iff {clock : Clock} {hours : Int} {revised : DateTime}
    (year : clock.year = revised.year) (inside : InYears (clock.instant - hours * usPerHour))
    (rolled : revised.instant + usPerMinute < clock.instant - hours * usPerHour) :
    (∃ result, rollBack clock hours revised = .ok result) ↔
      yearStart 1 ≤ revised.instant - 400 * usPerDay ∨
        replaceYear clock (revised.year - 1) = none := by
  unfold rollBack
  cases found : replaceYear clock (revised.year - 1) with
  | none => exact ⟨fun _ => Or.inr rfl, fun _ => ⟨none, rfl⟩⟩
  | some earlier =>
    show (∃ result, (toUtc earlier hours >>= fun stamp => notTooOld stamp revised) = _) ↔ _
    constructor
    · rintro ⟨result, done⟩
      obtain ⟨stamp, -, last⟩ := bind_eq_ok.mp done
      exact Or.inl (notTooOld_ok_iff.mp ⟨result, last⟩)
    · rintro (early | missing)
      · obtain ⟨result, last⟩ := notTooOld_ok_iff.mpr early
        refine ⟨result, bind_eq_ok.mpr ⟨_, toUtc_eq_ok.mpr ⟨?_, rfl⟩, last⟩⟩
        -- a year is 366 days at most, and the stamp lies after the revision
        have here : clock.inYear (revised.year - 1) = some earlier := by
          unfold replaceYear at found
          split_ifs at found
          exact found
        have next : earlier.inYear (earlier.year + 1) = some clock := by
          rw [Clock.year_of_inYear here, Int.sub_add_cancel, ← year]
          exact Clock.inYear_back here
        obtain ⟨near, far⟩ := Clock.inYear_gap next
        obtain ⟨-, upper⟩ := inside
        unfold usPerDay at near far early
        unfold usPerMinute at rolled
        exact ⟨by omega, by omega⟩
      · exact absurd missing (Option.some_ne_none earlier)

/-- **A stamp is resolved, or none, exactly when every datetime on the way exists.** -/
theorem resolve_ok_iff {clock : Clock} {hours : Int} {revised : DateTime}
    (year : clock.year = revised.year) :
    (∃ result, resolve clock hours revised = .ok result) ↔ Formed clock hours revised := by
  have bounds := revised.instant_supported
  by_cases inside : InYears (clock.instant - hours * usPerHour)
  · have formed := toUtc_eq_ok.mpr ⟨inside, rfl⟩
    by_cases latest : revised.instant + usPerMinute < yearStart 10000
    · by_cases rolled : revised.instant + usPerMinute < clock.instant - hours * usPerHour
      · rw [resolve_rolled formed latest rolled, rollBack_ok_iff year inside rolled]
        exact ⟨fun oldest => ⟨inside, latest, oldest.imp_right fun missing => ⟨rolled, missing⟩⟩,
          fun whole => whole.oldest.imp_right And.right⟩
      · rw [resolve_kept formed latest (not_lt.mp rolled), notTooOld_ok_iff]
        exact ⟨fun oldest => ⟨inside, latest, Or.inl oldest⟩,
          fun whole => whole.oldest.resolve_right fun other => rolled other.1⟩
    · rw [resolve_last formed latest]
      exact ⟨fun done => absurd done.choose_spec nofun, fun whole => absurd whole.latest latest⟩
  · rw [resolve_error (checked_error inside)]
    exact ⟨fun done => absurd done.choose_spec nofun, fun whole => absurd whole.stamp inside⟩

/-- The local time is of the revision's year. -/
theorem year_of_localTime {revised : DateTime} {found : Regex.Match Char} {clock : Clock}
    {hours : Int} (read : localTime revised found = some (clock, hours)) :
    clock.year = revised.year := by
  unfold localTime at read
  obtain ⟨month, -, read⟩ := Option.bind_eq_some_iff.mp read
  obtain ⟨offset, -, read⟩ := Option.bind_eq_some_iff.mp read
  obtain ⟨other, made, read⟩ := Option.bind_eq_some_iff.mp read
  obtain ⟨rfl, -⟩ := Prod.ext_iff.mp (Option.some_injective _ read)
  show other.year = revised.year
  unfold datetime Clock.make at made
  split_ifs at made
  obtain rfl := Option.some_injective _ made
  rfl

/-- What a block shows as its time can be worked out. -/
def Datable (raw : List Char) (revised : DateTime) : Prop :=
  ∀ clock hours, (when.search (plain raw)).bind (localTime revised) = some (clock, hours) →
    Formed clock hours revised

theorem parseWhen_ok_iff {raw : List Char} {revised : DateTime} :
    (∃ result, parseWhen raw revised = .ok result) ↔ Datable raw revised := by
  unfold parseWhen Datable
  cases shown : (when.search (plain raw)).bind (localTime revised) with
  | none => exact ⟨nofun, fun _ => ⟨none, rfl⟩⟩
  | some local' =>
    obtain ⟨clock, hours⟩ := local'
    obtain ⟨found, -, read⟩ := Option.bind_eq_some_iff.mp shown
    show (∃ result, resolve clock hours revised = _) ↔ _
    rw [resolve_ok_iff (year_of_localTime read)]
    constructor
    · intro formed other offset same
      obtain ⟨rfl, rfl⟩ := Prod.ext_iff.mp (Option.some_injective _ same)
      exact formed
    · intro every
      exact every clock hours rfl

namespace Adapter

variable {lib : Adapter}

/-! ### When an entry is parsed -/

/-- No decimal reference of the content has more digits than `int` takes. -/
def Unescapable (lib : Adapter) (content : List Char) : Prop :=
  lib.intMaxStrDigits = 0 ∨ ∀ found ∈ charref.findAll content, lib.exceedsLimit found = false

/-- **Everything that is calculated for an entry can be**: the revision is an instant that a
`datetime` holds, every number in the content is one that `int` takes, and the stamp of every update
block is formed. -/
structure Calculable (lib : Adapter) (entry : Entry) : Prop where
  revision : ∀ clock ahead, lib.fromIsoFormat (zoned (stampText entry)) = some (clock, ahead) →
    InYears (clock.instant - ahead)
  content : ∀ incident clock ahead revised,
    lib.incidentId.search (text entry.id) = some incident →
    lib.fromIsoFormat (zoned (stampText entry)) = some (clock, ahead) →
    dateTimeOf (clock.instant - ahead) = .ok revised →
    lib.Unescapable (text entry.content) ∧
      ∀ block ∈ update.findAll (unescape lib.html5 (text entry.content)),
        Datable ((block.group 1).getD []) revised

/-- **The entry cannot be used**: its id names no incident, or it has no readable date. -/
def Unusable (lib : Adapter) (entry : Entry) : Prop :=
  lib.incidentId.search (text entry.id) = none ∨
    lib.fromIsoFormat (zoned (stampText entry)) = none

theorem dateTimeOf_ok_iff {instant : Int} :
    (∃ result, dateTimeOf instant = .ok result) ↔ InYears instant := by
  unfold dateTimeOf InYears
  split_ifs with inside
  · exact ⟨fun _ => inside, fun _ => ⟨_, rfl⟩⟩
  · exact ⟨fun done => absurd done.choose_spec nofun, fun within => absurd within inside⟩

theorem unescaped_ok_iff {content markup : List Char} :
    lib.unescaped content = .ok markup ↔
      lib.Unescapable content ∧ unescape lib.html5 content = markup := by
  unfold unescaped Unescapable
  split_ifs with exceeds
  · refine ⟨nofun, fun both => ?_⟩
    obtain ⟨limited, here⟩ := exceeds
    obtain ⟨found, among, more⟩ := List.any_eq_true.mp here
    rcases both.1 with unlimited | every
    · exact absurd unlimited limited
    · rw [every found among] at more
      exact absurd more Bool.false_ne_true
  · rw [Except.ok.injEq]
    refine ⟨fun same => ⟨?_, same⟩, And.right⟩
    rcases not_and_or.mp exceeds with unlimited | none
    · exact Or.inl (not_not.mp unlimited)
    · refine Or.inr fun found among => ?_
      rw [List.any_eq_true] at none
      cases more : lib.exceedsLimit found with
      | false => rfl
      | true => exact absurd ⟨found, among, more⟩ none

/-- The loop over the blocks is done when each block's stamp is. -/
theorem blockUpdates_ok_iff {heading : Heading} {seen : Dict (List Char) Nat}
    {blocks : List (Regex.Match Char)} :
    (∃ updates, lib.blockUpdates heading seen blocks = .ok updates) ↔
      ∀ block ∈ blocks, Datable ((block.group 1).getD []) heading.revised := by
  induction blocks generalizing seen with
  | nil => exact ⟨nofun, fun _ => ⟨[], rfl⟩⟩
  | cons block later ih =>
    rw [List.forall_mem_cons, ← parseWhen_ok_iff]
    constructor
    · rintro ⟨updates, done⟩
      obtain ⟨stamp, dated, done⟩ := bind_eq_ok.mp done
      obtain ⟨rest, after, -⟩ := bind_eq_ok.mp done
      exact ⟨⟨stamp, mapError_eq_ok.mp dated⟩, ih.mp ⟨rest, after⟩⟩
    · rintro ⟨⟨stamp, dated⟩, every⟩
      obtain ⟨rest, after⟩ := ih.mpr every
      exact ⟨_, bind_eq_ok.mpr ⟨stamp, mapError_eq_ok.mpr dated, bind_eq_ok.mpr ⟨rest, after, rfl⟩⟩⟩

theorem markupUpdates_ok_iff {heading : Heading} {markup : List Char} :
    (∃ updates, lib.markupUpdates heading markup = .ok updates) ↔
      ∀ block ∈ update.findAll markup, Datable ((block.group 1).getD []) heading.revised := by
  unfold markupUpdates
  cases update.findAll markup with
  | cons block blocks => exact blockUpdates_ok_iff
  | nil =>
    refine ⟨fun _ => nofun, fun _ => ?_⟩
    cases statusLine.search markup with
    | none => exact ⟨_, rfl⟩
    | some single => exact ⟨_, rfl⟩

/-- An entry that cannot be used gives nothing. -/
theorem entryUpdates_unusable {provider : String} {entry : Entry} {updates : List IncidentUpdate}
    (unusable : lib.Unusable entry) (done : lib.entryUpdates provider entry = .ok updates) :
    updates = [] := by
  obtain ⟨result, read⟩ := entryUpdates_read done
  have missing : lib.incidentId.search (text entry.id) = none ∨ result = none := by
    refine unusable.imp_right fun undated => ?_
    rcases parseIso_eq_ok.mp read with ⟨-, none⟩ | ⟨clock, ahead, other, dated, -, -⟩
    · exact none
    · rw [undated] at dated
      exact absurd dated nofun
  rw [entryUpdates_skipped read missing] at done
  exact (Except.ok.inj done).symm

/-- **An entry is parsed exactly when everything it needs can be calculated.** -/
theorem entryUpdates_ok_iff {provider : String} {entry : Entry} :
    (∃ updates, lib.entryUpdates provider entry = .ok updates) ↔ lib.Calculable entry := by
  constructor
  · rintro ⟨updates, done⟩
    obtain ⟨result, read⟩ := entryUpdates_read done
    have held : ∀ clock ahead, lib.fromIsoFormat (zoned (stampText entry)) = some (clock, ahead) →
        ∃ revised, dateTimeOf (clock.instant - ahead) = .ok revised ∧
          lib.parseIso (stampText entry) = .ok (some revised) := by
      intro clock ahead dated
      rcases parseIso_eq_ok.mp read with ⟨missing, -⟩ | ⟨clock', ahead', revised, same, made, rfl⟩
      · rw [dated] at missing
        exact absurd missing nofun
      · rw [dated] at same
        obtain ⟨rfl, rfl⟩ := Prod.ext_iff.mp (Option.some_injective _ same)
        exact ⟨revised, made, read⟩
    refine ⟨fun clock ahead dated => ?_, fun incident clock ahead revised found dated made => ?_⟩
    · obtain ⟨revised, made, -⟩ := held clock ahead dated
      exact dateTimeOf_ok_iff.mp ⟨revised, made⟩
    · obtain ⟨other, made', parsed⟩ := held clock ahead dated
      rw [made] at made'
      obtain rfl := Except.ok.inj made'
      rw [entryUpdates_usable found parsed] at done
      obtain ⟨markup, escaped, done⟩ := bind_eq_ok.mp done
      obtain ⟨digits, rfl⟩ := unescaped_ok_iff.mp escaped
      exact ⟨digits, markupUpdates_ok_iff.mp ⟨updates, done⟩⟩
  · intro calculable
    cases dated : lib.fromIsoFormat (zoned (stampText entry)) with
    | none =>
      have read : lib.parseIso (stampText entry) = .ok none :=
        parseIso_eq_ok.mpr (Or.inl ⟨dated, rfl⟩)
      exact ⟨[], entryUpdates_skipped read (Or.inr rfl)⟩
    | some stamp =>
      obtain ⟨clock, ahead⟩ := stamp
      obtain ⟨revised, made⟩ := dateTimeOf_ok_iff.mpr (calculable.revision clock ahead dated)
      have read : lib.parseIso (stampText entry) = .ok (some revised) :=
        parseIso_eq_ok.mpr (Or.inr ⟨clock, ahead, revised, dated, made, rfl⟩)
      cases found : lib.incidentId.search (text entry.id) with
      | none => exact ⟨[], entryUpdates_skipped read (Or.inl found)⟩
      | some incident =>
        obtain ⟨digits, datable⟩ := calculable.content incident clock ahead revised found dated made
        obtain ⟨updates, done⟩ := (@markupUpdates_ok_iff lib
          ⟨provider, incidentOf incident, text entry.title, revised⟩ _).mpr datable
        rw [entryUpdates_usable found read]
        exact ⟨updates, bind_eq_ok.mpr ⟨_, unescaped_ok_iff.mpr ⟨digits, rfl⟩, done⟩⟩

theorem entriesUpdates_ok_iff {provider : String} {entries : List Entry} :
    (∃ updates, lib.entriesUpdates provider entries = .ok updates) ↔
      ∀ entry ∈ entries, lib.Calculable entry := by
  induction entries with
  | nil => exact ⟨nofun, fun _ => ⟨[], rfl⟩⟩
  | cons entry later ih =>
    rw [List.forall_mem_cons, ← ih, ← @entryUpdates_ok_iff lib provider entry]
    constructor
    · rintro ⟨updates, done⟩
      obtain ⟨here, parsed, done⟩ := bind_eq_ok.mp done
      obtain ⟨rest, after, -⟩ := bind_eq_ok.mp done
      exact ⟨⟨here, parsed⟩, rest, after⟩
    · rintro ⟨⟨here, parsed⟩, rest, after⟩
      exact ⟨_, bind_eq_ok.mpr ⟨here, parsed, bind_eq_ok.mpr ⟨rest, after, rfl⟩⟩⟩

/-! ### The feed -/

/-- **The feed is parsed entry by entry**: `parse_atom` returns, and its result is the stable sort of
what it returns for each entry alone, which is nothing for an entry that cannot be used. -/
def EntryByEntry (lib : Adapter) (provider : String) (feed : List Char)
    (alone : Entry → List Char) (entries : List Entry) : Prop :=
  ∃ yields result, List.Forall₂ (fun entry yield => lib.parseAtom provider (alone entry) = .ok yield ∧
      (lib.Unusable entry → yield = [])) entries yields ∧
    lib.parseAtom provider feed = .ok result ∧
    StableSort IncidentUpdate.createdAt yields.flatten result

/-- A feed of a single entry gives what the entry does, sorted. -/
theorem parseAtom_alone {provider : String} {feed : List Char} {entry : Entry}
    {yield : List IncidentUpdate} (declares : declaresDoctype feed = false)
    (tree : lib.fromString feed = some [entry]) :
    lib.parseAtom provider feed = .ok yield ↔
      ∃ part, lib.entryUpdates provider entry = .ok part ∧ sorted part = yield := by
  rw [parseAtom_eq declares tree, map_eq_ok]
  constructor
  · rintro ⟨updates, done, rfl⟩
    obtain ⟨parts, each, rfl⟩ := entriesUpdates_eq_ok.mp done
    obtain ⟨part, rest, parsed, after, rfl⟩ := List.forall₂_cons_left_iff.mp each
    obtain rfl := List.forall₂_nil_left_iff.mp after
    exact ⟨part, parsed, by simp⟩
  · rintro ⟨part, parsed, rfl⟩
    exact ⟨part, entriesUpdates_eq_ok.mpr ⟨[part], .cons parsed .nil, by simp⟩, rfl⟩

end Adapter

/-! ### A stamp before the first year -/

/-- An entry revised at the given time. -/
def revisedEntry (stamp : List Char) : Entry where
  id := some "tag:status.openai.com,2005:Incident/7".toList
  updated := some stamp
  title := some "Login".toList
  content := some "Errors.".toList

/-- A feed of such entries. -/
def revisedFeed (stamps : List (List Char)) : List Char :=
  "<feed xmlns='http://www.w3.org/2005/Atom'>".toList ++ (stamps.flatMap fun stamp =>
    "<entry><id>tag:status.openai.com,2005:Incident/7</id><updated>".toList ++ (stamp ++
      "</updated><title>Login</title><content>Errors.</content></entry>".toList)) ++
    "</feed>".toList

def usualStamp : List Char := "2026-08-18T12:00:00Z".toList

/-- East of Greenwich the first morning is still before year 1 in UTC. -/
def firstStamp : List Char := "0001-01-01T00:00:00+05:00".toList

def usualClock : Clock where
  year := 2026
  month := 8
  day := 18
  hour := 12
  minute := 0
  second := 0
  microsecond := 0
  fits := by decide

def firstClock : Clock where
  year := 1
  month := 1
  day := 1
  hour := 0
  minute := 0
  second := 0
  microsecond := 0
  fits := by decide

/-- The libraries on these feeds. -/
def revisedAdapter : Adapter where
  fromString feed :=
    if feed = revisedFeed [usualStamp, firstStamp] then
      some [revisedEntry usualStamp, revisedEntry firstStamp]
    else if feed = revisedFeed [usualStamp] then some [revisedEntry usualStamp]
    else if feed = revisedFeed [firstStamp] then some [revisedEntry firstStamp]
    else none
  fromIsoFormat raw :=
    if raw = "2026-08-18T12:00:00+00:00".toList then some (usualClock, 0)
    else if raw = firstStamp then some (firstClock, 5 * usPerHour)
    else none
  isoformat _ := "2026-08-18T12:00:00+00:00".toList
  isWord c := c.isAlphanum || c == '_'
  lower text := text.map Char.toLower
  html5 _ := none
  intMaxStrDigits := 4300
  digest text :=
    if text = "revision:2026-08-18T12:00:00+00:00".toList then "92f2e4ce0526"
    else if text = "Errors.".toList then "5e28cc3521bd" else ""

/-- The feed that holds an entry alone. -/
def aloneFeed (entry : Entry) : List Char := revisedFeed [entry.updated.getD []]

theorem revised_declares :
    Adapter.declaresDoctype (revisedFeed [usualStamp, firstStamp]) = false ∧
    Adapter.declaresDoctype (revisedFeed [usualStamp]) = false ∧
    Adapter.declaresDoctype (revisedFeed [firstStamp]) = false :=
  ⟨Adapter.declaresDoctype_of_clear (by decide +kernel),
    Adapter.declaresDoctype_of_clear (by decide +kernel),
    Adapter.declaresDoctype_of_clear (by decide +kernel)⟩

theorem revised_trees :
    revisedAdapter.fromString (revisedFeed [usualStamp, firstStamp]) =
      some [revisedEntry usualStamp, revisedEntry firstStamp] ∧
    revisedAdapter.fromString (revisedFeed [usualStamp]) = some [revisedEntry usualStamp] ∧
    revisedAdapter.fromString (revisedFeed [firstStamp]) = some [revisedEntry firstStamp] := by
  have longer : revisedFeed [usualStamp] ≠ revisedFeed [usualStamp, firstStamp] := by
    decide +kernel
  have longer' : revisedFeed [firstStamp] ≠ revisedFeed [usualStamp, firstStamp] := by
    decide +kernel
  have other : revisedFeed [firstStamp] ≠ revisedFeed [usualStamp] := by decide +kernel
  unfold revisedAdapter
  refine ⟨?_, ?_, ?_⟩
  · simp only [if_true]
  · simp only [longer, if_true, if_false]
  · simp only [longer', other, if_true, if_false]

end Freshet.Ingest
