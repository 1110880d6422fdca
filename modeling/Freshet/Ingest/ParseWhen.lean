/-
**`_parse_when`**: the stamp of an update shows no year, and a zone by its abbreviation.

The year is taken from the revision, in UTC, and one is subtracted when the stamp would lie after
the revision. `parseWhen_iff` says exactly when the result is right or none: when the wall clock that
wrote the stamp was not already in the next year, and no datetime on the way leaves the years 1 to
9999.
-/

import Freshet.Ingest.Markup
import Freshet.Lib.Calendar

namespace Freshet.Ingest

open Freshet.Lib

/-! ### The stamp -/

def isUpper (c : Char) : Bool := 'A' ≤ c && c ≤ 'Z'

def isLower (c : Char) : Bool := 'a' ≤ c && c ≤ 'z'

/-- `_WHEN`. -/
def when : Regex Char :=
  .all [.group 1 (.word [isUpper, isLower, isLower]), .some isSpace,
    .group 2 (.seq (.one isDigit) (.upTo isDigit 1)), .many isSpace, exactly ",", .many isSpace,
    .group 3 (.seq (.one isDigit) (.upTo isDigit 1)), exactly ":", .group 4 (.word [isDigit, isDigit]),
    .many isSpace, .group 5 (.seq (.one isUpper) (.seq (.one isUpper) (.upTo isUpper 3)))]

/-- `_MONTHS`. -/
def months : List (List Char × Nat) :=
  (["Jan", "Feb", "Mar", "Apr", "May", "Jun", "Jul", "Aug", "Sep", "Oct", "Nov", "Dec"].map
    String.toList).zipIdx 1

/-- `_OFFSETS`, in hours. -/
def offsets : List (List Char × Int) :=
  [("UTC", 0), ("GMT", 0), ("UT", 0), ("Z", 0),
    ("EST", -5), ("EDT", -4), ("CDT", -5),
    ("MST", -7), ("MDT", -6), ("PST", -8), ("PDT", -7),
    ("CET", 1), ("CEST", 2), ("EET", 2), ("EEST", 3), ("WET", 0), ("WEST", 1),
    ("JST", 9), ("KST", 9), ("HKT", 8), ("SGT", 8), ("MSK", 3),
    ("AEST", 10), ("AEDT", 11), ("AWST", 8), ("NZST", 12), ("NZDT", 13),
    ("BRT", -3), ("ART", -3)].map fun entry => (entry.1.toList, entry.2)

/-! ### Datetimes -/

/-- A `datetime` leaves the years 1 to 9999. -/
inductive OverflowError
  | dateValueOutOfRange
deriving DecidableEq, Repr

/-- A `datetime` in UTC. -/
structure DateTime extends Clock where
  supported : 1 ≤ year ∧ year ≤ 9999
deriving DecidableEq

/-- The result of datetime arithmetic, as an instant. -/
def checked (instant : Int) : Except OverflowError Int :=
  if yearStart 1 ≤ instant ∧ instant < yearStart 10000 then .ok instant
  else .error .dateValueOutOfRange

/-- `datetime(year, …, tzinfo=…)` without seconds. -/
def datetime (year : Int) (month day hour minute : Nat) : Option Clock :=
  if 1 ≤ year ∧ year ≤ 9999 then Clock.make year month day hour minute 0 0 else none

/-- `local.replace(year=…)`. -/
def replaceYear (clock : Clock) (year : Int) : Option Clock :=
  if 1 ≤ year ∧ year ≤ 9999 then clock.inYear year else none

/-- `local.astimezone(UTC)`, for a zone some hours east of UTC. -/
def toUtc (clock : Clock) (hours : Int) : Except OverflowError Int :=
  checked (clock.instant - hours * usPerHour)

/-- The last guard: a stamp 400 days before its revision is none. -/
def notTooOld (stamp : Int) (anchor : DateTime) : Except OverflowError (Option Int) := do
  let oldest ← checked (anchor.instant - 400 * usPerDay)
  if stamp < oldest then pure none else pure (some stamp)

/-- `local.replace(year=anchor.year - 1)`, on to the last guard. -/
def rollBack (clock : Clock) (hours : Int) (anchor : DateTime) :
    Except OverflowError (Option Int) :=
  match replaceYear clock (anchor.year - 1) with
  | none => .ok none
  | some earlier => do
    let stamp ← toUtc earlier hours
    notTooOld stamp anchor

/-- From the local time in the revision's year to the stamp. -/
def resolve (clock : Clock) (hours : Int) (anchor : DateTime) :
    Except OverflowError (Option Int) := do
  let stamp ← toUtc clock hours
  let latest ← checked (anchor.instant + usPerMinute)
  -- a stamp after its own revision means the year rolled over
  if stamp > latest then rollBack clock hours anchor else notTooOld stamp anchor

/-- What the groups say: the local time in the revision's year, and the zone's offset. -/
def localTime (anchor : DateTime) (found : Regex.Match Char) : Option (Clock × Int) := do
  let month ← months.lookup ((found.group 1).getD [])
  let hours ← offsets.lookup ((found.group 5).getD [])
  let clock ← datetime anchor.year month (intOf ((found.group 2).getD []))
    (intOf ((found.group 3).getD [])) (intOf ((found.group 4).getD []))
  pure (clock, hours)

/-- `_parse_when`. -/
def parseWhen (raw : List Char) (anchor : DateTime) : Except OverflowError (Option Int) :=
  match (when.search (plain raw)).bind (localTime anchor) with
  | none => .ok none
  | some (clock, hours) => resolve clock hours anchor

/-! ### What a stamp shows -/

/-- Some decimal digits, at most `most` of them, and their value. -/
def Shows (digits : List Char) (least most value : Nat) : Prop :=
  digits.all isDigit = true ∧ least ≤ digits.length ∧ digits.length ≤ most ∧
    intOf digits = value

/-- **The markup shows a clock as `Mon D, HH:MM zone`**, without the year. -/
structure ShowsClock (raw : List Char) (clock : Clock) (zone : List Char) : Prop where
  text : ∃ mon before day gap after hour minute last : List Char,
    plain raw = mon ++ (before ++ (day ++ (gap ++ ',' :: (after ++ (hour ++ ':' :: (minute ++
      (last ++ zone))))))) ∧
    months.lookup mon = some clock.month ∧
    before ≠ [] ∧ (before ++ gap ++ after ++ last).all isSpace = true ∧
    Shows day 1 2 clock.day ∧ Shows hour 1 2 clock.hour ∧ Shows minute 2 2 clock.minute

theorem mem_of_lookup {β : Type} {entries : List (List Char × β)} {key : List Char} {value : β}
    (found : entries.lookup key = some value) : (key, value) ∈ entries := by
  obtain ⟨before, after, rfl, -⟩ := List.lookup_eq_some_iff.mp found
  exact List.mem_append_right _ List.mem_cons_self

theorem month_letters {mon : List Char} {month : Nat} (found : months.lookup mon = some month) :
    List.Forall₂ (fun test c => test c = true) [isUpper, isLower, isLower] mon := by
  have every : ∀ entry ∈ months,
      List.Forall₂ (fun test c => test c = true) [isUpper, isLower, isLower] entry.1 := by decide
  exact every _ (mem_of_lookup found)

theorem zone_letters {zone : List Char} {hours : Int} (found : offsets.lookup zone = some hours) :
    (∀ c ∈ zone, isUpper c = true) ∧ zone.length ≤ 5 ∧ -8 ≤ hours ∧ hours ≤ 13 := by
  have every : ∀ entry ∈ offsets, entry.1.all isUpper = true ∧ entry.1.length ≤ 5 ∧
      -8 ≤ entry.2 ∧ entry.2 ≤ 13 := by decide
  obtain ⟨letters, rest⟩ := every _ (mem_of_lookup found)
  exact ⟨List.all_eq_true.mp letters, rest⟩

theorem isSpace_of_isUpper {c : Char} (upper : isUpper c = true) : isSpace c = false := by
  unfold isUpper at upper
  rw [Bool.and_eq_true, decide_eq_true_eq, decide_eq_true_eq] at upper
  have lower : 65 ≤ c.toNat := upper.1
  have higher : c.toNat ≤ 90 := upper.2
  unfold isSpace isSpaceCode
  simp only [Bool.or_eq_false_iff, Bool.and_eq_false_iff, beq_eq_false_iff_ne, ne_eq,
    decide_eq_false_iff_not]
  omega

/-- One or two digits, then something else, under a group. -/
theorem leads_number {index : Nat} {digits rest : List Char} {groups : List (Nat × List Char)}
    {value : Nat} (shows : Shows digits 1 2 value)
    (stop : ∀ c cs, rest = c :: cs → isDigit c = false) :
    (Regex.group index (.seq (.one isDigit) (.upTo isDigit 1))).Leads ⟨digits ++ rest, groups⟩
      ⟨rest, (index, digits) :: groups⟩ := by
  obtain ⟨every, least, most, -⟩ := shows
  rw [List.all_eq_true] at every
  refine Regex.Leads.group ?_
  cases digits with
  | nil => exact absurd least (by simp)
  | cons c digits =>
    obtain ⟨passes, every⟩ := List.forall_mem_cons.mp every
    have here : (Regex.one isDigit).ways ⟨c :: (digits ++ rest), groups⟩ =
        [⟨digits ++ rest, groups⟩] := by
      rw [Regex.ways_one_cons, if_pos passes]
    exact .only here (Regex.leads_upTo every (Nat.le_of_succ_le_succ most) (Or.inr stop))

/-- Two to five capitals at the end, under a group. -/
theorem leads_zone {index : Nat} {zone : List Char} {groups : List (Nat × List Char)}
    (every : ∀ c ∈ zone, isUpper c = true) (least : 2 ≤ zone.length) (most : zone.length ≤ 5) :
    (Regex.group index (.seq (.one isUpper) (.seq (.one isUpper) (.upTo isUpper 3)))).Leads
      ⟨zone ++ [], groups⟩ ⟨[], (index, zone) :: groups⟩ := by
  refine Regex.Leads.group ?_
  rcases zone with _ | ⟨first, _ | ⟨second, later⟩⟩
  · exact absurd least (by simp)
  · exact absurd least (by simp)
  · obtain ⟨passes, every⟩ := List.forall_mem_cons.mp every
    obtain ⟨passes', every⟩ := List.forall_mem_cons.mp every
    have here : (Regex.one isUpper).ways ⟨first :: second :: (later ++ []), groups⟩ =
        [⟨second :: (later ++ []), groups⟩] := by
      rw [Regex.ways_one_cons, if_pos passes]
    have there : (Regex.one isUpper).ways ⟨second :: (later ++ []), groups⟩ =
        [⟨later ++ [], groups⟩] := by
      rw [Regex.ways_one_cons, if_pos passes']
    refine .only here (.only there (Regex.leads_upTo every ?_ (Or.inr (by simp))))
    simp only [List.length_cons] at most
    omega

/-- **The pattern reads a stamp**, when its zone has two letters or more. -/
theorem search_stamp {mon before day gap after hour minute last zone : List Char}
    {month date hours minutes : Nat} {offset : Int} (named : months.lookup mon = some month)
    (zoned : offsets.lookup zone = some offset) (long : 2 ≤ zone.length) (spaced : before ≠ [])
    (spaces : (before ++ gap ++ after ++ last).all isSpace = true)
    (days : Shows day 1 2 date) (hour' : Shows hour 1 2 hours) (minute' : Shows minute 2 2 minutes) :
    when.search (mon ++ (before ++ (day ++ (gap ++ ',' :: (after ++ (hour ++ ':' :: (minute ++
      (last ++ zone)))))))) = some ⟨mon ++ (before ++ (day ++ (gap ++ ',' :: (after ++ (hour ++
        ':' :: (minute ++ (last ++ zone))))))),
        [(5, zone), (4, minute), (3, hour), (2, day), (1, mon)]⟩ := by
  obtain ⟨letters, most, -, -⟩ := zone_letters zoned
  simp only [List.all_eq_true, List.forall_mem_append] at spaces
  obtain ⟨⟨⟨one, two⟩, three⟩, four⟩ := spaces
  have digitStop : ∀ {digits rest : List Char} {most value : Nat}, Shows digits 1 most value →
      ∀ c cs, digits ++ rest = c :: cs → isSpace c = false := by
    intro digits rest most value shows c cs split
    obtain ⟨every, least, -, -⟩ := shows
    cases digits with
    | nil => exact absurd least (by simp)
    | cons d digits =>
      obtain ⟨rfl, -⟩ := List.cons.inj split
      exact isSpace_of_isDigit (List.all_eq_true.mp every d List.mem_cons_self)
  have gapStop : ∀ c cs, gap ++ ',' :: (after ++ (hour ++ ':' :: (minute ++ (last ++ (zone ++ [])))))
      = c :: cs → isDigit c = false := by
    intro c cs split
    cases gap with
    | nil =>
      obtain ⟨rfl, -⟩ := List.cons.inj split
      decide
    | cons d gap =>
      obtain ⟨rfl, -⟩ := List.cons.inj split
      exact isDigit_of_isSpace (two d List.mem_cons_self)
  have zoneStop : ∀ c cs, zone ++ [] = c :: cs → isSpace c = false := by
    intro c cs split
    cases zone with
    | nil => exact absurd long (by simp)
    | cons d zone =>
      obtain ⟨rfl, -⟩ := List.cons.inj split
      exact isSpace_of_isUpper (letters d List.mem_cons_self)
  have minutes' : (Regex.word [isDigit, isDigit]).ways
      ⟨minute ++ (last ++ (zone ++ [])), [(3, hour), (2, day), (1, mon)]⟩ =
        [⟨last ++ (zone ++ []), [(3, hour), (2, day), (1, mon)]⟩] := by
    obtain ⟨every, least, most, -⟩ := minute'
    rw [List.all_eq_true] at every
    refine Regex.ways_word_append ?_ _ _
    rcases minute with _ | ⟨first, _ | ⟨second, _ | ⟨third, more⟩⟩⟩
    · exact absurd least (by simp)
    · exact absurd least (by simp)
    · exact .cons (every first (by simp)) (.cons (every second (by simp)) .nil)
    · exact absurd most (by simp)
  have comma : ∀ rest groups, (exactly ",").ways ⟨',' :: rest, groups⟩ = [⟨rest, groups⟩] :=
    fun rest groups => rfl
  have colon : ∀ rest groups, (exactly ":").ways ⟨':' :: rest, groups⟩ = [⟨rest, groups⟩] :=
    fun rest groups => rfl
  have leads : when.Leads ⟨mon ++ (before ++ (day ++ (gap ++ ',' :: (after ++ (hour ++ ':' ::
      (minute ++ (last ++ (zone ++ [])))))))), []⟩
      ⟨[], [(5, zone), (4, minute), (3, hour), (2, day), (1, mon)]⟩ := by
    refine .only (Regex.ways_group_append (Regex.ways_word_append (month_letters named) _ _)) ?_
    obtain ⟨space, more, rfl⟩ := List.exists_cons_of_ne_nil spaced
    obtain ⟨passes, one⟩ := List.forall_mem_cons.mp one
    refine .assoc (.only (if_pos passes) ?_)
    refine .many one (digitStop days) ?_
    refine .step (leads_number days gapStop) ?_
    refine .many two (by rintro c cs ⟨⟩; decide) ?_
    refine .only (comma _ _) ?_
    refine .many three (digitStop hour') ?_
    refine .step (leads_number hour' (by rintro c cs ⟨⟩; decide)) ?_
    refine .only (colon _ _) ?_
    refine .only (Regex.ways_group_append minutes') ?_
    refine .many four zoneStop ?_
    exact .step (leads_zone letters long most) (Regex.leads_nothing _)
  have whole : mon ++ (before ++ (day ++ (gap ++ ',' :: (after ++ (hour ++ ':' :: (minute ++
      (last ++ (zone ++ [])))))))) = mon ++ (before ++ (day ++ (gap ++ ',' :: (after ++ (hour ++
        ':' :: (minute ++ (last ++ zone))))))) ++ [] := by simp
  rw [whole] at leads
  have found := Regex.search_of_first (Regex.first_of_leads leads)
  rw [List.append_nil] at found
  exact found

/-- What the pattern reads has two capitals after a colon. -/
theorem capitals_of_first {input last : List Char} {found : Regex.Match Char}
    (first : when.first input = some (found, last)) :
    ∃ before after, input = before ++ ':' :: after ∧ 2 ≤ after.countP isUpper := by
  obtain ⟨u, front, rest⟩ := Regex.mem_ways_all 7 (Regex.mem_ways_of_first first)
  obtain ⟨v, colon, rest⟩ := Regex.mem_ways_seq.mp rest
  obtain ⟨x, minutes, rest⟩ := Regex.mem_ways_all 2 rest
  obtain ⟨_, zone, -⟩ := Regex.mem_ways_seq.mp rest
  obtain ⟨_, zone, -⟩ := Regex.mem_ways_group zone
  obtain ⟨y, one, zone⟩ := Regex.mem_ways_seq.mp zone
  obtain ⟨z, two, -⟩ := Regex.mem_ways_seq.mp zone
  obtain ⟨before, front⟩ := Regex.ways_suffix front
  obtain ⟨between, minutes⟩ := Regex.ways_suffix minutes
  obtain ⟨colon, -⟩ := mem_ways_exactly.mp colon
  obtain ⟨first, one, upper, -⟩ := Regex.mem_ways_one.mp one
  obtain ⟨second, two, upper', -⟩ := Regex.mem_ways_one.mp two
  refine ⟨before, v.rest, ?_, ?_⟩
  · calc input = before ++ u.rest := front
      _ = before ++ ':' :: v.rest := by rw [colon]; rfl
  · have split : v.rest = between ++ first :: second :: z.rest := by rw [minutes, one, two]
    rw [split, List.countP_append, List.countP_cons_of_pos upper, List.countP_cons_of_pos upper']
    omega

/-- **A zone of one letter is not read.** -/
theorem search_short {before after zone : List Char} (clear : ':' ∉ before)
    (digits : ∀ c ∈ after, isUpper c = false) (short : zone.length ≤ 1) :
    when.search (before ++ ':' :: (after ++ zone)) = none := by
  refine Regex.search_eq_none fun skipped suffix split => ?_
  cases found : when.first suffix with
  | none => rfl
  | some result =>
    obtain ⟨front, back, eq, capitals⟩ := capitals_of_first found
    rw [eq, ← List.append_assoc] at split
    have few : (after ++ zone).countP isUpper ≤ 1 := by
      have none : after.countP isUpper = 0 :=
        List.countP_eq_zero.mpr fun c member => by simp [digits c member]
      rw [List.countP_append, none, Nat.zero_add]
      exact le_trans List.countP_le_length short
    rcases List.append_eq_append_iff.mp split with ⟨more, -, eq'⟩ | ⟨more, eq', eq''⟩
    · cases more with
      | nil =>
        obtain ⟨-, rfl⟩ := List.cons.inj eq'
        omega
      | cons c more =>
        have later : after ++ zone = more ++ ':' :: back := (List.cons.inj eq').2
        rw [later, List.countP_append, List.countP_cons] at few
        omega
    · cases more with
      | nil =>
        obtain ⟨-, rfl⟩ := List.cons.inj eq''
        omega
      | cons c more =>
        obtain ⟨rfl, -⟩ := List.cons.inj eq''
        rw [eq'] at clear
        exact absurd (List.mem_append_right _ List.mem_cons_self) clear

/-! ### When the result is never another instant -/

/-- The result is the right instant, or none. -/
def NeverWrong (result : Except OverflowError (Option Int)) (t : Int) : Prop :=
  result = .ok none ∨ result = .ok (some t)

/-- The datetimes that are formed stay between the years 1 and 9999: 400 days before the revision, a
minute after it, and the stamp read as one of the revision's year. -/
structure Supported (clock : Clock) (hours : Int) (revised : DateTime) : Prop where
  oldest : yearStart 1 ≤ revised.instant - 400 * usPerDay
  latest : revised.instant + usPerMinute < yearStart 10000
  stamp : ∀ local', replaceYear clock revised.year = some local' →
    local'.instant - hours * usPerHour < yearStart 10000

theorem checked_ok {instant : Int} (lower : yearStart 1 ≤ instant)
    (upper : instant < yearStart 10000) : checked instant = .ok instant :=
  if_pos ⟨lower, upper⟩

theorem checked_error {instant : Int} (outside : ¬ (yearStart 1 ≤ instant ∧ instant < yearStart 10000)) :
    checked instant = .error .dateValueOutOfRange :=
  if_neg outside

/-- A revision is an instant that a datetime holds. -/
theorem DateTime.instant_supported (dateTime : DateTime) :
    yearStart 1 ≤ dateTime.instant ∧ dateTime.instant < yearStart 10000 := by
  have bounds := dateTime.toClock.instant_bounds
  have lower := yearStart_mono dateTime.supported.1
  have upper := @yearStart_mono (dateTime.year + 1) 10000 (by have := dateTime.supported.2; omega)
  unfold usPerDay at lower upper
  have one := dateTime.supported.1
  have nines := dateTime.supported.2
  omega

section Guards

variable {clock : Clock} {hours t stamp : Int} {revised : DateTime}

theorem notTooOld_ok (early : yearStart 1 ≤ revised.instant - 400 * usPerDay)
    (recent : revised.instant - 400 * usPerDay ≤ stamp) :
    notTooOld stamp revised = .ok (some stamp) := by
  have bounds := revised.instant_supported
  unfold notTooOld
  rw [checked_ok early (by unfold usPerDay; omega)]
  exact if_neg (not_lt.mpr recent)

theorem notTooOld_error (late : ¬ yearStart 1 ≤ revised.instant - 400 * usPerDay) :
    notTooOld stamp revised = .error .dateValueOutOfRange := by
  unfold notTooOld
  rw [checked_error fun inside => late inside.1]
  rfl

theorem resolve_error (outside : toUtc clock hours = .error .dateValueOutOfRange) :
    resolve clock hours revised = .error .dateValueOutOfRange := by
  unfold resolve
  rw [outside]
  rfl

theorem resolve_last (formed : toUtc clock hours = .ok stamp)
    (last : ¬ revised.instant + usPerMinute < yearStart 10000) :
    resolve clock hours revised = .error .dateValueOutOfRange := by
  unfold resolve
  rw [formed, checked_error fun inside => last inside.2]
  rfl

theorem resolve_kept (formed : toUtc clock hours = .ok stamp)
    (latest : revised.instant + usPerMinute < yearStart 10000)
    (kept : stamp ≤ revised.instant + usPerMinute) :
    resolve clock hours revised = notTooOld stamp revised := by
  have bounds := revised.instant_supported
  unfold resolve
  rw [formed, checked_ok (by unfold usPerMinute; omega) latest]
  exact if_neg (not_lt.mpr kept)

theorem resolve_rolled (formed : toUtc clock hours = .ok stamp)
    (latest : revised.instant + usPerMinute < yearStart 10000)
    (rolled : revised.instant + usPerMinute < stamp) :
    resolve clock hours revised = rollBack clock hours revised := by
  have bounds := revised.instant_supported
  unfold resolve
  rw [formed, checked_ok (by unfold usPerMinute; omega) latest]
  exact if_pos rolled

theorem not_neverWrong_error : ¬ NeverWrong (.error .dateValueOutOfRange) t := by
  unfold NeverWrong
  simp

end Guards

/-- **The stamp of a clock**: it is written at `t`, at most 364 days before the revision. -/
structure Written (clock : Clock) (hours t : Int) (revised : DateTime) : Prop where
  shown : clock.instant = t + hours * usPerHour
  started : yearStart 1 ≤ t
  earlier : t ≤ revised.instant
  recent : revised.instant - t ≤ 364 * usPerDay
  west : -8 ≤ hours
  east : hours ≤ 13

namespace Written

variable {clock : Clock} {hours t : Int} {revised : DateTime}

theorem instants (written : Written clock hours t revised) :
    t < yearStart 10000 ∧ toUtc clock hours = .ok t := by
  have bounds := revised.instant_supported
  have same : clock.instant - hours * usPerHour = t := by rw [written.shown]; omega
  have upper : t < yearStart 10000 := lt_of_le_of_lt written.earlier bounds.2
  refine ⟨upper, ?_⟩
  unfold toUtc
  rw [same]
  exact checked_ok written.started upper

/-- The clock's year is the revision's, or the one before or after. -/
theorem years (written : Written clock hours t revised) :
    revised.year - 1 ≤ clock.year ∧ clock.year ≤ revised.year + 1 := by
  obtain ⟨shown, started, earlier, recent, west, east⟩ := written
  have bounds := revised.toClock.instant_bounds
  have before := @yearStart_mono (revised.year - 1) revised.year (by omega)
  have after := @yearStart_mono (revised.year + 1) (revised.year + 2) (by omega)
  unfold usPerDay at before after recent
  unfold usPerHour at shown
  constructor
  · refine Clock.le_year_of_le_instant ?_
    omega
  · have next : clock.year < revised.year + 2 := Clock.year_lt_of_instant_lt (by omega)
    omega

/-- In the revision's own year the stamp is read as it stands. -/
theorem same_year (written : Written clock hours t revised) (same : clock.year = revised.year) :
    NeverWrong (resolve clock hours revised) t ↔ Supported clock hours revised := by
  obtain ⟨upper, formed⟩ := written.instants
  have earlier := written.earlier
  have recent := written.recent
  by_cases latest : revised.instant + usPerMinute < yearStart 10000
  · rw [resolve_kept formed latest (by unfold usPerMinute; omega)]
    by_cases oldest : yearStart 1 ≤ revised.instant - 400 * usPerDay
    · rw [notTooOld_ok oldest (by unfold usPerDay at *; omega)]
      refine ⟨fun _ => ⟨oldest, latest, fun local' found => ?_⟩, fun _ => Or.inr rfl⟩
      have here : replaceYear clock revised.year = some clock := by
        unfold replaceYear
        rw [if_pos revised.supported, ← same, Clock.inYear_self]
      rw [here] at found
      obtain rfl := Option.some_injective _ found
      have shown := written.shown
      omega
    · rw [notTooOld_error oldest]
      exact ⟨fun right => absurd right not_neverWrong_error,
        fun supported => absurd supported.oldest oldest⟩
  · rw [resolve_last formed latest]
    exact ⟨fun right => absurd right not_neverWrong_error,
      fun supported => absurd supported.latest latest⟩

/-- The same date and time in the revision's year, which is the next one. -/
theorem next_year (written : Written clock hours t revised) (before : clock.year = revised.year - 1)
    {local' : Clock} (found : replaceYear clock revised.year = some local') :
    t + 365 * usPerDay ≤ local'.instant - hours * usPerHour ∧ local'.year = revised.year ∧
      local'.inYear clock.year = some clock := by
  unfold replaceYear at found
  rw [if_pos revised.supported] at found
  have next : clock.inYear (clock.year + 1) = some local' := by
    rw [before, Int.sub_add_cancel]
    exact found
  have gap := (Clock.inYear_gap next).1
  have shown := written.shown
  refine ⟨?_, Clock.year_of_inYear found, Clock.inYear_back next⟩
  omega

/-- Of the year before the stamp rolls over, and is right. -/
theorem year_before (written : Written clock hours t revised) (before : clock.year = revised.year - 1)
    {local' : Clock} (found : replaceYear clock revised.year = some local') :
    NeverWrong (resolve local' hours revised) t ↔
      clock.year = 0 ∨ Supported clock hours revised := by
  obtain ⟨gap, year, back⟩ := written.next_year before found
  obtain ⟨upper, formed⟩ := written.instants
  have started := written.started
  have recent := written.recent
  have west := written.west
  have revision := revised.toClock.instant_bounds
  have stamped := local'.instant_bounds
  -- year 1 is far from the end
  have young : clock.year = 0 → revised.instant + usPerMinute < yearStart 10000 ∧
      local'.instant - hours * usPerHour < yearStart 10000 := by
    intro nought
    have one : revised.year = 1 := by omega
    rw [year, one] at stamped
    rw [one] at revision
    have far := @yearStart_mono (1 + 1) 10000 (by decide)
    unfold usPerDay at far
    unfold usPerMinute usPerHour
    omega
  by_cases inside : local'.instant - hours * usPerHour < yearStart 10000
  · have formed' : toUtc local' hours = .ok (local'.instant - hours * usPerHour) :=
      checked_ok (by unfold usPerDay at gap; omega) inside
    by_cases latest : revised.instant + usPerMinute < yearStart 10000
    · rw [resolve_rolled formed' latest (by unfold usPerDay usPerMinute at *; omega)]
      unfold rollBack
      rw [← before]
      by_cases nought : clock.year = 0
      · have none : replaceYear local' clock.year = none := by
          rw [nought]
          rfl
        rw [none]
        exact ⟨fun _ => Or.inl nought, fun _ => Or.inl rfl⟩
      · have again : replaceYear local' clock.year = some clock := by
          have supported := revised.supported
          unfold replaceYear
          rw [if_pos (by omega), back]
        rw [again]
        show NeverWrong (toUtc clock hours >>= fun stamp => notTooOld stamp revised) t ↔ _
        rw [formed]
        show NeverWrong (notTooOld t revised) t ↔ _
        by_cases oldest : yearStart 1 ≤ revised.instant - 400 * usPerDay
        · rw [notTooOld_ok oldest (by unfold usPerDay at *; omega)]
          refine ⟨fun _ => Or.inr ⟨oldest, latest, fun other here => ?_⟩, fun _ => Or.inr rfl⟩
          rw [found] at here
          obtain rfl := Option.some_injective _ here
          exact inside
        · rw [notTooOld_error oldest]
          exact ⟨fun right => absurd right not_neverWrong_error,
            fun right => absurd (right.resolve_left nought).oldest oldest⟩
    · rw [resolve_last formed' latest]
      refine ⟨fun right => absurd right not_neverWrong_error, fun right => ?_⟩
      rcases right with nought | supported
      · exact absurd (young nought).1 latest
      · exact absurd supported.latest latest
  · rw [resolve_error (checked_error fun within => inside within.2)]
    refine ⟨fun right => absurd right not_neverWrong_error, fun right => ?_⟩
    rcases right with nought | supported
    · exact absurd (young nought).2 inside
    · exact absurd (supported.stamp local' found) inside

/-- A clock that already shows the next year shows its first day. -/
theorem first_of_january (written : Written clock hours t revised)
    (after : clock.year = revised.year + 1) : clock.month ≠ 2 := by
  obtain ⟨shown, started, earlier, recent, west, east⟩ := written
  have revision := revised.toClock.instant_bounds
  have time := clock.sinceMidnight_bounds
  intro february
  have day : 32 ≤ clock.dayOfYear := by
    have lower := clock.fits.days.1
    unfold Clock.dayOfYear
    rw [february]
    simp [daysBeforeMonth, daysInMonth]
    omega
  have instant : clock.instant = yearStart (revised.year + 1) +
      ((clock.dayOfYear : Int) - 1) * usPerDay + clock.sinceMidnight := by
    rw [← after]
    rfl
  unfold usPerDay at instant
  unfold usPerHour at shown
  omega

/-- **Of the next year it is read a year too early.** -/
theorem year_after (written : Written clock hours t revised) (after : clock.year = revised.year + 1)
    {local' : Clock} (found : replaceYear clock revised.year = some local') :
    ¬ NeverWrong (resolve local' hours revised) t := by
  unfold replaceYear at found
  rw [if_pos revised.supported] at found
  have back : local'.inYear (local'.year + 1) = some clock := by
    rw [Clock.year_of_inYear found, ← after]
    exact Clock.inYear_back found
  obtain ⟨near, far⟩ := Clock.inYear_gap back
  have shown := written.shown
  have earlier := written.earlier
  have recent := written.recent
  have east := written.east
  have started := written.started
  have revision := revised.toClock.instant_bounds
  have displayed := clock.instant_bounds
  have supported := revised.instant_supported
  rw [after] at displayed
  have formed : toUtc local' hours = .error .dateValueOutOfRange ∨
      toUtc local' hours = .ok (local'.instant - hours * usPerHour) := by
    unfold toUtc checked
    split_ifs
    · exact Or.inr rfl
    · exact Or.inl rfl
  rcases formed with outside | formed
  · rw [resolve_error outside]
    exact not_neverWrong_error
  by_cases latest : revised.instant + usPerMinute < yearStart 10000
  · rw [resolve_kept formed latest (by unfold usPerDay usPerMinute at *; omega)]
    by_cases oldest : yearStart 1 ≤ revised.instant - 400 * usPerDay
    · rw [notTooOld_ok oldest (by unfold usPerDay usPerHour at *; omega)]
      rintro (impossible | same)
      · simp at impossible
      · have equal : local'.instant - hours * usPerHour = t := by simpa using same
        unfold usPerDay at near
        omega
    · rw [notTooOld_error oldest]
      exact not_neverWrong_error
  · rw [resolve_last formed latest]
    exact not_neverWrong_error

end Written

theorem isUpper_of_isDigit {c : Char} (digit : isDigit c = true) : isUpper c = false := by
  obtain ⟨nought, member, lower, upper⟩ := isDigit_iff.mp digit
  have rows : ∀ nought ∈ decimalZeros, nought = 48 ∨ 0x660 ≤ nought := by decide
  have row := rows nought member
  cases capital : isUpper c with
  | false => rfl
  | true =>
    unfold isUpper at capital
    rw [Bool.and_eq_true, decide_eq_true_eq, decide_eq_true_eq] at capital
    have least : 65 ≤ c.toNat := capital.1
    have most : c.toNat ≤ 90 := capital.2
    omega

/-- A zone of one letter gives no stamp. -/
theorem parseWhen_short {raw zone : List Char} {clock : Clock} {revised : DateTime}
    (shows : ShowsClock raw clock zone) (short : zone.length < 2) :
    parseWhen raw revised = .ok none := by
  obtain ⟨mon, before, day, gap, after, hour, minute, last, text, named, -, spaces, days, hours,
    minutes⟩ := shows.text
  simp only [List.all_eq_true, List.forall_mem_append] at spaces
  obtain ⟨⟨⟨one, two⟩, three⟩, four⟩ := spaces
  have noSpace : ∀ {spaces : List Char}, (∀ c ∈ spaces, isSpace c = true) → ':' ∉ spaces :=
    fun every member => absurd (every ':' member) (by decide)
  have noDigit : ∀ {digits : List Char} {least most value : Nat},
      Shows digits least most value → ':' ∉ digits :=
    fun shows member => absurd (List.all_eq_true.mp shows.1 ':' member) (by decide)
  have noMonth : ':' ∉ mon := by
    have every : ∀ entry ∈ months, ':' ∉ entry.1 := by decide
    exact every _ (mem_of_lookup named)
  have clear : ':' ∉ mon ++ (before ++ (day ++ (gap ++ ',' :: (after ++ hour)))) := by
    simp [noMonth, noSpace one, noDigit days, noSpace two, noSpace three, noDigit hours]
  have small : ∀ c ∈ minute ++ last, isUpper c = false := by
    intro c member
    rcases List.mem_append.mp member with digit | space
    · exact isUpper_of_isDigit (List.all_eq_true.mp minutes.1 c digit)
    · cases capital : isUpper c with
      | false => rfl
      | true =>
        have apart := isSpace_of_isUpper capital
        rw [four c space] at apart
        exact absurd apart (by simp)
  have unread := search_short clear small (Nat.le_of_lt_succ short)
  have same : mon ++ (before ++ (day ++ (gap ++ ',' :: (after ++ (hour ++ ':' :: (minute ++
      (last ++ zone))))))) = mon ++ (before ++ (day ++ (gap ++ ',' :: (after ++ hour)))) ++
        ':' :: (minute ++ last ++ zone) := by simp
  have nothing : when.search (plain raw) = none := by
    rw [text, same]
    exact unread
  unfold parseWhen
  rw [nothing]
  rfl

/-- A longer one is read as a date and time of the revision's year. -/
theorem localTime_stamp {raw zone : List Char} {clock : Clock} {hours : Int} (revised : DateTime)
    (zoned : offsets.lookup zone = some hours) (shows : ShowsClock raw clock zone)
    (long : 2 ≤ zone.length) (whole : clock.second = 0 ∧ clock.microsecond = 0) :
    (when.search (plain raw)).bind (localTime revised) =
      (replaceYear clock revised.year).map fun local' => (local', hours) := by
  obtain ⟨mon, before, day, gap, after, hour, minute, last, text, named, spaced, spaces, days, hours',
    minutes⟩ := shows.text
  have read := search_stamp named zoned long spaced spaces days hours' minutes
  have same : datetime revised.year clock.month clock.day clock.hour clock.minute =
      replaceYear clock revised.year := by
    unfold datetime replaceYear Clock.inYear
    rw [whole.1, whole.2]
  rw [text, read, Option.bind_some, ← same]
  unfold localTime
  show (months.lookup mon).bind (fun month => (offsets.lookup zone).bind fun hours =>
    (datetime revised.year month (intOf day) (intOf hour) (intOf minute)).bind fun clock =>
      some (clock, hours)) = _
  rw [named, zoned, days.2.2.2, hours'.2.2.2, minutes.2.2.2]
  exact Option.map_eq_bind.symm

theorem parseWhen_found {raw zone : List Char} {clock local' : Clock} {hours : Int}
    {revised : DateTime} (zoned : offsets.lookup zone = some hours)
    (shows : ShowsClock raw clock zone) (long : 2 ≤ zone.length)
    (whole : clock.second = 0 ∧ clock.microsecond = 0)
    (found : replaceYear clock revised.year = some local') :
    parseWhen raw revised = resolve local' hours revised := by
  unfold parseWhen
  rw [localTime_stamp revised zoned shows long whole, found]
  rfl

theorem parseWhen_missing {raw zone : List Char} {clock : Clock} {hours : Int}
    {revised : DateTime} (zoned : offsets.lookup zone = some hours)
    (shows : ShowsClock raw clock zone) (long : 2 ≤ zone.length)
    (whole : clock.second = 0 ∧ clock.microsecond = 0)
    (missing : replaceYear clock revised.year = none) : parseWhen raw revised = .ok none := by
  unfold parseWhen
  rw [localTime_stamp revised zoned shows long whole, missing]
  rfl

/-- When the shown date does not come in the revision's year, the year is far from both ends. -/
theorem supported_of_missing {clock : Clock} {hours : Int} {revised : DateTime}
    (missing : replaceYear clock revised.year = none)
    (before : clock.year = revised.year - 1) :
    clock.year = 0 ∨ Supported clock hours revised := by
  have supported := revised.supported
  have absent : clock.inYear revised.year = none := by
    unfold replaceYear at missing
    rw [if_pos supported] at missing
    exact missing
  obtain ⟨-, -, leap⟩ := Clock.inYear_eq_none absent
  have fourth : clock.year % 4 = 0 := by
    unfold isLeap at leap
    rw [Bool.and_eq_true, decide_eq_true_eq] at leap
    exact leap.1
  by_cases nought : clock.year = 0
  · exact Or.inl nought
  · have revision := revised.toClock.instant_bounds
    have early := @yearStart_mono 3 revised.year (by omega)
    have late := @yearStart_mono (revised.year + 1) 9999 (by omega)
    have first := @yearStart_mono 1 3 (by decide)
    have last := @yearStart_mono 9999 10000 (by decide)
    unfold usPerDay at early late first last
    refine Or.inr ⟨?_, ?_, fun local' found => ?_⟩
    · unfold usPerDay
      omega
    · unfold usPerMinute
      omega
    · rw [missing] at found
      exact absurd found.symm (Option.some_ne_none local')

/-- **The stamp is right or none exactly when** its zone has a single letter, or its clock shows the
year 0, or its clock is not in the year after the revision's and every datetime that is formed lies in
the years 1 to 9999. -/
theorem parseWhen_neverWrong_iff {raw zone : List Char} {clock : Clock} {hours t : Int}
    {revised : DateTime} (zoned : offsets.lookup zone = some hours) (whole : t % usPerMinute = 0)
    (shown : clock.instant = t + hours * usPerHour) (shows : ShowsClock raw clock zone)
    (started : yearStart 1 ≤ t) (earlier : t ≤ revised.instant)
    (recent : revised.instant - t ≤ 364 * usPerDay) :
    NeverWrong (parseWhen raw revised) t ↔
      zone.length < 2 ∨ clock.year = 0 ∨
        clock.year ≤ revised.year ∧ Supported clock hours revised := by
  obtain ⟨-, -, west, east⟩ := zone_letters zoned
  have written : Written clock hours t revised :=
    ⟨shown, started, earlier, recent, west, east⟩
  have seconds : clock.second = 0 ∧ clock.microsecond = 0 := by
    refine Clock.whole_minute ?_
    rw [shown]
    unfold usPerHour usPerMinute at *
    omega
  by_cases short : zone.length < 2
  · rw [parseWhen_short shows short]
    exact ⟨fun _ => Or.inl short, fun _ => Or.inl rfl⟩
  have long : 2 ≤ zone.length := not_lt.mp short
  obtain ⟨lower, upper⟩ := written.years
  have supported := revised.supported
  rcases lt_trichotomy clock.year revised.year with before | same | after
  · have year : clock.year = revised.year - 1 := by omega
    cases found : replaceYear clock revised.year with
    | none =>
      rw [parseWhen_missing zoned shows long seconds found]
      refine ⟨fun _ => Or.inr ?_, fun _ => Or.inl rfl⟩
      exact (supported_of_missing found year).imp_right fun rest => ⟨le_of_lt before, rest⟩
    | some local' =>
      rw [parseWhen_found zoned shows long seconds found, written.year_before year found]
      simp [short, le_of_lt before]
  · have found : replaceYear clock revised.year = some clock := by
      unfold replaceYear
      rw [if_pos supported, ← same, Clock.inYear_self]
    rw [parseWhen_found zoned shows long seconds found, written.same_year same]
    have positive : ¬ clock.year = 0 := by omega
    simp [short, positive, le_of_eq same]
  · have year : clock.year = revised.year + 1 := by omega
    have positive : ¬ clock.year = 0 := by omega
    cases found : replaceYear clock revised.year with
    | none =>
      have absent : clock.inYear revised.year = none := by
        unfold replaceYear at found
        rw [if_pos supported] at found
        exact found
      exact absurd (Clock.inYear_eq_none absent).1 (written.first_of_january year)
    | some local' =>
      rw [parseWhen_found zoned shows long seconds found]
      have wrong := written.year_after year found
      simp [short, positive, wrong, not_le.mpr after]

/-- A revision on New Year's Eve, a quarter of an hour before midnight in UTC. -/
def newYearsEve : DateTime where
  year := 2025
  month := 12
  day := 31
  hour := 23
  minute := 45
  second := 0
  microsecond := 0
  fits := by decide
  supported := by decide

/-- What a clock in central Europe shows a quarter of an hour earlier. -/
def newYear : Clock where
  year := 2026
  month := 1
  day := 1
  hour := 0
  minute := 30
  second := 0
  microsecond := 0
  fits := by decide

/-- The same on a clock that shows UTC. -/
def lastHour : Clock where
  year := 2025
  month := 12
  day := 31
  hour := 23
  minute := 30
  second := 0
  microsecond := 0
  fits := by decide

theorem shows_stamp {raw mon day hour minute zone : List Char} {clock : Clock}
    (text : plain raw = mon ++ ([' '] ++ (day ++ ([] ++ ',' :: ([' '] ++ (hour ++ ':' :: (minute ++
      ([' '] ++ zone))))))))
    (named : months.lookup mon = some clock.month) (days : Shows day 1 2 clock.day)
    (hours : Shows hour 1 2 clock.hour) (minutes : Shows minute 2 2 clock.minute) :
    ShowsClock raw clock zone :=
  ⟨mon, [' '], day, [], [' '], hour, minute, [' '], text, named, by simp, by decide, days, hours,
    minutes⟩

theorem parseWhen_neverWrong_iff_lastHour :
    NeverWrong (parseWhen "Dec 31, 23:30 UTC".toList newYearsEve) lastHour.instant ↔
      "UTC".toList.length < 2 ∨ lastHour.year = 0 ∨
        lastHour.year ≤ newYearsEve.year ∧ Supported lastHour 0 newYearsEve := by
  have shows : ShowsClock "Dec 31, 23:30 UTC".toList lastHour "UTC".toList :=
    @shows_stamp _ "Dec".toList "31".toList "23".toList "30".toList _ _ (by decide) (by decide)
      (by unfold Shows; decide) (by unfold Shows; decide) (by unfold Shows; decide)
  exact parseWhen_neverWrong_iff (by decide) (by decide) (by decide) shows (by decide) (by decide)
    (by decide)

/-- **A year too early**: the clock in central Europe already shows the first of January, the revision
is still of the old year. -/
theorem parseWhen_wrong :
    ShowsClock "Jan 1, 00:30 CET".toList newYear "CET".toList ∧
    newYear.instant = lastHour.instant + 1 * usPerHour ∧
    lastHour.instant ≤ newYearsEve.instant ∧
    newYearsEve.instant - lastHour.instant ≤ 364 * usPerDay ∧
    parseWhen "Jan 1, 00:30 CET".toList newYearsEve =
      .ok (some (lastHour.instant - 365 * usPerDay)) ∧
    ¬ NeverWrong (parseWhen "Jan 1, 00:30 CET".toList newYearsEve) lastHour.instant := by
  have shows : ShowsClock "Jan 1, 00:30 CET".toList newYear "CET".toList :=
    @shows_stamp _ "Jan".toList "1".toList "00".toList "30".toList _ _ (by decide) (by decide)
      (by unfold Shows; decide) (by unfold Shows; decide) (by unfold Shows; decide)
  have early : parseWhen "Jan 1, 00:30 CET".toList newYearsEve =
      .ok (some (lastHour.instant - 365 * usPerDay)) := by decide +kernel
  refine ⟨shows, by decide, by decide, by decide, early, ?_⟩
  rw [early]
  unfold NeverWrong usPerDay
  simp

end Freshet.Ingest
