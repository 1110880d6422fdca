/-
**The time window that a question asks for.**

Nine rules, each a pattern and a span: the first pattern found in the question decides. A span may be
a number that the question itself gives, so it may reach back before the first year.

`inferWindow_backward_iff`: the window of a question of at most 500 characters begins at a time that
exists and is not later than now exactly if the span of the first rule that applies does not reach
back before year 1. What carries it is `since_behind_iff`, once for all rules.
-/

import Freshet.Ingest.ParseWhen

namespace Freshet.Rag.Timeframe

open Freshet.Lib Freshet.Ingest

/-- `MAX_QUESTION_CHARS`. -/
def maxQuestionChars : ℕ := 500

/-- What the interpreter decides: `\\w`, and how many digits `int` takes, 0 being no limit and the
least other one 640. -/
structure Interpreter where
  isWord : Char → Bool
  intMaxStrDigits : ℕ
  threshold : intMaxStrDigits = 0 ∨ 640 ≤ intMaxStrDigits

/-- What `infer_window` can raise. -/
inductive Raised
  | valueError
  | daysOutOfRange
  | dateOutOfRange
deriving DecidableEq, Repr

/-! ### Patterns -/

/-- A place in the question: the characters before and behind it. -/
abbrev Place := Option Char × Option Char

/-- The character behind a place. -/
def ahead (test : Char → Bool) (place : Place) : Bool := place.2.any test

/-- A text, regardless of case. -/
def words (text : String) : Regex Place :=
  .word (text.toList.map fun letter => ahead (caseless letter))

/-- One pattern or another. -/
def oneOf : List (Regex Place) → Regex Place
  | [] => .nothing
  | [last] => last
  | first :: later => .alt first (oneOf later)

section Rules

variable (py : Interpreter)

/-- `\\b`. -/
def boundary : Regex Place :=
  .ahead (.one fun place => place.1.any py.isWord != place.2.any py.isWord)

/-- `\\b…\\b`. -/
def whole (body : List (Regex Place)) : Regex Place := .all (boundary py :: body ++ [boundary py])

/-- A span to go back from now, or from midnight. -/
inductive Span
  | hoursGiven
  | daysGiven
  | hours (count : ℕ)
  | days (count : ℕ)
  | midnight
  | dayBeforeMidnight
deriving DecidableEq, Repr

structure Rule where
  pattern : Regex Place
  build : Span
  /-- The label, before the first group and behind it. -/
  label : String × Option String

/-- `_RULES`. -/
def rules : List Rule :=
  [⟨whole py [oneOf [words "last", words "past", words "previous"], .some (ahead isSpace),
      .group 1 (.some (ahead isDigit)), .many (ahead isSpace), words "h", .opt (words "ou"),
      words "r", .opt (words "s")], .hoursGiven, ("last ", some " hours")⟩,
    ⟨whole py [oneOf [words "last", words "past", words "previous"], .some (ahead isSpace),
      .group 1 (.some (ahead isDigit)), .many (ahead isSpace), words "day", .opt (words "s")],
      .daysGiven, ("last ", some " days")⟩,
    ⟨whole py [oneOf [words "last", words "past", words "previous"], .some (ahead isSpace),
      words "hour"], .hours 1, ("last hour", none)⟩,
    ⟨whole py [oneOf [words "this", words "the"], .some (ahead isSpace), words "morning"],
      .midnight, ("today", none)⟩,
    ⟨oneOf [whole py [words "today"], whole py [words "so far today"]], .midnight, ("today", none)⟩,
    ⟨whole py [words "yesterday"], .dayBeforeMidnight, ("since yesterday", none)⟩,
    ⟨oneOf [whole py [oneOf [words "this", words "past", words "last"], .some (ahead isSpace),
        words "week"],
      whole py [words "last", .some (ahead isSpace), words "7", .many (ahead isSpace),
        words "days"]], .days 7, ("last 7 days", none)⟩,
    ⟨oneOf [whole py [words "right now"], whole py [words "currently"],
      whole py [words "at the moment"], whole py [words "ongoing"], whole py [words "now"]],
      .hours 6, ("last 6 hours", none)⟩,
    ⟨oneOf [whole py [words "recent", .opt (words "ly")], whole py [words "lately"],
      whole py [words "latest"]], .hours 24, ("last 24 hours", none)⟩]

end Rules

/-! ### Windows -/

/-- `m.group(1)`. -/
def given (m : Regex.Match Place) : List Char := ((m.group 1).getD []).filterMap Prod.snd

/-- `int`. -/
def readInt (py : Interpreter) (digits : List Char) : Except Raised ℕ :=
  if py.intMaxStrDigits ≠ 0 ∧ py.intMaxStrDigits < digits.length then .error .valueError
  else .ok (intOf digits)

/-- `timedelta(…)`, from microseconds. -/
def timedelta (span : Int) : Except Raised Int :=
  if -999999999 ≤ span / usPerDay ∧ span / usPerDay ≤ 999999999 then .ok span
  else .error .daysOutOfRange

/-- A datetime less a `timedelta`, as an instant. -/
def goBack (start span : Int) : Except Raised Int := do
  let span ← timedelta span
  match checked (start - span) with
  | .ok since => .ok since
  | .error _ => .error .dateOutOfRange

/-- `_midnight`. -/
def midnight (now : DateTime) : Int := now.instant - now.sinceMidnight

/-- The window's beginning. -/
def Span.since (py : Interpreter) (now : DateTime) (m : Regex.Match Place) :
    Span → Except Raised Int
  | hoursGiven => do
    let count ← readInt py (given m)
    goBack now.instant (count * usPerHour)
  | daysGiven => do
    let count ← readInt py (given m)
    goBack now.instant (count * usPerDay)
  | hours count => goBack now.instant (count * usPerHour)
  | days count => goBack now.instant (count * usPerDay)
  | midnight => .ok (Timeframe.midnight now)
  | dayBeforeMidnight => goBack (Timeframe.midnight now) usPerDay

/-- `label.format(*m.groups())`. -/
def Rule.shown (rule : Rule) (m : Regex.Match Place) : List Char :=
  match rule.label with
  | (before, none) => before.toList
  | (before, some behind) => before.toList ++ given m ++ behind.toList

/-- The loop of `infer_window`: the window's beginning and its label. -/
def inferFrom (py : Interpreter) (question : List Char) (now : DateTime) :
    List Rule → Except Raised (Option (Int × List Char))
  | [] => .ok none
  | rule :: later =>
    match rule.pattern.search (Regex.places none question) with
    | some m => do
      let since ← rule.build.since py now m
      pure (some (since, rule.shown m))
    | none => inferFrom py question now later

/-- **`infer_window`.** -/
def inferWindow (py : Interpreter) (question : List Char) (now : DateTime) :
    Except Raised (Option (Int × List Char)) :=
  inferFrom py question now (rules py)

/-! ### When a window lies behind -/

/-- How far a span reaches back, midnight's from midnight. -/
def Span.length (m : Regex.Match Place) : Span → Int
  | hoursGiven => intOf (given m) * usPerHour
  | daysGiven => intOf (given m) * usPerDay
  | hours count => count * usPerHour
  | days count => count * usPerDay
  | midnight => 0
  | dayBeforeMidnight => usPerDay

/-- The first rule of some that applies, and what it found. -/
def applying (question : List Char) (tried : List Rule) : Option (Rule × Regex.Match Place) :=
  tried.findSome? fun rule =>
    (rule.pattern.search (Regex.places none question)).map fun m => (rule, m)

/-- A time that exists and is not later than now. -/
def Behind (now : DateTime) (since : Int) : Prop := yearStart 1 ≤ since ∧ since ≤ now.instant

theorem yearStart_first : yearStart 1 = -62135596800000000 := by decide

theorem yearStart_last : yearStart 10000 = 253402300800000000 := by decide

theorem goBack_eq (start span : Int) : goBack start span =
    if -999999999 ≤ span / usPerDay ∧ span / usPerDay ≤ 999999999 then
      if yearStart 1 ≤ start - span ∧ start - span < yearStart 10000 then .ok (start - span)
      else .error .dateOutOfRange
    else .error .daysOutOfRange := by
  unfold goBack timedelta
  split_ifs with fits inside
  · simp only [bind, Except.bind, checked, if_pos inside]
  · simp only [bind, Except.bind, checked, if_neg inside]
  · rfl

/-- **Going back ends behind now exactly if it does not go beyond the first year.** -/
theorem goBack_behind_iff {now : DateTime} {start span : Int} (forward : 0 ≤ span)
    (begun : start ≤ now.instant) :
    (∃ since, goBack start span = .ok since ∧ Behind now since) ↔ span ≤ start - yearStart 1 := by
  have latest := now.instant_supported.2
  have first := yearStart_first
  have last := yearStart_last
  rw [goBack_eq]
  constructor
  · rintro ⟨since, found, -⟩
    split_ifs at found with fits inside
    omega
  · intro near
    have fits : -999999999 ≤ span / usPerDay ∧ span / usPerDay ≤ 999999999 := by
      unfold usPerDay
      omega
    have inside : yearStart 1 ≤ start - span ∧ start - span < yearStart 10000 := by omega
    rw [if_pos fits, if_pos inside]
    exact ⟨start - span, rfl, inside.1, by omega⟩

theorem midnight_bounds (now : DateTime) :
    midnight now ≤ now.instant ∧ now.instant < midnight now + usPerDay ∧
      (midnight now - yearStart 1) % usPerDay = 0 := by
  have day := now.sinceMidnight_bounds
  refine ⟨by unfold midnight; omega, by unfold midnight; omega, ?_⟩
  unfold midnight Clock.instant yearStart usPerDay
  omega

theorem readInt_short {py : Interpreter} {digits : List Char} (short : digits.length ≤ 640) :
    readInt py digits = .ok (intOf digits) := by
  refine if_neg ?_
  have threshold := py.threshold
  omega

/-- **The step lemma**: the window of one rule. -/
theorem since_behind_iff {py : Interpreter} {now : DateTime} {m : Regex.Match Place}
    (short : (given m).length ≤ 640) (build : Span) :
    (∃ since, build.since py now m = .ok since ∧ Behind now since) ↔
      build.length m ≤ now.instant - yearStart 1 := by
  obtain ⟨early, late, whole⟩ := midnight_bounds now
  have supported := now.instant_supported
  have first := yearStart_first
  cases build with
  | hoursGiven =>
    simp only [Span.since, readInt_short short, bind, Except.bind]
    refine goBack_behind_iff ?_ (le_refl _)
    unfold usPerHour
    omega
  | daysGiven =>
    simp only [Span.since, readInt_short short, bind, Except.bind]
    refine goBack_behind_iff ?_ (le_refl _)
    unfold usPerDay
    omega
  | hours count =>
    refine goBack_behind_iff ?_ (le_refl _)
    unfold usPerHour
    omega
  | days count =>
    refine goBack_behind_iff ?_ (le_refl _)
    unfold usPerDay
    omega
  | midnight =>
    refine iff_of_true ⟨_, rfl, ?_, early⟩ ?_
    · unfold usPerDay at late whole
      omega
    · exact sub_nonneg.mpr supported.1
  | dayBeforeMidnight =>
    refine (goBack_behind_iff (by unfold usPerDay; omega) early).trans ?_
    show usPerDay ≤ midnight now - yearStart 1 ↔ usPerDay ≤ now.instant - yearStart 1
    unfold usPerDay at late whole ⊢
    omega

/-- The window of the rule that applies. -/
def windowOf (py : Interpreter) (now : DateTime) :
    Option (Rule × Regex.Match Place) → Except Raised (Option (Int × List Char))
  | none => .ok none
  | some (rule, m) => do
    let since ← rule.build.since py now m
    pure (some (since, rule.shown m))

theorem inferFrom_eq (py : Interpreter) (question : List Char) (now : DateTime) (tried : List Rule) :
    inferFrom py question now tried = windowOf py now (applying question tried) := by
  induction tried with
  | nil => rfl
  | cons rule later ih =>
    unfold inferFrom applying
    rw [List.findSome?_cons]
    cases found : rule.pattern.search (Regex.places none question) with
    | none => exact ih
    | some m => rfl

/-- No digits are given but those in the question. -/
theorem length_given {question : List Char} {tried : List Rule} {rule : Rule}
    {m : Regex.Match Place} (found : applying question tried = some (rule, m)) :
    (given m).length ≤ question.length + 1 := by
  obtain ⟨rule', -, found⟩ := List.exists_of_findSome?_eq_some found
  obtain ⟨m', here, same⟩ := Option.map_eq_some_iff.mp found
  obtain ⟨rfl, rfl⟩ := Prod.mk.inj same
  unfold given
  cases held : m'.group 1 with
  | none => exact Nat.zero_le _
  | some text =>
    refine le_trans (List.length_filterMap_le _ _) ?_
    rw [← Regex.length_places none question]
    exact Regex.length_group_of_search here held

/-- **The window of a question is none or one that lies behind, and nothing is raised**, exactly if
the span of the first rule that applies does not reach back before the first year. -/
theorem inferWindow_backward_iff (py : Interpreter) (question : List Char) (now : DateTime)
    (short : question.length ≤ maxQuestionChars) :
    (∃ window, inferWindow py question now = .ok window ∧
      ∀ since label, window = some (since, label) → Behind now since) ↔
        ∀ rule m, applying question (rules py) = some (rule, m) →
          rule.build.length m ≤ now.instant - yearStart 1 := by
  unfold inferWindow
  rw [inferFrom_eq]
  cases found : applying question (rules py) with
  | none => exact iff_of_true ⟨none, rfl, fun _ _ => nofun⟩ fun _ _ => nofun
  | some applies =>
    obtain ⟨rule, m⟩ := applies
    have digits : (given m).length ≤ 640 := by
      have given' := length_given found
      unfold maxQuestionChars at short
      omega
    have step := @since_behind_iff py now m digits rule.build
    constructor
    · rintro ⟨window, same, behind⟩ rule' m' found'
      obtain ⟨rfl, rfl⟩ := Prod.mk.inj (Option.some.inj found')
      refine step.mp ?_
      cases built : rule.build.since py now m with
      | error raised =>
        rw [windowOf, built] at same
        cases same
      | ok since =>
        rw [windowOf, built] at same
        obtain rfl := Except.ok.inj same
        exact ⟨since, rfl, behind since _ rfl⟩
    · intro near
      obtain ⟨since, built, behind⟩ := step.mpr (near rule m rfl)
      refine ⟨some (since, rule.shown m), by rw [windowOf, built]; rfl, ?_⟩
      rintro since' label same
      obtain ⟨rfl, -⟩ := Prod.mk.inj (Option.some.inj same)
      exact behind

/-! An interpreter, for ASCII, and a time. -/

def ascii : Interpreter where
  isWord c := c.isAlphanum || c == '_'
  intMaxStrDigits := 4300
  threshold := .inr (by decide)

def afternoon : DateTime where
  year := 2026
  month := 8
  day := 19
  hour := 14
  minute := 30
  second := 0
  microsecond := 0
  fits := by decide
  supported := ⟨by decide, by decide⟩

theorem inferWindow_backward_iff_days :
    (∃ window, inferWindow ascii "outages over the past 2 days".toList afternoon = .ok window ∧
      ∀ since label, window = some (since, label) → Behind afternoon since) ↔
        ∀ rule m, applying "outages over the past 2 days".toList (rules ascii) = some (rule, m) →
          rule.build.length m ≤ afternoon.instant - yearStart 1 :=
  inferWindow_backward_iff ascii _ afternoon (by decide)

/-- A number of hours that no `timedelta` holds is raised on. -/
theorem many_hours_raised : ¬ ∃ window,
    inferWindow ascii "anything in the last 99999999999 hours?".toList afternoon = .ok window ∧
      ∀ since label, window = some (since, label) → Behind afternoon since := by
  rintro ⟨window, found, -⟩
  have raised : inferWindow ascii "anything in the last 99999999999 hours?".toList afternoon =
      .error .daysOutOfRange := by
    decide +kernel
  rw [raised] at found
  cases found

end Freshet.Rag.Timeframe
