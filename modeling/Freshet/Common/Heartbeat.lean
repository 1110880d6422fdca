/-
**Heartbeats, and the run they vouch for.**

`Heartbeat.beat` writes no more often than its interval allows, one row for the component and one for the
minute, `date_trunc('minute', now())`. `continuousRunStart` walks the log of the minutes back to the
first gap that is wider than the tolerance. What is promised is about the beats themselves, which lie
anywhere in their minutes. Times are numbers of microseconds.

* **`continuous_iff`** — the run is without an outage exactly where no two beats one after the other are
  five minutes of the log apart and the later one further into its minute.
* **`six_minutes_short`** — a silence of five minutes and fifty-nine seconds within a run.
-/

import Freshet.Lib.Gaps
import Freshet.Lib.Table

namespace Freshet.Common

open Freshet.Lib

/-! ### Beats -/

def second : Int := 1000000

def minute : Int := 60 * second

/-- `BEAT_INTERVAL_S`. -/
def beatInterval : Int := 30 * second

/-- `GAP_TOLERANCE_S`. -/
def gapTolerance : Int := 300 * second

/-- `HEARTBEAT_RETENTION_DAYS`. -/
def retentionDays : Int := 30

/-- `date_trunc('minute', …)`. -/
def truncMinute (t : Int) : Int := t - t % minute

structure Tables where
  pipelineHeartbeat : Table String Int
  pipelineHeartbeatLog : Table (String × Int) Unit

def Tables.empty : Tables := ⟨∅, ∅⟩

/-- `_UPSERT` and `_LOG`. -/
def Tables.write (tables : Tables) (component : String) (now : Int) : Tables where
  pipelineHeartbeat := tables.pipelineHeartbeat.upsert component now fun _ => now
  pipelineHeartbeatLog := tables.pipelineHeartbeatLog.upsert (component, truncMinute now) () id

/-- `Heartbeat`. -/
structure Heartbeat where
  component : String
  interval : Int := beatInterval
  last : Int := -1000000000 * second

/-- `beat`: the clock is read once to see whether a beat is due and once to remember it. -/
def Heartbeat.beat (h : Heartbeat) (asked taken now : Int) (tables : Tables) :
    Bool × Heartbeat × Tables :=
  if asked - h.last < h.interval then (false, h, tables)
  else (true, { h with last := taken }, tables.write h.component now)

/-- Calls of `beat`, one after the other: the times of those that wrote, and the tables. -/
def Heartbeat.run (h : Heartbeat) : List (Int × Int × Int) → Tables → List Int × Tables
  | [], tables => ([], tables)
  | (asked, taken, now) :: later, tables =>
    match h.beat asked taken now tables with
    | (wrote, h', tables') =>
      let (times, last) := h'.run later tables'
      (if wrote then now :: times else times, last)

/-- Beats of any components, one after the other. -/
def written (writes : List (String × Int)) : Tables :=
  writes.foldl (fun tables (component, now) => tables.write component now) .empty

/-- The times at which a component beat. -/
def beatsOf (component : String) (writes : List (String × Int)) : List Int :=
  (writes.filter fun write => write.1 = component).map Prod.snd

/-- The oldest a row may be. -/
def horizon (now : Int) : Int := now - retentionDays * 24 * 60 * minute

/-- The rows of `continuous_run_start`, the newest first. -/
def logRows (log : Table (String × Int) Unit) (component : String) (now : Int) : List Int :=
  (log.select (fun key _ => key.1 = component && horizon now < key.2)
    fun first second => second.1.2 ≤ first.1.2).map fun row => row.1.2

/-- `(start - earlier).total_seconds() > gap_tolerance_s`. -/
def wide (tolerance start earlier : Int) : Bool := tolerance < start - earlier

/-- **`continuous_run_start`.** -/
def continuousRunStart (log : Table (String × Int) Unit) (component : String) (now : Int)
    (tolerance : Int := gapTolerance) : Option Int :=
  match logRows log component now with
  | [] => none
  | newest :: earlier => some (walkBack (wide tolerance) newest earlier)

/-! ### The log -/

/-- **A heartbeat's tables are those of the beats it says it wrote.** -/
theorem run_tables (h : Heartbeat) (calls : List (Int × Int × Int)) (tables : Tables) :
    (h.run calls tables).2 =
      (h.run calls tables).1.foldl (fun tables now => tables.write h.component now) tables := by
  induction calls generalizing h tables with
  | nil => rfl
  | cons call later ih =>
    obtain ⟨asked, taken, now⟩ := call
    unfold Heartbeat.run
    by_cases early : asked - h.last < h.interval
    · have skipped : h.beat asked taken now tables = (false, h, tables) := if_pos early
      rw [skipped]
      exact ih h tables
    · have wrote : h.beat asked taken now tables =
          (true, { h with last := taken }, tables.write h.component now) := if_neg early
      rw [wrote]
      exact ih { h with last := taken } _

/-- **The log holds the minutes of the beats**, each once. -/
theorem lookup_written (writes : List (String × Int)) (component : String) (m : Int) :
    (written writes).pipelineHeartbeatLog.lookup (component, m) = some () ↔
      ∃ t ∈ beatsOf component writes, truncMinute t = m := by
  have step : ∀ tables : Tables, (writes.foldl (fun tables (write : String × Int) =>
        tables.write write.1 write.2) tables).pipelineHeartbeatLog.lookup (component, m) = some () ↔
      tables.pipelineHeartbeatLog.lookup (component, m) = some () ∨
        ∃ t ∈ beatsOf component writes, truncMinute t = m := by
    induction writes with
    | nil =>
      intro tables
      simp [beatsOf]
    | cons write later ih =>
      intro tables
      obtain ⟨other, now⟩ := write
      rw [List.foldl_cons, ih]
      show (tables.pipelineHeartbeatLog.upsert (other, truncMinute now) () id).lookup _ = _ ∨ _ ↔ _
      rw [Table.lookup_upsert]
      by_cases same : component = other
      · subst same
        by_cases here : truncMinute now = m
        · simp [beatsOf, here]
        · have apart : ¬ (component, m) = (component, truncMinute now) := fun equal =>
            here (Prod.mk.inj equal).2.symm
          simp [beatsOf, apart, here]
      · have apart : ¬ (component, m) = (other, truncMinute now) := fun equal =>
          same (Prod.mk.inj equal).1
        have others : ¬ other = component := fun equal => same equal.symm
        simp [beatsOf, apart, others]
  refine (step .empty).trans (or_iff_right ?_)
  rw [show Tables.empty.pipelineHeartbeatLog.lookup (component, m) = none from rfl]
  exact nofun

section Rows

variable {log : Table (String × Int) Unit} {component : String} {now : Int}

theorem mem_logRows {m : Int} :
    m ∈ logRows log component now ↔ log.lookup (component, m) = some () ∧ horizon now < m := by
  unfold logRows
  rw [List.mem_map]
  constructor
  · rintro ⟨⟨⟨other, m'⟩, row⟩, member, rfl⟩
    obtain ⟨found, matched⟩ := Table.mem_select.mp member
    obtain ⟨same, recent⟩ := Bool.and_eq_true_iff.mp matched
    obtain rfl : other = component := of_decide_eq_true same
    exact ⟨found, of_decide_eq_true recent⟩
  · rintro ⟨found, recent⟩
    exact ⟨⟨(component, m), ()⟩, Table.mem_select.mpr ⟨found, by simp [recent]⟩, rfl⟩

/-- **The rows come from the newest down**, none twice. -/
theorem logRows_desc : (logRows log component now).Pairwise (· > ·) := by
  have sorted := @Table.pairwise_select (String × Int) Unit
    (fun key _ => key.1 = component && horizon now < key.2)
    (fun first second => second.1.2 ≤ first.1.2)
    (fun a b => (Int.le_total b.1.2 a.1.2).imp decide_eq_true decide_eq_true)
    (fun a b c one two => decide_eq_true (le_trans (of_decide_eq_true two) (of_decide_eq_true one)))
    log
  refine List.pairwise_map.mpr
    ((sorted.and (Table.distinct_select _ _ log)).imp_of_mem ?_)
  rintro ⟨⟨one, a⟩, _⟩ ⟨⟨two, b⟩, _⟩ first second ⟨le, apart⟩
  have mine := (Table.mem_select.mp first).2
  have mine' := (Table.mem_select.mp second).2
  obtain rfl : one = component := of_decide_eq_true (Bool.and_eq_true_iff.mp mine).1
  obtain rfl : two = one := of_decide_eq_true (Bool.and_eq_true_iff.mp mine').1
  exact lt_of_le_of_ne (of_decide_eq_true le) fun same => apart (congrArg (Prod.mk two) same.symm)

end Rows

/-! ### Minutes -/

theorem truncMinute_le (t : Int) : truncMinute t ≤ t := by
  unfold truncMinute minute second
  omega

theorem lt_truncMinute (t : Int) : t < truncMinute t + minute := by
  unfold truncMinute minute second
  omega

/-- A whole minute is before a time exactly where it is before the time's minute. -/
theorem truncMinute_le_iff (s t : Int) : truncMinute s ≤ truncMinute t ↔ truncMinute s ≤ t := by
  unfold truncMinute minute second
  omega

/-- **What the rounding hides**: minutes no wider apart than the tolerance, of times that are. -/
theorem hidden_iff {s t : Int} (close : truncMinute t - truncMinute s ≤ gapTolerance) :
    gapTolerance < t - s ↔
      truncMinute t = truncMinute s + gapTolerance ∧ s % minute < t % minute := by
  unfold truncMinute gapTolerance minute second at *
  omega

/-! ### The run -/

/-- The minutes that the log still shows. -/
def Logged (component : String) (now : Int) (writes : List (String × Int)) (m : Int) : Prop :=
  horizon now < m ∧ ∃ t ∈ beatsOf component writes, truncMinute t = m

/-- **No outage**: two beats one after the other are no further apart than the tolerance. -/
def NoOutage (beats : List Int) (start : Int) : Prop :=
  ∀ s t, Consecutive (· ∈ beats) s t → start ≤ s → t - s ≤ gapTolerance

/-- The earliest logged minute from which on the logged gaps stay within the tolerance. -/
def Earliest (logged : Int → Prop) (start : Int) : Prop :=
  IsLeast {m | logged m ∧ Unbroken (wide gapTolerance) logged m} start

section Run

variable {component : String} {now start : Int} {writes : List (String × Int)}

theorem logged_iff (m : Int) :
    m ∈ logRows (written writes).pipelineHeartbeatLog component now ↔ Logged component now writes m := by
  rw [mem_logRows, lookup_written, and_comm]
  rfl

/-- **Where the walk stops.** -/
theorem earliest_of_found
    (found : continuousRunStart (written writes).pipelineHeartbeatLog component now = some start) :
    Earliest (Logged component now writes) start := by
  have same : (· ∈ logRows (written writes).pipelineHeartbeatLog component now) =
      Logged component now writes := funext fun m => propext (logged_iff m)
  have desc := @logRows_desc (written writes).pipelineHeartbeatLog component now
  unfold continuousRunStart at found
  unfold Earliest
  rw [← same]
  split at found
  · cases found
  · rename_i newest earlier rows
    obtain rfl := Option.some.inj found
    rw [rows] at desc ⊢
    exact walkBack_isLeast desc

/-- Beats in one minute are close, and beats one after the other are in minutes one after the other. -/
theorem consecutive_truncMinute {s t : Int}
    (consecutive : Consecutive (· ∈ beatsOf component writes) s t)
    (shown : horizon now < truncMinute s) : truncMinute s = truncMinute t ∨
      Consecutive (Logged component now writes) (truncMinute s) (truncMinute t) := by
  have le : truncMinute s ≤ truncMinute t :=
    (truncMinute_le_iff s t).mpr (le_trans (truncMinute_le s) (le_of_lt consecutive.lt))
  rcases eq_or_lt_of_le le with same | lt
  · exact .inl same
  · refine .inr ⟨⟨shown, s, consecutive.left, rfl⟩, ⟨lt_trans shown lt, t, consecutive.right, rfl⟩,
      lt, ?_⟩
    rintro m ⟨-, u, beat, rfl⟩ ⟨above, below⟩
    -- A beat in a minute between the two would be between them.
    refine consecutive.between u beat ⟨?_, ?_⟩
    · by_contra early
      exact not_lt_of_ge ((truncMinute_le_iff u s).mpr
        (le_trans (truncMinute_le u) (not_lt.mp early))) above
    · by_contra late
      exact not_lt_of_ge ((truncMinute_le_iff t u).mpr
        (le_trans (truncMinute_le t) (not_lt.mp late))) below

/-- **When a continuous run has no outage**: where no two beats, one after the other and with no logged
gap from them on, have the later one exactly five minutes of the log later and further into its
minute. -/
theorem continuous_iff
    (found : continuousRunStart (written writes).pipelineHeartbeatLog component now = some start) :
    (NoOutage (beatsOf component writes) start ∧ Earliest (Logged component now writes) start) ↔
      ∀ s t, Consecutive (· ∈ beatsOf component writes) s t → horizon now < truncMinute s →
        Unbroken (wide gapTolerance) (Logged component now writes) (truncMinute s) →
        ¬ (truncMinute t = truncMinute s + gapTolerance ∧ s % minute < t % minute) := by
  have earliest := earliest_of_found found
  obtain ⟨⟨shown, first, beat, rfl⟩, unbroken⟩ := earliest.1
  constructor
  · rintro ⟨noOutage, -⟩ s t consecutive recent unbroken' hidden
    have least : truncMinute first ≤ truncMinute s :=
      earliest.2 ⟨⟨recent, s, consecutive.left, rfl⟩, unbroken'⟩
    have close : truncMinute t - truncMinute s ≤ gapTolerance := by
      rw [hidden.1]
      omega
    have far := (hidden_iff close).mpr hidden
    have near := noOutage s t consecutive (le_trans least (truncMinute_le s))
    omega
  · intro none'
    refine ⟨fun s t consecutive after => ?_, earliest⟩
    have le : truncMinute first ≤ truncMinute s := (truncMinute_le_iff first s).mpr after
    have recent : horizon now < truncMinute s := lt_of_lt_of_le shown le
    have close : truncMinute t - truncMinute s ≤ gapTolerance := by
      rcases consecutive_truncMinute consecutive recent with same | gap
      · rw [same, sub_self]
        decide
      · exact not_lt.mp (of_decide_eq_false (unbroken _ _ gap le))
    by_contra far
    exact none' s t consecutive recent (unbroken.mono le)
      ((hidden_iff close).mp (not_le.mp far))

end Run

/-! An embedder that beats on the stroke of noon and then not for nearly six minutes. -/

def noon : Int := 1787140800 * second

def embedderBeats (silence : Int) : List (String × Int) :=
  [("embedder", noon), ("embedder", noon + silence)]

theorem continuous_iff_short :
    (NoOutage (beatsOf "embedder" (embedderBeats (90 * second))) noon ∧
      Earliest (Logged "embedder" (noon + 400 * second) (embedderBeats (90 * second))) noon) ↔
    ∀ s t, Consecutive (· ∈ beatsOf "embedder" (embedderBeats (90 * second))) s t →
      horizon (noon + 400 * second) < truncMinute s →
      Unbroken (wide gapTolerance)
        (Logged "embedder" (noon + 400 * second) (embedderBeats (90 * second))) (truncMinute s) →
      ¬ (truncMinute t = truncMinute s + gapTolerance ∧ s % minute < t % minute) :=
  continuous_iff (by decide +kernel)

/-- The log shows five minutes. -/
theorem six_minutes_short :
    ¬ ∀ start, continuousRunStart (written (embedderBeats (359 * second))).pipelineHeartbeatLog
        "embedder" (noon + 400 * second) = some start →
      NoOutage (beatsOf "embedder" (embedderBeats (359 * second))) start ∧
        Earliest (Logged "embedder" (noon + 400 * second) (embedderBeats (359 * second))) start := by
  intro promised
  obtain ⟨noOutage, -⟩ := promised noon (by decide +kernel)
  have beats : beatsOf "embedder" (embedderBeats (359 * second)) = [noon, noon + 359 * second] := rfl
  have near := noOutage noon (noon + 359 * second)
    { left := beats ▸ List.mem_cons_self
      right := beats ▸ List.mem_cons_of_mem _ List.mem_cons_self
      lt := by decide
      between := by
        rw [beats]
        rintro c member ⟨above, below⟩
        rcases List.mem_cons.mp member with rfl | other
        · exact lt_irrefl _ above
        · exact absurd (List.mem_singleton.mp other) (ne_of_lt below) }
    le_rfl
  exact absurd near (by decide)

end Freshet.Common
