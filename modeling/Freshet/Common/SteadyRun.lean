/-
**A worker that keeps calling keeps its run.**

A heartbeat is written at most every half minute, the log rounds it to its minute, and a gap of the log
of more than five minutes ends the run. A worker calls `beat` on every message and every idle poll, a
restarted one has a new `Heartbeat`. If a call reaches the server within `latency`, and no two calls one
after the other, with or without a restart in between, are further apart than `pause`, and these two are
three and a half minutes at most, then every beat that the log still shows belongs to the current run
(`steady_run`): neither the throttle nor the rounding nor a restart is taken for an outage.
-/

import Freshet.Common.Heartbeat

namespace Freshet.Common

open Freshet.Lib

/-- One call of `beat`: the two readings of the process's clock, and the server's time. -/
structure Call where
  asked : Int
  taken : Int
  now : Int

/-- What a worker does: it starts again, or it calls. -/
inductive Moment
  | restart
  | beat (call : Call)

/-- The beats of a worker's lives, and the tables. -/
def Heartbeat.lives (h : Heartbeat) : List Moment → Tables → List Int × Tables
  | [], tables => ([], tables)
  | .restart :: later, tables =>
    Heartbeat.lives { component := h.component, interval := h.interval } later tables
  | .beat call :: later, tables =>
    match h.beat call.asked call.taken call.now tables with
    | (wrote, h', tables') =>
      let (times, last) := h'.lives later tables'
      (if wrote then call.now :: times else times, last)

/-- **Calls one after the other**, on a process clock that is `offset` behind the server's: each reaches
the server within `latency`, and `pause` at most after the one before, which was at `before`. A new
process has a clock of its own. -/
def Steady (latency pause : Int) : (offset before : Int) → List Moment → Prop
  | _, _, [] => True
  | _, before, .restart :: later => ∃ offset, Steady latency pause offset before later
  | offset, before, .beat call :: later =>
    0 ≤ call.asked ∧ call.taken + offset ≤ call.now ∧ call.now ≤ call.asked + offset + latency ∧
      before ≤ call.now ∧ call.now ≤ before + pause ∧ Steady latency pause offset call.now later

/-- No further apart than the bound. -/
def Near (bound first second : Int) : Prop := first ≤ second ∧ second ≤ first + bound

section Steady

variable {latency pause : Int}

/-- **The beats are near each other.** `last` is the latest beat and `before` the latest call; the
process that wrote it may be gone. -/
theorem near_lives {h : Heartbeat} {moments : List Moment} {tables : Tables} {offset last before : Int}
    (timed : Steady latency pause offset before moments) (waits : 0 ≤ latency)
    (standing : h.last = -1000000000 * second ∨ h.last + offset ≤ last)
    (interval : h.interval = beatInterval) (order : last ≤ before)
    (recent : before ≤ last + beatInterval + latency) :
    (last :: (h.lives moments tables).1).IsChain (Near (beatInterval + latency + pause)) := by
  induction moments generalizing h tables offset last before with
  | nil => exact List.isChain_singleton last
  | cons moment later ih =>
    cases moment with
    | restart =>
      obtain ⟨offset', timed⟩ := timed
      exact ih timed (Or.inl rfl) interval order recent
    | beat call =>
      obtain ⟨started, reached, prompt, after, soon, timed⟩ := timed
      unfold Heartbeat.lives
      by_cases early : call.asked - h.last < h.interval
      · have skipped : h.beat call.asked call.taken call.now tables = (false, h, tables) := if_pos early
        rw [skipped]
        -- the call was skipped, so it is less than an interval after the beat
        have held : h.last + offset ≤ last := by
          rcases standing with new | held
          · rw [new, interval] at early
            unfold beatInterval second at early
            omega
          · exact held
        refine ih timed (Or.inr held) interval (by omega) ?_
        rw [interval] at early
        omega
      · have wrote : h.beat call.asked call.taken call.now tables =
            (true, { h with last := call.taken }, tables.write h.component call.now) := if_neg early
        rw [wrote]
        refine List.isChain_cons_cons.mpr ⟨⟨by omega, by omega⟩, ?_⟩
        refine ih timed (Or.inr reached) interval le_rfl ?_
        unfold beatInterval second
        omega

/-- The tables are those of the beats. -/
theorem lives_tables (h : Heartbeat) (moments : List Moment) (tables : Tables) :
    (h.lives moments tables).2 =
      (h.lives moments tables).1.foldl (fun tables now => tables.write h.component now) tables := by
  induction moments generalizing h tables with
  | nil => rfl
  | cons moment later ih =>
    cases moment with
    | restart => exact ih _ tables
    | beat call =>
      unfold Heartbeat.lives
      by_cases early : call.asked - h.last < h.interval
      · have skipped : h.beat call.asked call.taken call.now tables = (false, h, tables) := if_pos early
        rw [skipped]
        exact ih h tables
      · have wrote : h.beat call.asked call.taken call.now tables =
            (true, { h with last := call.taken }, tables.write h.component call.now) := if_neg early
        rw [wrote]
        exact ih { h with last := call.taken } _

theorem beatsOf_one (component : String) (times : List Int) :
    beatsOf component (times.map (Prod.mk component)) = times := by
  have own : (times.map (Prod.mk component)).filter (fun write => write.1 = component) =
      times.map (Prod.mk component) := by
    refine List.filter_eq_self.mpr fun write member => ?_
    obtain ⟨t, -, rfl⟩ := List.mem_map.mp member
    exact decide_eq_true rfl
  unfold beatsOf
  rw [own, List.map_map]
  exact List.map_id times

/-- **The log of near beats has no wide gap.** -/
theorem unbroken_of_near {component : String} {times : List Int} {now bound m : Int}
    (near : times.IsChain (Near bound)) (narrow : bound + minute ≤ gapTolerance) :
    Unbroken (wide gapTolerance) (Logged component now (times.map (Prod.mk component))) m := by
  rintro a b ⟨⟨shown, s, beat, rfl⟩, ⟨-, t, beat', rfl⟩, lt, between⟩ -
  rw [beatsOf_one] at beat beat'
  cases times with
  | nil => cases beat
  | cons first rest =>
    -- the first beat is the earliest
    have least : first ≤ s := by
      have sorted := (List.isChain_iff_pairwise.mp (near.imp fun _ _ close => close.1))
      rcases List.mem_cons.mp beat with rfl | later
      · exact le_rfl
      · exact (List.pairwise_cons.mp sorted).1 s later
    obtain ⟨x, -, y, member, ⟨-, close⟩, inside, outside⟩ :=
      @exists_step _ _ (fun u => truncMinute u ≤ truncMinute s) _ _ near
        ((truncMinute_le_iff first s).mpr ((truncMinute_le first).trans least)) t beat' (not_le.mpr lt)
    have above : truncMinute s < truncMinute y := not_le.mp outside
    have reaches : truncMinute t ≤ truncMinute y := by
      by_contra early
      refine between (truncMinute y) ⟨lt_trans shown above, y, ?_, rfl⟩ ⟨above, not_le.mp early⟩
      rw [beatsOf_one]
      exact member
    have minuteX := lt_truncMinute x
    have minuteY := truncMinute_le y
    have inside' : truncMinute x ≤ truncMinute s := inside
    refine decide_eq_false ?_
    omega

/-- **Every beat that the log shows is of the current run.** -/
theorem steady_run {component : String} {offset before now : Int} {moments : List Moment}
    (timed : Steady latency pause offset before moments) (waits : 0 ≤ latency)
    (quick : latency + pause ≤ 210 * second) {t : Int}
    (beat : t ∈ (Heartbeat.lives { component } moments .empty).1)
    (shown : horizon now < truncMinute t) :
    ∃ start, continuousRunStart
        (Heartbeat.lives { component } moments .empty).2.pipelineHeartbeatLog component now =
          some start ∧ start ≤ truncMinute t := by
  have tables := lives_tables { component } moments .empty
  have near : (Heartbeat.lives { component } moments .empty).1.IsChain
      (Near (beatInterval + latency + pause)) :=
    (near_lives timed waits (Or.inl rfl) rfl le_rfl (by unfold beatInterval second; omega)).tail
  generalize (Heartbeat.lives { component } moments .empty).1 = times at *
  have log : times.foldl (fun tables now => tables.write component now) Tables.empty =
      written (times.map (Prod.mk component)) := by
    unfold written
    rw [List.foldl_map]
  rw [tables]
  show ∃ start, continuousRunStart (times.foldl (fun tables now => tables.write component now)
    Tables.empty).pipelineHeartbeatLog component now = some start ∧ _
  rw [log]
  have narrow : beatInterval + latency + pause + minute ≤ gapTolerance := by
    unfold beatInterval gapTolerance minute
    omega
  have logged : Logged component now (times.map (Prod.mk component)) (truncMinute t) :=
    ⟨shown, t, by rw [beatsOf_one]; exact beat, rfl⟩
  cases found : continuousRunStart (written (times.map (Prod.mk component))).pipelineHeartbeatLog
      component now with
  | none =>
    have row := (logged_iff _).mpr logged
    unfold continuousRunStart at found
    split at found
    · rename_i empty
      rw [empty] at row
      cases row
    · cases found
  | some start => exact ⟨start, rfl, (earliest_of_found found).2 ⟨logged, unbroken_of_near near narrow⟩⟩

/-- A worker that starts again after a first call, and calls 200 s later, on a clock of its own. -/
theorem steady_run_restarted :
    ∃ start, continuousRunStart
        (Heartbeat.lives { component := "embedder" }
          [.beat ⟨5 * second, 5 * second, 1000 * second⟩, .restart,
            .beat ⟨second, second, 1200 * second⟩] .empty).2.pipelineHeartbeatLog "embedder"
        (1300 * second) = some start ∧ start ≤ truncMinute (1000 * second) :=
  @steady_run (10 * second) (200 * second) "embedder" (990 * second) (1000 * second) (1300 * second) _
    (by exact ⟨by decide, by decide, by decide, by decide, by decide, 1199 * second, by decide,
      by decide, by decide, by decide, by decide, trivial⟩) (by decide) (by decide) (1000 * second)
    (by decide) (by decide)

end Steady

end Freshet.Common
