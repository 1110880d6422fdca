/-
**A restart is invisible to the backoff.**

A backoff keeps deadlines on the monotonic clock, and a snapshot keeps them on the wall clock. Neither
clock matters: what a caller can see is how many failures a host has had and how long it is still to
be skipped.

* `Timers`: the same calls without any clock;
* `Shows`: the timers that a backoff shows at a time. Every call keeps them (`shows_step`), a
  snapshot that is restored too (`shows_restart`);
* `restart_invisible`: so a run with restarts and the run without them answer alike.
-/

import Freshet.Ingest.Backoff
import Mathlib.Data.NNRat.Defs
import Mathlib.Algebra.Order.Group.MinMax
import Mathlib.Tactic.Linarith

namespace Freshet.Ingest.Countdown

open Freshet.Lib

/-! ### Runs with restarts -/

/-- What happens to a backoff, one after the other: time passes, a call is made, or the process is
restarted, which takes a while and leaves the monotonic clock anywhere. -/
inductive Call where
  | pass (time : ℚ≥0)
  | failed (url : String) (retryAfter : Option Rat)
  | succeeded (url : String)
  | skip (url : String)
  | restart (gap mono : ℚ≥0)

/-- The same without the restart. -/
def Call.uninterrupted : Call → Call
  | .restart gap _ => .pass gap
  | call => call

inductive Answer where
  | delay (seconds : Rat)
  | skipped (answer : Bool)
  | nothing
deriving DecidableEq

/-- A backoff and the readings of its two clocks. -/
structure Process where
  mono : ℚ≥0
  wall : Rat
  backoff : HostBackoff := {}

/-- One call. -/
def Process.step (library : Library) (p : Process) : Call → Answer × Process
  | .pass time => (.nothing, { p with mono := p.mono + time, wall := p.wall + time })
  | .failed url retryAfter =>
    let failed := p.backoff.failed library p.mono url retryAfter
    (.delay failed.1, { p with backoff := failed.2 })
  | .succeeded url => (.nothing, { p with backoff := p.backoff.succeeded library url })
  | .skip url => (.skipped (p.backoff.skip library p.mono url), p)
  | .restart gap mono =>
    let saved := p.backoff.snapshot p.mono p.wall
    let wall := p.wall + gap
    (.nothing, ⟨mono, wall, HostBackoff.restore mono wall saved {}⟩)

/-- The answers of a run. -/
def Process.run (library : Library) : List Call → Process → List Answer
  | [], _ => []
  | call :: rest, p => (p.step library call).1 :: Process.run library rest (p.step library call).2

/-- The process after a run. -/
def Process.after (library : Library) (calls : List Call) (p : Process) : Process :=
  calls.foldl (fun p call => (p.step library call).2) p

/-! ### The same without clocks -/

/-- How many failures each host has had, and how long it is still to be skipped. -/
structure Timers where
  failures : String → Nat
  left : String → Rat

/-- One call; a restart only takes its time. -/
def Timers.step (library : Library) (t : Timers) : Call → Answer × Timers
  | .pass time => (.nothing, { t with left := fun host => max 0 (t.left host - time) })
  | .failed url retryAfter =>
    let host := library.hostOf url
    let wait := HostBackoff.delay (t.failures host + 1) retryAfter
    (.delay wait, ⟨Function.update t.failures host (t.failures host + 1),
      Function.update t.left host wait⟩)
  | .succeeded url =>
    let host := library.hostOf url
    (.nothing, ⟨Function.update t.failures host 0, Function.update t.left host 0⟩)
  | .skip url => (.skipped (decide (0 < t.left (library.hostOf url))), t)
  | .restart gap _ => (.nothing, { t with left := fun host => max 0 (t.left host - gap) })

/-- The answers of a run. -/
def Timers.run (library : Library) : List Call → Timers → List Answer
  | [], _ => []
  | call :: rest, t => (t.step library call).1 :: Timers.run library rest (t.step library call).2

/-- **The timers that a backoff shows.** -/
structure Shows (p : Process) (t : Timers) : Prop where
  failures : ∀ host, t.failures host = (p.backoff.failures.get host).getD 0
  left : ∀ host, t.left host = max 0 ((p.backoff.deadlines.get host).getD 0 - p.mono)
  distinct : p.backoff.deadlines.keys.Nodup

/-! ### What every call keeps -/

section Proofs

variable {library : Library}

theorem delay_nonneg (n : Nat) (retryAfter : Option Rat) : 0 ≤ HostBackoff.delay n retryAfter := by
  have guess : (0 : Rat) ≤ min maxBackoffS (2 ^ min n 10) := le_min (by decide) (by positivity)
  unfold HostBackoff.delay
  split
  · split_ifs with positive
    · exact le_min (by decide) positive.le
    · exact guess
  · exact guess

theorem delay_le (n : Nat) (retryAfter : Option Rat) : HostBackoff.delay n retryAfter ≤ maxBackoffS := by
  unfold HostBackoff.delay
  split
  · split_ifs
    · exact min_le_left _ _
    · exact min_le_left _ _
  · exact min_le_left _ _

/-- A countdown goes on from where it is. -/
theorem countdown (deadline now time : Rat) (forward : 0 ≤ time) :
    max 0 (deadline - (now + time)) = max 0 (max 0 (deadline - now) - time) := by
  rcases le_total (deadline - now) 0 with past | ahead
  · rw [max_eq_left past, max_eq_left (by linarith), max_eq_left (by linarith)]
  · rw [max_eq_right ahead]
    congr 1
    linarith

theorem nodup_pop {d : Dict String Rat} (host : String) (distinct : d.keys.Nodup) :
    (d.pop host).keys.Nodup := by
  unfold Dict.keys Dict.pop
  exact (List.filter_sublist.map Prod.fst).nodup distinct

/-- What is restored of a host: a deadline still ahead, on the new clocks. -/
theorem get_restore {items : Dict String Rat} (distinct : items.keys.Nodup) (now wall : Rat)
    (deadlines : Dict String Rat) (host : String) :
    (items.foldl (fun deadlines item =>
      let remaining := item.2 - wall
      if remaining > 0 then deadlines.set item.1 (now + remaining) else deadlines) deadlines).get host =
    (match items.get host with
      | none => deadlines.get host
      | some deadline => if deadline - wall > 0 then some (now + (deadline - wall))
        else deadlines.get host) := by
  induction items generalizing deadlines with
  | nil => rfl
  | cons item rest ih =>
    obtain ⟨k, deadline⟩ := item
    obtain ⟨new, distinct'⟩ := List.nodup_cons.mp distinct
    rw [List.foldl_cons, ih distinct']
    have here : Dict.get host ((k, deadline) :: rest) =
        if k = host then some deadline else Dict.get host rest := rfl
    rw [here]
    by_cases same : k = host
    · subst same
      have missing : Dict.get k rest = none := by
        rcases found : Dict.get k rest with _ | other
        · rfl
        · exact absurd (Dict.mem_keys_of_get found) new
      rw [missing, if_pos rfl]
      dsimp only
      split_ifs with ahead
      · rw [Dict.get_set, if_pos rfl]
      · rfl
    · rw [if_neg same]
      dsimp only
      have kept : (if deadline - wall > 0 then Dict.set k (now + (deadline - wall)) deadlines
          else deadlines).get host = deadlines.get host := by
        split_ifs
        · rw [Dict.get_set, if_neg (Ne.symm same)]
        · rfl
      rw [kept]

theorem shows_pass {p : Process} {t : Timers} (shows : Shows p t) (time : ℚ≥0) :
    Shows { p with mono := p.mono + time, wall := p.wall + time }
      { t with left := fun host => max 0 (t.left host - time) } := by
  refine ⟨shows.failures, fun host => ?_, shows.distinct⟩
  show max 0 (t.left host - (time : Rat)) =
    max 0 ((p.backoff.deadlines.get host).getD 0 - ((p.mono + time : ℚ≥0) : Rat))
  rw [shows.left, NNRat.cast_add, countdown _ _ _ time.cast_nonneg]

/-- What is saved of a host: a deadline still ahead, on the wall clock. -/
theorem get_saved {items : Dict String Rat} (distinct : items.keys.Nodup) (now wall : Rat)
    (host : String) :
    Dict.get host (items.filterMap fun item =>
      if item.2 - now > 0 then some (item.1, wall + (item.2 - now)) else none) =
    (items.get host).bind fun deadline =>
      if deadline - now > 0 then some (wall + (deadline - now)) else none := by
  induction items with
  | nil => rfl
  | cons item rest ih =>
    obtain ⟨k, deadline⟩ := item
    obtain ⟨new, distinct'⟩ := List.nodup_cons.mp distinct
    have here : Dict.get host ((k, deadline) :: rest) =
        if k = host then some deadline else Dict.get host rest := rfl
    rw [List.filterMap_cons, here]
    by_cases same : k = host
    · subst same
      rw [if_pos rfl, Option.bind_some]
      split_ifs with ahead
      · show (if k = k then some (wall + (deadline - now)) else _) = _
        rw [if_pos rfl]
      · have missing : Dict.get k rest = none := by
          rcases found : Dict.get k rest with _ | other
          · rfl
          · exact absurd (Dict.mem_keys_of_get found) new
        rw [ih distinct', missing]
        rfl
    · rw [if_neg same]
      split_ifs with ahead
      · show (if k = host then _ else Dict.get host _) = _
        rw [if_neg same, ih distinct']
      · exact ih distinct'

theorem nodup_saved {items : Dict String Rat} (distinct : items.keys.Nodup) (now wall : Rat) :
    (Dict.keys (items.filterMap fun item =>
      if item.2 - now > 0 then some (item.1, wall + (item.2 - now)) else none)).Nodup := by
  have kept : Dict.keys (items.filterMap fun item =>
      if item.2 - now > 0 then some (item.1, wall + (item.2 - now)) else none) =
      (items.filter fun item => item.2 - now > 0).map Prod.fst := by
    unfold Dict.keys
    induction items with
    | nil => rfl
    | cons item rest ih =>
      rw [List.filterMap_cons]
      by_cases ahead : item.2 - now > 0
      · rw [if_pos ahead, List.filter_cons_of_pos (by simpa using ahead), List.map_cons, List.map_cons,
          ih (List.nodup_cons.mp distinct).2]
      · rw [if_neg ahead, List.filter_cons_of_neg (by simpa using ahead)]
        exact ih (List.nodup_cons.mp distinct).2
  rw [kept]
  exact (List.filter_sublist.map Prod.fst).nodup distinct

theorem nodup_restore (items : Dict String Rat) (now wall : Rat) {deadlines : Dict String Rat}
    (distinct : deadlines.keys.Nodup) :
    (Dict.keys (items.foldl (fun deadlines item =>
      let remaining := item.2 - wall
      if remaining > 0 then deadlines.set item.1 (now + remaining) else deadlines)
      deadlines)).Nodup := by
  induction items generalizing deadlines with
  | nil => exact distinct
  | cons item rest ih =>
    rw [List.foldl_cons]
    refine ih ?_
    dsimp only
    split_ifs
    · exact Dict.nodup_set _ _ distinct
    · exact distinct

/-- **A restart takes its time and nothing else.** -/
theorem shows_restart {p : Process} {t : Timers} (shows : Shows p t) (gap mono : ℚ≥0) :
    Shows ⟨mono, p.wall + gap,
        HostBackoff.restore mono (p.wall + gap) (p.backoff.snapshot p.mono p.wall) {}⟩
      { t with left := fun host => max 0 (t.left host - gap) } := by
  have saved := nodup_saved shows.distinct p.mono p.wall
  refine ⟨shows.failures, fun host => ?_, nodup_restore _ _ _ List.nodup_nil⟩
  have restored := get_restore saved mono (p.wall + gap) [] host
  rw [get_saved shows.distinct] at restored
  show max 0 (t.left host - (gap : Rat)) = max 0 ((Dict.get host _).getD 0 - (mono : Rat))
  have forward : (0 : Rat) ≤ gap := gap.cast_nonneg
  have positive : (0 : Rat) ≤ mono := mono.cast_nonneg
  have positive' : (0 : Rat) ≤ p.mono := p.mono.cast_nonneg
  rw [shows.left]
  refine Eq.trans ?_ (congrArg (fun found => max 0 (Option.getD found 0 - (mono : Rat))) restored.symm)
  cases p.backoff.deadlines.get host with
  | none =>
    have none' : max 0 (0 - (p.mono : Rat)) = 0 := max_eq_left (by linarith)
    show max 0 (max 0 (0 - (p.mono : Rat)) - gap) = max 0 (0 - (mono : Rat))
    rw [none', max_eq_left (by linarith), max_eq_left (by linarith)]
  | some deadline =>
    rw [Option.getD_some, Option.bind_some]
    by_cases ahead : deadline - (p.mono : Rat) > 0
    · rw [if_pos ahead, max_eq_right ahead.le]
      dsimp only
      by_cases still : p.wall + (deadline - (p.mono : Rat)) - (p.wall + gap) > 0
      · rw [if_pos still, Option.getD_some]
        congr 1
        linarith
      · rw [if_neg still, max_eq_left (by linarith)]
        show (0 : Rat) = max 0 (0 - (mono : Rat))
        rw [max_eq_left (by linarith)]
    · rw [if_neg ahead, max_eq_left (not_lt.mp ahead)]
      show max 0 (0 - (gap : Rat)) = max 0 (0 - (mono : Rat))
      rw [max_eq_left (by linarith), max_eq_left (by linarith)]

/-- **Every call answers alike, and keeps what is shown.** -/
theorem shows_step {p : Process} {t : Timers} (shows : Shows p t) (call : Call) :
    (p.step library call).1 = (t.step library call).1 ∧
      Shows (p.step library call).2 (t.step library call).2 := by
  cases call with
  | pass time => exact ⟨rfl, shows_pass shows time⟩
  | restart gap mono => exact ⟨rfl, shows_restart shows gap mono⟩
  | skip url =>
    refine ⟨?_, shows⟩
    show Answer.skipped (decide _) = Answer.skipped (decide _)
    congr 2
    rw [shows.left, lt_max_iff, or_iff_right (lt_irrefl _), sub_pos]
  | succeeded url =>
    refine ⟨rfl, fun host => ?_, fun host => ?_, nodup_pop _ shows.distinct⟩
    · show Function.update t.failures (library.hostOf url) 0 host =
        ((p.backoff.failures.pop (library.hostOf url)).get host).getD 0
      rw [Dict.get_pop]
      by_cases same : host = library.hostOf url
      · rw [if_pos same, same, Function.update_self]
        rfl
      · rw [if_neg same, Function.update_of_ne same, shows.failures]
    · show Function.update t.left (library.hostOf url) 0 host =
        max 0 (((p.backoff.deadlines.pop (library.hostOf url)).get host).getD 0 - (p.mono : Rat))
      rw [Dict.get_pop]
      by_cases same : host = library.hostOf url
      · rw [if_pos same, same, Function.update_self, Option.getD_none, zero_sub,
          max_eq_left (neg_nonpos.mpr p.mono.cast_nonneg)]
      · rw [if_neg same, Function.update_of_ne same, shows.left]
  | failed url retryAfter =>
    have count := shows.failures (library.hostOf url)
    refine ⟨?_, fun host => ?_, fun host => ?_, Dict.nodup_set _ _ shows.distinct⟩
    · show Answer.delay (HostBackoff.delay _ _) = Answer.delay (HostBackoff.delay _ _)
      rw [count]
    · show Function.update t.failures _ _ host = ((Dict.set _ _ p.backoff.failures).get host).getD 0
      rw [Dict.get_set]
      by_cases same : host = library.hostOf url
      · rw [if_pos same, same, Function.update_self, count]
        rfl
      · rw [if_neg same, Function.update_of_ne same, shows.failures]
    · show Function.update t.left _ _ host =
        max 0 (((Dict.set _ _ p.backoff.deadlines).get host).getD 0 - (p.mono : Rat))
      rw [Dict.get_set]
      by_cases same : host = library.hostOf url
      · rw [if_pos same, same, Function.update_self, Option.getD_some, count, add_sub_cancel_left,
          max_eq_right (delay_nonneg _ _)]
      · rw [if_neg same, Function.update_of_ne same, shows.left]

theorem run_eq {calls : List Call} {p : Process} {t : Timers} (shows : Shows p t) :
    p.run library calls = t.run library calls := by
  induction calls generalizing p t with
  | nil => rfl
  | cons call rest ih =>
    obtain ⟨answer, kept⟩ := @shows_step library _ _ shows call
    unfold Process.run Timers.run
    rw [answer, ih kept]

/-- Without clocks a restart is the time it takes. -/
theorem run_uninterrupted (calls : List Call) (t : Timers) :
    t.run library (calls.map Call.uninterrupted) = t.run library calls := by
  induction calls generalizing t with
  | nil => rfl
  | cons call rest ih =>
    rw [List.map_cons]
    unfold Timers.run
    cases call <;> exact congrArg₂ List.cons rfl (ih _)

/-- What a fresh backoff shows. -/
theorem shows_fresh (mono : ℚ≥0) (wall : Rat) : Shows ⟨mono, wall, {}⟩ ⟨fun _ => 0, fun _ => 0⟩ := by
  refine ⟨fun _ => rfl, fun host => ?_, List.nodup_nil⟩
  show (0 : Rat) = max 0 (0 - (mono : Rat))
  rw [zero_sub, max_eq_left (neg_nonpos.mpr mono.cast_nonneg)]

/-! ### How long a host is skipped -/

theorem after_append (before : List Call) (call : Call) (p : Process) :
    p.after library (before ++ [call]) = ((p.after library before).step library call).2 :=
  List.foldl_append

/-- A host has failed, not since then, and is to be skipped until at most `MAX_BACKOFF_S` later. -/
def Recent (library : Library) (start : Process) (calls : List Call) (host : String) (left : Rat) :
    Prop :=
  ∃ before url retryAfter later, calls = before ++ .failed url retryAfter :: later ∧
    library.hostOf url = host ∧
    (∀ url' retryAfter', .failed url' retryAfter' ∈ later → library.hostOf url' ≠ host) ∧
    (start.after library calls).wall + left ≤ (start.after library before).wall + maxBackoffS

/-- One more call that is no failure of the host. -/
theorem Recent.snoc {start : Process} {calls : List Call} {host : String} {left left' : Rat}
    {call : Call} (recent : Recent library start calls host left)
    (other : ∀ url retryAfter, call = .failed url retryAfter → library.hostOf url ≠ host)
    (less : (start.after library (calls ++ [call])).wall + left' ≤
      (start.after library calls).wall + left) :
    Recent library start (calls ++ [call]) host left' := by
  obtain ⟨before, url, retryAfter, later, rfl, same, none', bound⟩ := recent
  refine ⟨before, url, retryAfter, later ++ [call], by simp, same, fun url' retryAfter' member => ?_,
    le_trans less bound⟩
  rcases List.mem_append.mp member with inside | last
  · exact none' url' retryAfter' inside
  · exact other url' retryAfter' (List.mem_singleton.mp last).symm

/-- **Who is still to be skipped has failed, recently.** -/
theorem recent_of_left (start : Process) (fresh : start.backoff = {}) (calls : List Call) :
    ∃ t, Shows (start.after library calls) t ∧
      ∀ host, 0 < t.left host → Recent library start calls host (t.left host) := by
  induction calls using List.reverseRecOn with
  | nil =>
    obtain ⟨mono, wall, backoff⟩ := start
    subst fresh
    exact ⟨_, shows_fresh mono wall, fun host left => absurd left (lt_irrefl _)⟩
  | append_singleton calls call ih =>
    obtain ⟨t, shows, recent⟩ := ih
    rw [after_append]
    refine ⟨_, (shows_step shows call).2, fun host left => ?_⟩
    have elapse : ∀ time : ℚ≥0, 0 < max 0 (t.left host - (time : Rat)) →
        0 < t.left host ∧ max 0 (t.left host - (time : Rat)) = t.left host - time := by
      intro time left
      have ahead := (lt_max_iff.mp left).resolve_left (lt_irrefl _)
      have forward : (0 : Rat) ≤ time := time.cast_nonneg
      exact ⟨by linarith, max_eq_right ahead.le⟩
    cases call with
    | pass time =>
      obtain ⟨before, same⟩ := elapse time left
      refine (recent host before).snoc (fun _ _ eq => by cases eq) ?_
      rw [after_append]
      show (start.after library calls).wall + (time : Rat) + max 0 (t.left host - (time : Rat)) ≤ _
      rw [same]
      linarith
    | restart gap mono =>
      obtain ⟨before, same⟩ := elapse gap left
      refine (recent host before).snoc (fun _ _ eq => by cases eq) ?_
      rw [after_append]
      show (start.after library calls).wall + (gap : Rat) + max 0 (t.left host - (gap : Rat)) ≤ _
      rw [same]
      linarith
    | skip url =>
      refine (recent host left).snoc (fun _ _ eq => by cases eq) ?_
      rw [after_append]
      exact le_refl _
    | succeeded url =>
      have left' : 0 < Function.update t.left (library.hostOf url) 0 host := left
      by_cases same : host = library.hostOf url
      · rw [same, Function.update_self] at left'
        exact absurd left' (lt_irrefl _)
      · rw [Function.update_of_ne same] at left'
        refine (recent host left').snoc (fun _ _ eq => by cases eq) ?_
        rw [after_append]
        show (start.after library calls).wall + Function.update t.left _ 0 host ≤ _
        rw [Function.update_of_ne same]
    | failed url retryAfter =>
      by_cases same : host = library.hostOf url
      · refine ⟨calls, url, retryAfter, [], rfl, same.symm,
          fun _ _ member => absurd member List.not_mem_nil, ?_⟩
        rw [after_append, same]
        show (start.after library calls).wall + Function.update t.left _ _ (library.hostOf url) ≤ _
        rw [Function.update_self]
        exact add_le_add_right (delay_le _ _) _
      · have left' : 0 < Function.update t.left (library.hostOf url)
          (HostBackoff.delay (t.failures (library.hostOf url) + 1) retryAfter) host := left
        rw [Function.update_of_ne same] at left'
        refine (recent host left').snoc ?_ ?_
        · rintro url' retryAfter' ⟨rfl, rfl⟩
          exact Ne.symm same
        · rw [after_append]
          show (start.after library calls).wall + Function.update t.left _ _ host ≤ _
          rw [Function.update_of_ne same]

/-- **A restart is invisible**: a run with restarts answers as the run without them, and no host is
skipped more than `MAX_BACKOFF_S` after its last failure. -/
theorem restart_invisible (library : Library) (calls : List Call) (mono : ℚ≥0) (wall : Rat) :
    Process.run library calls ⟨mono, wall, {}⟩ =
        Process.run library (calls.map Call.uninterrupted) ⟨mono, wall, {}⟩ ∧
      ∀ url, (Process.step library (Process.after library calls ⟨mono, wall, {}⟩) (.skip url)).1 =
          .skipped true →
        ∃ before url' retryAfter later, calls = before ++ .failed url' retryAfter :: later ∧
          library.hostOf url' = library.hostOf url ∧
          (∀ url'' retryAfter', .failed url'' retryAfter' ∈ later →
            library.hostOf url'' ≠ library.hostOf url) ∧
          (Process.after library calls ⟨mono, wall, {}⟩).wall <
            (Process.after library before ⟨mono, wall, {}⟩).wall + maxBackoffS := by
  refine ⟨?_, fun url skipped => ?_⟩
  · rw [run_eq (shows_fresh mono wall), run_eq (shows_fresh mono wall), run_uninterrupted]
  · obtain ⟨t, shows, recent⟩ := @recent_of_left library ⟨mono, wall, {}⟩ rfl calls
    rw [(shows_step shows (.skip url)).1] at skipped
    have left : 0 < t.left (library.hostOf url) := of_decide_eq_true (Answer.skipped.inj skipped)
    obtain ⟨before, url', retryAfter, later, rfl, same, none', bound⟩ := recent _ left
    exact ⟨before, url', retryAfter, later, rfl, same, none', by linarith⟩

end Proofs

end Freshet.Ingest.Countdown
