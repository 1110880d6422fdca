/-
**The halt on a crash streak.**

How long a child lived is measured when its death is noticed, and the loop may have slept for another
child in between. So a death within `fast_death_s` may be counted as a slow one, which ends the
streak; a slow death is never counted as a fast one.

* `watching`: any clock that does not go back, any schedule of deaths; the streak of every child is
  kept beside the program, by when its processes died;
* `Followed`: a child's counter is at most its streak, and is the streak as long as every fast death
  is noticed while it still counts as fast (`timely`);
* `supervise_halts`: then the halt fires at the last death of a streak, and without `timely` it still
  fires at no other time.
-/

import Freshet.Ops.Supervisor
import Mathlib.Data.Rat.Defs
import Mathlib.Algebra.Order.Ring.Rat
import Mathlib.Tactic.Linarith

namespace Freshet.Ops.Supervisor

open Freshet.Lib

/-! ### Time and deaths -/

/-- What is kept beside the program. `unread` is the process whose start has not been read off the
clock, `noticed` the one whose exit has been seen since the clock was read, and `owed` the child whose
last death ended a streak. -/
structure Watch where
  now : ℚ
  started : ℕ := 0
  owner : ℕ → ℕ := fun _ => 0
  startOf : ℕ → ℚ := fun _ => 0
  unread : Option ℕ := none
  noticed : Option ℕ := none
  streak : ℕ → ℕ
  owed : Option ℕ := none

section Watching

variable (settings : Settings) (dies : ℕ → Option ℚ) (timely : Prop)

/-- The process dies within `fast_death_s` of its own start. -/
def Watch.diesFast (s : Watch) (proc : ℕ) : Bool :=
  (dies proc).any fun death => decide (death - s.startOf proc < settings.fastDeathS)

/-- The process has died by now. -/
def Watch.isDead (s : Watch) (proc : ℕ) : Bool := (dies proc).any fun death => decide (death ≤ s.now)

/-- A process is seen to have exited. -/
def Watch.see (s : Watch) (proc : ℕ) : Watch :=
  let count := if s.diesFast settings dies proc then s.streak (s.owner proc) + 1 else 0
  { s with
    noticed := some proc
    streak := Function.update s.streak (s.owner proc) count
    owed := if s.diesFast settings dies proc ∧ settings.maxFastDeaths ≤ count then
      some (s.owner proc) else none }

/-- A process is spawned for the child in a place. -/
def Watch.spawn (s : Watch) (place : ℕ) : Watch :=
  { s with
    started := s.started + 1
    owner := Function.update s.owner s.started place
    unread := some s.started }

/-- The clock is read. -/
def Watch.read (s : Watch) : Watch :=
  { s with
    startOf := match s.unread with
      | none => s.startOf
      | some proc => Function.update s.startOf proc s.now
    unread := none
    noticed := none }

/-- Time passes. -/
def Watch.later (s : Watch) (now : ℚ) : Watch := { s with now := now }

/-- The calls that are left when the halt is owed. -/
def Op.halting : Op → Prop
  | .spawn .. | .shouldStop | .poll _ => False
  | _ => True

/-- **Any clock and any deaths.** If `timely`, a fast death that is noticed is still fast when the clock
is read, and the program must halt when it owes it. -/
def watching : Machine sig Exn Watch where
  safe op s := timely → s.owed ≠ none → op.halting
  step
    | .spawn place _, s, answer, after => ∃ now ≥ s.now,
      (answer = .ok s.started ∧ after = (s.later now).spawn place) ∨
        ∃ text, answer = .error (.raised text) ∧ after = s.later now
    | .clock, s, answer, after => ∃ now ≥ s.now, answer = .ok now ∧ after = (s.later now).read ∧
      (timely → ∀ proc, s.noticed = some proc → s.diesFast settings dies proc →
        now - s.startOf proc < settings.fastDeathS)
    | .sleep seconds, s, answer, after => ∃ now ≥ s.now, s.now + seconds ≤ now ∧ answer = .ok () ∧
      after = s.later now
    | .poll proc, s, answer, after => ∃ now ≥ s.now, ∃ code, answer = .ok code ∧
      code.isSome = (s.later now).isDead dies proc ∧
      after = if code.isSome then (s.later now).see settings dies proc else s.later now
    | .wait .., s, answer, after => ∃ now ≥ s.now, after = s.later now ∧
      ((∃ code, answer = .ok code) ∨ ∃ text, answer = .error (.raised text))
    | _, s, answer, after => ∃ now ≥ s.now, (∃ value, answer = .ok value) ∧ after = s.later now

end Watching

/-! ### Steps that only take time -/

section Proofs

variable {settings : Settings} {dies : ℕ → Option ℚ} {timely : Prop}

/-- Only time has passed. -/
def Later (s after : Watch) : Prop := ∃ now ≥ s.now, after = s.later now

theorem Later.refl (s : Watch) : Later s s := ⟨s.now, le_rfl, rfl⟩

theorem Later.trans {s middle after : Watch} (one : Later s middle) (two : Later middle after) :
    Later s after := by
  obtain ⟨now, before, rfl⟩ := one
  obtain ⟨now', before', rfl⟩ := two
  exact ⟨now', le_trans before before', rfl⟩

/-- A call that is answered and takes time. -/
theorem wp_passing {op : Op} {raised : Exn → Watch → Prop} {good : op.Ans → Watch → Prop} {s : Watch}
    (halting : op.halting) (passing : ∀ answer after, (watching settings dies timely).step op s answer after →
      Later s after ∧ ∃ value, answer = .ok value)
    (holds : ∀ value after, Later s after → good value after) :
    (ask op).wp (watching settings dies timely) (Prog.Leads raised good) s := by
  refine Prog.wp_perform.mpr ⟨fun _ _ => halting, fun answer after step => ?_⟩
  obtain ⟨later, value, rfl⟩ := passing answer after step
  exact holds value after later

/-- The calls that are always answered. -/
def Op.quick : Op → Prop
  | .log _ | .terminate _ | .kill _ => True
  | _ => False

theorem passing_step {op : Op} (quick : op.quick) {s after : Watch} {answer : Except Exn op.Ans}
    (step : (watching settings dies timely).step op s answer after) :
    Later s after ∧ ∃ value, answer = .ok value := by
  cases op with
  | log line | terminate proc | kill proc =>
    obtain ⟨now, before, answered, rfl⟩ := step
    exact ⟨⟨now, before, rfl⟩, answered⟩
  | spawn place child | clock | sleep seconds | shouldStop | poll proc | wait proc timeout =>
    exact quick.elim

theorem wp_quick {op : Op} (quick : op.quick) {raised : Exn → Watch → Prop}
    {good : op.Ans → Watch → Prop} {s : Watch} (holds : ∀ value after, Later s after → good value after) :
    (ask op).wp (watching settings dies timely) (Prog.Leads raised good) s := by
  have halting : op.halting := by
    cases op <;> first | exact trivial | exact quick.elim
  exact wp_passing halting (fun _ _ => passing_step quick) holds

theorem wp_logged {line : LogLine} {raised : Exn → Watch → Prop} {s : Watch} :
    (ask (.log line)).wp (watching settings dies timely)
      (Prog.Leads raised fun _ after => Later s after) s :=
  @wp_quick _ _ _ (.log line) trivial _ _ _ fun _ _ later => later

theorem wp_slept {seconds : ℚ} {raised : Exn → Watch → Prop} {s : Watch} :
    (ask (.sleep seconds)).wp (watching settings dies timely)
      (Prog.Leads raised fun _ after => Later s after) s := by
  refine @wp_passing _ _ _ (.sleep seconds) _ _ _ trivial ?_ fun _ _ later => later
  rintro answer after ⟨now, before, -, rfl, rfl⟩
  exact ⟨⟨now, before, rfl⟩, (), rfl⟩

theorem wp_child {child : Child} {proc : ℕ} (here : child.proc = some proc)
    {raised : Exn → Watch → Prop} {good : ℕ → Watch → Prop} {s : Watch} (holds : good proc s) :
    child.running.wp (watching settings dies timely) (Prog.Leads raised good) s := by
  unfold Child.running
  rw [here]
  exact holds

theorem wp_waited {child : Child} {proc : ℕ} (here : child.proc = some proc) {timeout : ℚ} {s : Watch} :
    ((child.running.bind fun proc => ask (.wait proc timeout)).attempt).wp
      (watching settings dies timely) (Prog.Leads (fun _ _ => False) fun _ after => Later s after)
      s := by
  refine Prog.wp_attempt.mpr (Prog.wp_bind.mpr ?_)
  unfold Child.running
  rw [here]
  refine Prog.wp_perform.mpr ⟨fun _ _ => trivial, ?_⟩
  rintro answer after ⟨now, before, rfl, ⟨code, rfl⟩ | ⟨text, rfl⟩⟩
  · exact ⟨now, before, rfl⟩
  · exact ⟨now, before, rfl⟩

theorem wp_terminated {children : List Child} (running : AllStarted children) (s : Watch) :
    (terminateAll children).wp (watching settings dies timely)
      (Prog.Leads (fun _ _ => False) fun _ after => Later s after) s := by
  induction children generalizing s with
  | nil => exact Later.refl s
  | cons child rest ih =>
    obtain ⟨proc, here⟩ := running child List.mem_cons_self
    unfold terminateAll
    refine Prog.wp_then (fun _ after => Later s after) wp_logged fun _ after later => ?_
    refine Prog.wp_then (fun _ last => Later s last) (wp_child here later) fun _ last later => ?_
    refine Prog.wp_then (fun _ next => Later s next)
      (@wp_quick _ _ _ (.terminate _) trivial _ _ _
        fun _ _ more => later.trans more) fun _ next later => ?_
    refine Prog.wp_mono ?_ (ih (fun other member => running other (List.mem_cons_of_mem _ member)) next)
    rintro (exn | done) ended leads
    · exact leads
    · exact later.trans leads

theorem wp_confirmed {child : Child} {proc : ℕ} (here : child.proc = some proc) (s : Watch) :
    (confirm child).wp (watching settings dies timely)
      (Prog.Leads (fun _ _ => False) fun _ after => Later s after) s := by
  unfold confirm
  refine Prog.wp_then (fun _ after => Later s after) (wp_waited here) ?_
  rintro (exn | code) after later
  · refine Prog.wp_then (fun _ last => Later s last)
      (@wp_quick _ _ _ (.log _) trivial _ _ _ fun _ _ more => later.trans more)
      fun _ last later => ?_
    refine Prog.wp_then (fun _ last => Later s last) (wp_child here later) fun _ last later => ?_
    refine Prog.wp_then (fun _ next => Later s next)
      (@wp_quick _ _ _ (.kill _) trivial _ _ _ fun _ _ more => later.trans more)
      fun _ next later => ?_
    refine Prog.wp_then (fun _ last => Later next last) (wp_waited here) ?_
    rintro (exn | code) last more
    · exact @wp_quick _ _ _ (.log _) trivial _ _ _
        fun _ _ still => later.trans (more.trans still)
    · exact later.trans more
  · exact later

theorem wp_halted {children : List Child} (running : AllStarted children) (s : Watch) :
    (shutdown children).wp (watching settings dies timely)
      (Prog.Leads (fun _ _ => False) fun _ after => Later s after) s := by
  unfold shutdown
  refine Prog.wp_then _ (wp_terminated running s) fun _ after later => ?_
  have confirmed : ∀ (children : List Child) (s : Watch), AllStarted children →
      (confirmAll children).wp (watching settings dies timely)
        (Prog.Leads (fun _ _ => False) fun _ after => Later s after) s := by
    intro children
    induction children with
    | nil => exact fun s _ => Later.refl s
    | cons child rest ih =>
      intro s running
      obtain ⟨proc, here⟩ := running child List.mem_cons_self
      refine Prog.wp_then _ (wp_confirmed here s) fun _ after later => ?_
      refine Prog.wp_mono ?_ (ih after fun other member => running other (List.mem_cons_of_mem _ member))
      rintro (exn | done) ended leads
      · exact leads
      · exact later.trans leads
  refine Prog.wp_mono ?_ (confirmed children after running)
  rintro (exn | done) ended leads
  · exact leads
  · exact later.trans leads

theorem wp_throttled {child : Child} {waited : ℚ} (s : Watch) {raised : Exn → Watch → Prop} :
    (throttle settings child waited).wp (watching settings dies timely)
      (Prog.Leads raised fun _ after => Later s after) s := by
  unfold throttle
  split_ifs
  · refine Prog.wp_then (fun _ after => Later s after) wp_logged fun _ after later => ?_
    refine Prog.wp_mono ?_ (@wp_slept _ _ _ _ raised _)
    rintro (exn | done) ended leads
    · exact leads
    · exact later.trans leads
  · exact Later.refl s

end Proofs

/-! ### The counters follow the streaks -/

/-- The counter of the child in a place. -/
structure Counted (timely : Prop) (s : Watch) (place : ℕ) (child : Child) : Prop where
  most : child.fastDeaths ≤ s.streak place
  exact : timely → child.fastDeaths = s.streak place

/-- A child whose process runs. -/
structure Followed (timely : Prop) (s : Watch) (place : ℕ) (child : Child) : Prop
    extends Counted timely s place child where
  running : ∃ proc < s.started, child.proc = some proc ∧ s.owner proc = place ∧
    s.startOf proc = child.startedAt

/-- Between two turns of the loop's body. -/
structure Between (timely : Prop) (s : Watch) : Prop where
  read : s.unread = none
  quiet : timely → s.owed = none

/-- What is to be shown of an exception: the halt comes when it is owed, and only if `timely` it comes
always. -/
structure Right (settings : Settings) (timely : Prop) (names : List String) (exn : Exn) (s : Watch) :
    Prop where
  cause : ∀ name bound times, exn = .dependencyDown name bound times →
    ∃ place, s.owed = some place ∧ names[place]? = some name
  fires : timely → ∀ place, s.owed = some place →
    ∃ name times, names[place]? = some name ∧ exn = .dependencyDown name settings.fastDeathS times

section Proofs

variable {settings : Settings} {dies : ℕ → Option ℚ} {timely : Prop}

/-- The state in which a new process runs for the child in a place, started at `startedAt`. -/
def Watch.restarted (s : Watch) (place : ℕ) (startedAt : ℚ) : Watch :=
  { s with
    started := s.started + 1
    owner := Function.update s.owner s.started place
    startOf := Function.update s.startOf s.started startedAt
    unread := none
    noticed := none }

theorem wp_started (place : ℕ) (child : Child) {names : List String} {s : Watch}
    (quiet : timely → s.owed = none) :
    (start place child).wp (watching settings dies timely)
      (Prog.Leads (Right settings timely names) fun started after => ∃ startedAt now,
        started = { child with proc := some s.started, startedAt := startedAt } ∧
        after = (s.restarted place startedAt).later now) s := by
  have halting : timely → s.owed ≠ none → False := fun holds owed => owed (quiet holds)
  unfold start
  refine Prog.wp_then (fun proc after => ∃ now, proc = s.started ∧ after = (s.later now).spawn place)
    ?_ ?_
  · refine Prog.wp_perform.mpr ⟨fun holds owed => (halting holds owed).elim, ?_⟩
    rintro answer after ⟨now, -, ⟨rfl, rfl⟩ | ⟨text, rfl, rfl⟩⟩
    · exact ⟨now, rfl, rfl⟩
    · refine ⟨fun name bound times same => (by cases same), fun holds place owed => ?_⟩
      rw [show (s.later now).owed = s.owed from rfl, quiet holds] at owed
      cases owed
  rintro proc after ⟨now, rfl, rfl⟩
  refine Prog.wp_then (fun startedAt last => ∃ now, last = (s.restarted place startedAt).later now)
    ?_ ?_
  · refine Prog.wp_perform.mpr ⟨fun _ _ => trivial, ?_⟩
    rintro answer last ⟨now', -, rfl, rfl, -⟩
    exact ⟨now', rfl⟩
  · rintro startedAt last ⟨now', rfl⟩
    refine Prog.wp_then _ wp_logged ?_
    rintro - last ⟨now'', -, rfl⟩
    exact ⟨startedAt, now'', rfl, rfl⟩

/-- A restart leaves the other children followed. -/
theorem Followed.restarted {s : Watch} {place other : ℕ} {child : Child}
    (holds : Followed timely s other child) (startedAt now : ℚ) :
    Followed timely ((s.restarted place startedAt).later now) other child := by
  obtain ⟨counted, proc, below, here, owner, startOf⟩ := holds
  refine ⟨⟨counted.most, counted.exact⟩, proc, Nat.lt_succ_of_lt below, here, ?_, ?_⟩
  · show Function.update s.owner s.started place proc = other
    rw [Function.update_of_ne (Nat.ne_of_lt below), owner]
  · show Function.update s.startOf s.started startedAt proc = child.startedAt
    rw [Function.update_of_ne (Nat.ne_of_lt below), startOf]

theorem Counted.restarted {s : Watch} {place : ℕ} {child : Child} (holds : Counted timely s place child)
    (startedAt now : ℚ) :
    Followed timely ((s.restarted place startedAt).later now) place
      { child with proc := some s.started, startedAt := startedAt } := by
  refine ⟨⟨holds.most, holds.exact⟩, s.started, Nat.lt_succ_self _, rfl, ?_, ?_⟩
  · exact Function.update_self _ _ _
  · exact Function.update_self _ _ _

theorem Followed.later {s : Watch} {place : ℕ} {child : Child} (holds : Followed timely s place child)
    (now : ℚ) : Followed timely (s.later now) place child :=
  ⟨⟨holds.most, holds.exact⟩, holds.running⟩

/-- Every child of the list is followed, in its place. -/
def AllFollowed (timely : Prop) (s : Watch) (children : List Child) : Prop :=
  ∀ place child, children[place]? = some child → Followed timely s place child

theorem AllFollowed.allStarted {s : Watch} {children : List Child}
    (holds : AllFollowed timely s children) : AllStarted children := by
  intro child member
  obtain ⟨place, here⟩ := List.mem_iff_getElem?.mp member
  obtain ⟨-, proc, -, here, -⟩ := holds place child here
  exact ⟨proc, here⟩

/-- A list of children that differs in one place. -/
theorem getElem?_swap {before after : List Child} {child child' other : Child} {place : ℕ}
    (here : (before ++ child' :: after)[place]? = some other) :
    place = before.length ∧ other = child' ∨
      place ≠ before.length ∧ (before ++ child :: after)[place]? = some other := by
  rcases Nat.lt_trichotomy place before.length with less | same | more
  · refine Or.inr ⟨Nat.ne_of_lt less, ?_⟩
    rw [List.getElem?_append_left less] at here ⊢
    exact here
  · subst same
    rw [List.getElem?_append_right (le_refl _), Nat.sub_self, List.getElem?_cons_zero] at here
    exact Or.inl ⟨rfl, (Option.some.inj here).symm⟩
  · refine Or.inr ⟨Nat.ne_of_gt more, ?_⟩
    obtain ⟨k, rfl⟩ := Nat.exists_eq_add_of_lt more
    rw [List.getElem?_append_right (by omega), show before.length + k + 1 - before.length = k + 1 by omega,
      List.getElem?_cons_succ] at here ⊢
    exact here

/-- **A child's turn**: what it leaves behind where the child is restarted. -/
theorem wp_restarted {before after : List Child} {child child' : Child} {names : List String}
    {s : Watch} (others : ∀ place other, place ≠ before.length →
      (before ++ child :: after)[place]? = some other → Followed timely s place other)
    (counted : Counted timely s before.length child') (quiet : timely → s.owed = none) :
    (restart before.length child').wp (watching settings dies timely)
      (Prog.Leads (Right settings timely names) fun started last =>
        AllFollowed timely last (before ++ started :: after) ∧ Between timely last ∧
          started.name = child'.name) s := by
  unfold restart
  refine Prog.wp_mono ?_ (@wp_started _ _ _ before.length _ names _ quiet)
  rintro (exn | started) last leads
  · exact leads
  · obtain ⟨startedAt, now, rfl, rfl⟩ := leads
    refine ⟨fun place other here => ?_, ⟨rfl, quiet⟩, rfl⟩
    rcases @getElem?_swap _ _ child _ _ _ here with ⟨rfl, rfl⟩ | ⟨apart, here⟩
    · exact @Counted.restarted _ _ _ { child' with restarts := child'.restarts + 1 }
        ⟨counted.most, counted.exact⟩ startedAt now
    · exact (others place other apart here).restarted startedAt now

/-- A clock that is read with no start to note. -/
theorem Watch.read_of_none {s : Watch} (none' : s.unread = none) : s.read = { s with noticed := none } := by
  obtain ⟨now, started, owner, startOf, unread, noticed, streak, owed⟩ := s
  subst none'
  rfl

/-- What is left of a sight once the clock has been read. -/
def Watch.seen (s : Watch) (settings : Settings) (dies : ℕ → Option ℚ) (proc : ℕ) : Watch :=
  { s.see settings dies proc with noticed := none }

/-- What is seen of one child leaves the others followed. -/
theorem Followed.seen {s : Watch} {proc other : ℕ} {child : Child}
    (holds : Followed timely s other child) (apart : other ≠ s.owner proc) :
    Followed timely (s.seen settings dies proc) other child := by
  have same : (s.seen settings dies proc).streak other = s.streak other :=
    Function.update_of_ne apart _ _
  exact ⟨⟨same ▸ holds.most, same ▸ holds.exact⟩, holds.running⟩

theorem streak_seen (s : Watch) (proc : ℕ) :
    (s.seen settings dies proc).streak (s.owner proc) =
      if s.diesFast settings dies proc then s.streak (s.owner proc) + 1 else 0 :=
  Function.update_self _ _ _

theorem owed_seen (s : Watch) (proc : ℕ) :
    (s.seen settings dies proc).owed =
      if s.diesFast settings dies proc ∧
        settings.maxFastDeaths ≤ (s.seen settings dies proc).streak (s.owner proc) then
      some (s.owner proc) else none := by
  rw [streak_seen]
  rfl

/-- **What the loop does with a death** that has been seen, once it has slept. -/
theorem wp_handled {before after : List Child} {child : Child} {names : List String} {s : Watch}
    {proc : ℕ} {waited : ℚ} (named : (before ++ child :: after).map Child.name = names)
    (followed : AllFollowed timely s (before ++ child :: after))
    (here : child.proc = some proc) (owner : s.owner proc = before.length)
    (slow : waited < settings.fastDeathS → s.diesFast settings dies proc)
    (fast : timely → s.diesFast settings dies proc → waited < settings.fastDeathS) (now : ℚ) :
    (if waited < settings.fastDeathS then
      if settings.maxFastDeaths ≤ child.fastDeaths + 1 then do
        shutdown (before ++ { child with fastDeaths := child.fastDeaths + 1 } :: after)
        .raise (.dependencyDown child.name settings.fastDeathS (child.fastDeaths + 1))
      else restart before.length { child with fastDeaths := child.fastDeaths + 1 }
    else restart before.length { child with fastDeaths := 0 } : Supervising Child).wp
      (watching settings dies timely)
      (Prog.Leads (Right settings timely names) fun child' last =>
        AllFollowed timely last (before ++ child' :: after) ∧ Between timely last ∧
          child'.name = child.name) ((s.seen settings dies proc).later now) := by
  have place : (before ++ child :: after)[before.length]? = some child := by
    rw [List.getElem?_append_right (le_refl _), Nat.sub_self, List.getElem?_cons_zero]
  have name : names[before.length]? = some child.name := by
    rw [← named, List.getElem?_map, place]
    rfl
  have counted := (followed _ _ place).toCounted
  have streak := @streak_seen settings dies s proc
  have owed := @owed_seen settings dies s proc
  rw [owner] at streak owed
  have others : ∀ place other, place ≠ before.length →
      (before ++ child :: after)[place]? = some other →
      Followed timely ((s.seen settings dies proc).later now) place other :=
    fun place other apart found => ((followed place other found).seen (by rwa [owner])).later now
  by_cases early : waited < settings.fastDeathS
  · rw [if_pos early]
    rw [if_pos (slow early)] at streak
    by_cases enough : settings.maxFastDeaths ≤ child.fastDeaths + 1
    · rw [if_pos enough]
      have owes : (s.seen settings dies proc).owed = some before.length := by
        refine owed.trans (if_pos ⟨slow early, ?_⟩)
        rw [streak]
        exact le_trans enough (Nat.succ_le_succ counted.most)
      refine Prog.wp_then (fun _ last => last.owed = some before.length)
        (Prog.wp_mono ?_ (wp_halted ?_ _)) ?_
      · rintro (exn | done) last leads
        · exact leads.elim
        · obtain ⟨now', -, rfl⟩ := leads
          exact owes
      · intro other member
        rcases List.mem_append.mp member with front | back
        · exact followed.allStarted other (List.mem_append_left _ front)
        · rcases List.mem_cons.mp back with rfl | back
          · exact ⟨proc, here⟩
          · exact followed.allStarted other
              (List.mem_append_right _ (List.mem_cons_of_mem _ back))
      · intro _ last owed'
        refine ⟨fun name' bound times same => ?_, fun _ place' owed'' => ?_⟩
        · obtain ⟨rfl, -, -⟩ := Exn.dependencyDown.inj same
          exact ⟨_, owed', name⟩
        · obtain rfl := Option.some.inj (owed'.symm.trans owed'')
          exact ⟨_, _, name, rfl⟩
    · rw [if_neg enough]
      refine wp_restarted others ⟨?_, fun holds => ?_⟩ fun holds => ?_
      · show child.fastDeaths + 1 ≤ (s.seen settings dies proc).streak before.length
        rw [streak]
        exact Nat.succ_le_succ counted.most
      · show child.fastDeaths + 1 = (s.seen settings dies proc).streak before.length
        rw [streak, counted.exact holds]
      · show (s.seen settings dies proc).owed = none
        rw [owed, if_neg]
        rintro ⟨-, reached⟩
        rw [streak, ← counted.exact holds] at reached
        exact enough reached
  · rw [if_neg early]
    have notFast : timely → s.diesFast settings dies proc = false := fun holds =>
      Bool.eq_false_of_not_eq_true fun dead => early (fast holds dead)
    refine wp_restarted others ⟨Nat.zero_le _, fun holds => ?_⟩ fun holds => ?_
    · show 0 = (s.seen settings dies proc).streak before.length
      rw [streak, notFast holds]
      rfl
    · show (s.seen settings dies proc).owed = none
      rw [owed, notFast holds]
      rfl

/-- **The loop's body.** -/
theorem wp_tended {before after : List Child} {child : Child} {names : List String} {s : Watch}
    (named : (before ++ child :: after).map Child.name = names)
    (followed : AllFollowed timely s (before ++ child :: after)) (between : Between timely s) :
    (tend settings before child after).wp (watching settings dies timely)
      (Prog.Leads (Right settings timely names) fun child' last =>
        AllFollowed timely last (before ++ child' :: after) ∧ Between timely last ∧
          child'.name = child.name) s := by
  have place : (before ++ child :: after)[before.length]? = some child := by
    rw [List.getElem?_append_right (le_refl _), Nat.sub_self, List.getElem?_cons_zero]
  obtain ⟨counted, proc, below, here, owner, startOf⟩ := followed _ _ place
  unfold tend
  refine Prog.wp_then (fun value last => value = proc ∧ last = s) (wp_child here ⟨rfl, rfl⟩) ?_
  rintro value last ⟨rfl, rfl⟩
  refine Prog.wp_then (fun code next => ∃ now ≥ last.now,
    code.isSome = (last.later now).isDead dies value ∧
      next = if code.isSome then (last.later now).see settings dies value else last.later now) ?_ ?_
  · refine Prog.wp_perform.mpr ⟨fun holds owed => absurd (between.quiet holds) owed, ?_⟩
    rintro answer next ⟨now, before', code, rfl, dead, rfl⟩
    exact ⟨now, before', dead, rfl⟩
  rintro (_ | code) next ⟨now, since, dead, rfl⟩
  · exact ⟨fun other child' found => (followed other child' found).later now,
      ⟨between.read, between.quiet⟩, rfl⟩
  -- the child has died by `now`, and the clock is read at `noticed`
  obtain ⟨death, dies', past⟩ : ∃ death, dies value = some death ∧ death ≤ now := by
    unfold Watch.isDead at dead
    cases found : dies value with
    | none =>
      rw [found] at dead
      cases dead
    | some death =>
      rw [found] at dead
      exact ⟨death, rfl, of_decide_eq_true dead.symm⟩
  have lived : last.diesFast settings dies value =
      decide (death - child.startedAt < settings.fastDeathS) := by
    unfold Watch.diesFast
    rw [dies', startOf]
    rfl
  refine Prog.wp_then (fun noticed next => now ≤ noticed ∧
    (timely → last.diesFast settings dies value → noticed - child.startedAt < settings.fastDeathS) ∧
    ∃ later, next = (last.seen settings dies value).later later) ?_ ?_
  · refine Prog.wp_perform.mpr ⟨fun _ _ => trivial, ?_⟩
    rintro answer next ⟨noticed, since', rfl, rfl, inTime⟩
    refine ⟨since', fun holds fast => ?_, noticed, ?_⟩
    · rw [← startOf]
      exact inTime holds value rfl fast
    · exact Watch.read_of_none between.read
  rintro noticed next ⟨since', inTime, later, rfl⟩
  refine Prog.wp_then (fun _ next => ∃ later, next = (last.seen settings dies value).later later)
    (Prog.wp_mono ?_ (@wp_throttled _ _ _ _ _ _ (Right settings timely names))) ?_
  · rintro (exn | done) next leads
    · exact leads
    · obtain ⟨later', -, rfl⟩ := leads
      exact ⟨later', rfl⟩
  rintro - next ⟨later, rfl⟩
  refine wp_handled named followed here owner (fun early => ?_) inTime later
  rw [lived]
  refine decide_eq_true ?_
  have early' : noticed - child.startedAt < settings.fastDeathS := early
  linarith

theorem wp_swept {before children : List Child} {names : List String} {s : Watch}
    (named : (before ++ children).map Child.name = names)
    (followed : AllFollowed timely s (before ++ children)) (between : Between timely s) :
    (sweep settings before children).wp (watching settings dies timely)
      (Prog.Leads (Right settings timely names) fun children' last =>
        children'.map Child.name = names ∧ AllFollowed timely last children' ∧
          Between timely last) s := by
  induction children generalizing before s with
  | nil =>
    rw [List.append_nil] at named followed
    exact ⟨named, followed, between⟩
  | cons child rest ih =>
    unfold sweep
    refine Prog.wp_then _ (wp_tended named followed between) ?_
    rintro child' last ⟨followed', between', same⟩
    have regroup : before ++ [child'] ++ rest = before ++ child' :: rest := by simp
    refine ih ?_ (regroup ▸ followed') between'
    rw [← named, regroup]
    simp [same]

theorem wp_turned (n : ℕ) {children : List Child} {names : List String} {s : Watch}
    (named : children.map Child.name = names) (followed : AllFollowed timely s children)
    (between : Between timely s) :
    (turns settings n children).wp (watching settings dies timely)
      (Prog.Leads (Right settings timely names) fun _ last => timely → last.owed = none) s := by
  induction n generalizing children s with
  | zero => exact between.quiet
  | succ n ih =>
    unfold turns
    refine Prog.wp_then (fun _ last => ∃ now, last = s.later now) ?_ ?_
    · refine Prog.wp_perform.mpr ⟨fun holds owed => absurd (between.quiet holds) owed, ?_⟩
      rintro answer last ⟨now, -, ⟨value, rfl⟩, rfl⟩
      exact ⟨now, rfl⟩
    rintro stop last ⟨now, rfl⟩
    split_ifs
    · refine Prog.wp_then (fun _ next => timely → next.owed = none)
        (Prog.wp_mono ?_ (wp_halted followed.allStarted _)) ?_
      · rintro (exn | done) next leads
        · exact leads.elim
        · obtain ⟨now', -, rfl⟩ := leads
          exact between.quiet
      · intro _ next quiet
        exact quiet
    · refine Prog.wp_then (fun _ next => ∃ now, next = s.later now) (Prog.wp_mono ?_
        (@wp_slept _ _ _ _ (Right settings timely names) _)) ?_
      · rintro (exn | done) next leads
        · exact leads
        · obtain ⟨now', -, rfl⟩ := leads
          exact ⟨now', rfl⟩
      rintro - next ⟨now, rfl⟩
      refine Prog.wp_then _ (@wp_swept _ _ _ [] _ _ _ named
        (fun place child found => (followed place child found).later now)
        ⟨between.read, between.quiet⟩) ?_
      rintro children' last ⟨named', followed', between'⟩
      exact ih named' followed' between'

/-- Where the program starts: a child's counter is a streak from before. -/
def begun (children : List Child) (now : ℚ) : Watch where
  now := now
  streak place := (children[place]?.map Child.fastDeaths).getD 0

theorem wp_begun {before children : List Child} {names : List String} {s : Watch}
    (named : (before ++ children).map Child.name = names) (followed : AllFollowed timely s before)
    (counted : ∀ place child, children[place]? = some child →
      s.streak (before.length + place) = child.fastDeaths) (between : Between timely s) :
    (startAll before children).wp (watching settings dies timely)
      (Prog.Leads (Right settings timely names) fun children' last =>
        children'.map Child.name = names ∧ AllFollowed timely last children' ∧
          Between timely last) s := by
  induction children generalizing before s with
  | nil =>
    rw [List.append_nil] at named
    exact ⟨named, followed, between⟩
  | cons child rest ih =>
    unfold startAll
    refine Prog.wp_then _ (@wp_started _ _ _ before.length child names _ between.quiet) ?_
    rintro started last ⟨startedAt, now, rfl, rfl⟩
    have here : s.streak before.length = child.fastDeaths := counted 0 child rfl
    refine ih ?_ ?_ ?_ ⟨rfl, between.quiet⟩
    · rw [← named]
      simp
    · intro place other found
      rcases Nat.lt_trichotomy place before.length with less | same | more
      · rw [List.getElem?_append_left less] at found
        exact (followed place other found).restarted startedAt now
      · subst same
        rw [List.getElem?_append_right (le_refl _), Nat.sub_self, List.getElem?_cons_zero] at found
        obtain rfl := Option.some.inj found
        exact @Counted.restarted _ _ _ child ⟨here.ge, fun _ => here.symm⟩ startedAt now
      · rw [List.getElem?_eq_none (by simp; omega)] at found
        cases found
    · intro place other found
      rw [List.length_append, List.length_singleton, Nat.add_assoc, Nat.add_comm 1]
      exact counted (place + 1) other found

theorem wp_supervise (n : ℕ) (children : List Child) (now : ℚ) :
    (supervise settings n children).wp (watching settings dies timely)
      (Prog.Leads (Right settings timely (children.map Child.name))
        fun _ last => timely → last.owed = none) (begun children now) := by
  unfold supervise
  refine Prog.wp_then _ (@wp_begun _ _ _ [] _ _ _ rfl ?_ ?_ ⟨rfl, fun _ => rfl⟩) ?_
  · intro place child found
    cases found
  · intro place child found
    show (children[0 + place]?.map Child.fastDeaths).getD 0 = child.fastDeaths
    rw [Nat.zero_add, found]
    rfl
  · rintro children' last ⟨named, followed, between⟩
    exact wp_turned n named followed between

end Proofs

/-- The halt that is owed is the outcome. -/
def Fires (settings : Settings) (children : List Child) (outcome : Except Exn Ending) (last : Watch) :
    Prop :=
  ∀ place, last.owed = some place → ∃ name times, (children.map Child.name)[place]? = some name ∧
    outcome = .error (.dependencyDown name settings.fastDeathS times)

/-- A halt is owed to the child it names. -/
def Caused (children : List Child) (outcome : Except Exn Ending) (last : Watch) : Prop :=
  ∀ name bound times, outcome = .error (.dependencyDown name bound times) →
    ∃ place, last.owed = some place ∧ (children.map Child.name)[place]? = some name

/-- **The halt fires at the last death of a streak**, as long as fast deaths are noticed while they
still count as fast. It never fires at another time. -/
theorem supervise_halts (settings : Settings) (dies : ℕ → Option ℚ) (n : ℕ) (children : List Child)
    (now : ℚ) :
    (supervise settings n children).wp (watching settings dies True)
        (fun outcome last => Fires settings children outcome last ∧ Caused children outcome last)
        (begun children now) ∧
      (supervise settings n children).wp (watching settings dies False) (Caused children)
        (begun children now) := by
  constructor
  · refine Prog.wp_mono ?_ (wp_supervise n children now)
    rintro (exn | ending) last leads
    · have right : Right settings True (children.map Child.name) exn last := leads
      refine ⟨fun place owed => ?_, fun name bound times same => ?_⟩
      · obtain ⟨name, times, here, rfl⟩ := right.fires trivial place owed
        exact ⟨name, times, here, rfl⟩
      · exact right.cause name bound times (Except.error.inj same)
    · have quiet : last.owed = none := leads trivial
      refine ⟨fun place owed => ?_, fun name bound times same => by cases same⟩
      rw [quiet] at owed
      cases owed
  · refine Prog.wp_mono ?_ (wp_supervise n children now)
    rintro (exn | ending) last leads
    · have right : Right settings False (children.map Child.name) exn last := leads
      exact fun name bound times same => right.cause name bound times (Except.error.inj same)
    · exact fun name bound times same => by cases same

/-! ### A streak, and a death noticed late -/

/-- A clock that only sleeping moves. -/
def stillClock (settings : Settings) (dies : ℕ → Option ℚ) :
    (op : sig.Op) → Watch → Except Exn (sig.Ans op) × Watch
  | .spawn place _, s => (.ok s.started, s.spawn place)
  | .clock, s => (.ok s.now, s.read)
  | .sleep seconds, s => (.ok (), s.later (s.now + max seconds 0))
  | .shouldStop, s => (.ok false, s)
  | .poll proc, s =>
    if s.isDead dies proc then (.ok (some 1), s.see settings dies proc) else (.ok none, s)
  | .terminate _, s => (.ok (), s)
  | .wait .., s => (.ok 0, s)
  | .kill _, s => (.ok (), s)
  | .log _, s => (.ok (), s)

/-- A fast death that is noticed is still fast when the clock is read. -/
def noticedInTime (settings : Settings) (dies : ℕ → Option ℚ) : sig.Op → Watch → Bool
  | .clock, s => s.noticed.all fun proc =>
    !s.diesFast settings dies proc || decide (s.now - s.startOf proc < settings.fastDeathS)
  | _, _ => true

theorem stillClock_allowed (settings : Settings) (dies : ℕ → Option ℚ) {timely : Prop} (op : sig.Op)
    (s : Watch) (met : timely → noticedInTime settings dies op s = true) :
    (watching settings dies timely).step op s (stillClock settings dies op s).1
      (stillClock settings dies op s).2 := by
  cases op with
  | spawn place child => exact ⟨s.now, le_rfl, Or.inl ⟨rfl, rfl⟩⟩
  | clock =>
    refine ⟨s.now, le_rfl, rfl, rfl, fun timely proc noticed fast => ?_⟩
    have inTime : (s.noticed.all fun proc => !s.diesFast settings dies proc ||
        decide (s.now - s.startOf proc < settings.fastDeathS)) = true := met timely
    rw [noticed, Option.all_some, fast, Bool.not_true, Bool.false_or] at inTime
    exact of_decide_eq_true inTime
  | sleep seconds =>
    refine ⟨_, ?_, ?_, rfl, rfl⟩
    · show s.now ≤ s.now + max seconds 0
      linarith [le_max_right seconds 0]
    · show s.now + seconds ≤ s.now + max seconds 0
      linarith [le_max_left seconds 0]
  | poll proc =>
    refine ⟨s.now, le_rfl, ?_⟩
    by_cases dead : s.isDead dies proc = true
    · have answers : stillClock settings dies (.poll proc) s =
          (.ok (some 1), s.see settings dies proc) := if_pos dead
      rw [answers]
      exact ⟨some 1, rfl, dead.symm, rfl⟩
    · have answers : stillClock settings dies (.poll proc) s = (.ok none, s) := if_neg dead
      rw [answers]
      exact ⟨none, rfl, (Bool.eq_false_of_not_eq_true dead).symm, rfl⟩
  | wait proc timeout => exact ⟨s.now, le_rfl, rfl, Or.inl ⟨_, rfl⟩⟩
  | shouldStop => exact ⟨s.now, le_rfl, ⟨_, rfl⟩, rfl⟩
  | terminate proc => exact ⟨s.now, le_rfl, ⟨_, rfl⟩, rfl⟩
  | kill proc => exact ⟨s.now, le_rfl, ⟨_, rfl⟩, rfl⟩
  | log line => exact ⟨s.now, le_rfl, ⟨_, rfl⟩, rfl⟩

def poller : Child := ⟨"poller", ["poller"], "logs/poller.log", none, 0, 0, 0⟩

/-- Each process dies at its start. -/
def hopeless (proc : ℕ) : Option ℚ := some (30 * proc)

/-- **A child that dies at each start ends the supervision**, each death being noticed in time. -/
theorem supervise_halts_hopeless :
    ∃ times, ((supervise {} 20 [poller]).run (stillClock {} hopeless) (begun [poller] 0)).1 =
      .error (.dependencyDown "poller" 15 times) := by
  have fires := (@Prog.wp_run_of_meets _ _ _ _ _ _ (noticedInTime {} hopeless) _ _ _
    (fun op s met => stillClock_allowed {} hopeless op s fun _ => met) (by decide +kernel)
    (supervise_halts {} hopeless 20 [poller] 0).1).1
  obtain ⟨name, times, named, halted⟩ := fires 0 (by decide +kernel)
  obtain rfl : "poller" = name := Option.some.inj named
  exact ⟨times, halted⟩

/-- The poller lives 15 s, and the embedder dies 14.5 s after its first start, then at once. -/
def schedule : ℕ → Option ℚ
  | 0 => some 15
  | 1 => some (29 / 2)
  | 3 => some 30
  | 4 => some 60
  | 5 => some 90
  | 6 => some 120
  | 7 => some 150
  | _ => none

def twoChildren : List Child :=
  [poller, ⟨"embedder", ["embedder"], "logs/embedder.log", none, 0, 0, 0⟩]

/-- **A streak without a halt**: the embedder's first death is noticed 30 s after its start, since the
loop has slept for the poller, and its sixth fast death in a row is counted as the fifth. -/
theorem schedule_not_fires :
    ¬ ∀ (settings : Settings) (dies : ℕ → Option ℚ) (n : ℕ) (children : List Child) (now : ℚ),
      (supervise settings n children).wp (watching settings dies False) (Fires settings children)
        (begun children now) := by
  intro claim
  have fires := Prog.wp_run (fun op s => stillClock_allowed {} schedule op s False.elim) (claim {} schedule 20 twoChildren 0)
  have owed : ((supervise {} 20 twoChildren).run (stillClock {} schedule)
      (begun twoChildren 0)).2.owed = some 1 := by decide +kernel
  have answered : ((supervise {} 20 twoChildren).run (stillClock {} schedule)
      (begun twoChildren 0)).1.toOption.isSome = true := by decide +kernel
  obtain ⟨name, times, -, halted⟩ := fires 1 owed
  rw [halted] at answered
  cases answered

end Freshet.Ops.Supervisor
