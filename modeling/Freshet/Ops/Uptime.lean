/-
**A dead child is down briefly.**

The loop polls the children one after the other and sleeps for each dead one, at most its backoff, so a
child waits for the others. Let every call take `latency` at most, and a sleep no longer than that and
its seconds.

* `attending`: such a clock, and any schedule of deaths;
* `allowance`: how long the process of each child may have been dead when the loop comes to a child;
* `wp_attended`: a child's turn lets the others age by `Settings.turn`, and leaves its own process fresh;
* `down_briefly`: until the shutdown no child's process is ever dead for longer than `downtime`, which
  is 91 s and 26 calls for the three children of `main`.
-/

import Freshet.Ops.CrashStreak
import Mathlib.Tactic.Ring

namespace Freshet.Ops.Supervisor

open Freshet.Lib

/-! ### Time, and the processes of the children -/

/-- What is kept beside the program: the time, the number of processes there have been, and the latest
process of the child in each place. -/
structure Shift where
  now : ℚ
  started : ℕ := 0
  current : ℕ → Option ℕ := fun _ => none

/-- Time passes. -/
def Shift.later (s : Shift) (now : ℚ) : Shift := { s with now := now }

/-- A process is spawned for the child in a place. -/
def Shift.spawn (s : Shift) (place : ℕ) : Shift :=
  { s with
    started := s.started + 1
    current := Function.update s.current place (some s.started) }

theorem Shift.spawn_self (s : Shift) (place : ℕ) : (s.spawn place).current place = some s.started :=
  Function.update_self _ _ _

theorem Shift.spawn_of_ne (s : Shift) {place other : ℕ} (apart : other ≠ place) :
    (s.spawn place).current other = s.current other :=
  Function.update_of_ne apart _ _

/-- Time has passed, `pause` at most. -/
def Shift.Waits (s : Shift) (pause : ℚ) (after : Shift) : Prop :=
  ∃ now, s.now ≤ now ∧ now ≤ s.now + pause ∧ after = s.later now

/-- The calls of the loop. -/
def Op.serving : Op → Bool
  | .terminate _ | .wait .. | .kill _ => false
  | .log (.stopping ..) | .log (.stuck _) | .log (.unkillable _) => false
  | _ => true

/-- The loop makes the next call. -/
def serves : Supervising Ending → Bool
  | .call op _ => op.serving
  | _ => false

/-- The calls of `_shutdown`. -/
def Op.dismissing (op : Op) : Prop := ¬ op.serving

section Attending

variable (dies : ℕ → Option ℚ) (latency bound : ℚ)

/-- No child's process has been dead for longer than its allowance. -/
def Shift.Manned (s : Shift) (late : ℕ → ℚ) : Prop :=
  ∀ place proc death, s.current place = some proc → dies proc = some death →
    s.now ≤ death + late place

/-- **A clock and any deaths.** A process does not die before it is spawned. -/
def attending : Machine sig Exn Shift where
  safe op s := op.serving → s.Manned dies fun _ => bound
  step
    | .spawn place _, s, answer, after => ∃ now, s.now ≤ now ∧ now ≤ s.now + latency ∧
      ((answer = .ok s.started ∧ after = (s.later now).spawn place ∧
          ∀ death, dies s.started = some death → s.now ≤ death) ∨
        ∃ text, answer = .error (.raised text) ∧ after = s.later now)
    | .clock, s, answer, after => s.Waits latency after ∧ answer = .ok after.now
    | .sleep seconds, s, answer, after => s.Waits (max seconds 0 + latency) after ∧ answer = .ok ()
    | .poll proc, s, answer, after => s.Waits latency after ∧ ∃ code, answer = .ok code ∧
      code.isSome = (dies proc).any fun death => decide (death ≤ after.now)
    | .wait _ timeout, s, answer, after => s.Waits (max timeout 0 + latency) after ∧
      ((∃ code, answer = .ok code) ∨ ∃ text, answer = .error (.raised text))
    | _, s, answer, after => s.Waits latency after ∧ ∃ value, answer = .ok value

end Attending

section Proofs

variable {settings : Settings} {dies : ℕ → Option ℚ} {latency bound : ℚ} {late : ℕ → ℚ}
  {s after : Shift}

theorem Shift.Manned.waits {pause : ℚ} (manned : s.Manned dies late) (waits : s.Waits pause after) :
    after.Manned dies fun place => late place + pause := by
  obtain ⟨now, -, soon, rfl⟩ := waits
  intro place proc death here dead
  have kept := manned place proc death here dead
  show now ≤ death + (late place + pause)
  linarith

theorem Shift.Waits.trans {pause more : ℚ} {middle : Shift} (one : s.Waits pause middle)
    (two : middle.Waits more after) : s.Waits (pause + more) after := by
  obtain ⟨now, since, soon, rfl⟩ := one
  obtain ⟨now', since', soon', rfl⟩ := two
  have order : now ≤ now' := since'
  have close : now' ≤ now + more := soon'
  exact ⟨now', le_trans since order, by linarith, rfl⟩

theorem Shift.Waits.mono {pause more : ℚ} (waits : s.Waits pause after) (most : pause ≤ more) :
    s.Waits more after := by
  obtain ⟨now, since, soon, rfl⟩ := waits
  exact ⟨now, since, by linarith, rfl⟩

theorem Shift.Manned.mono {more : ℕ → ℚ} (manned : s.Manned dies late)
    (most : ∀ place proc, s.current place = some proc → late place ≤ more place) :
    s.Manned dies more := by
  intro place proc death here dead
  have kept := manned place proc death here dead
  have room := most place proc here
  linarith

/-- The child in a place, and its process. -/
structure Posted (s : Shift) (place : ℕ) (child : Child) : Prop where
  running : ∃ proc, child.proc = some proc ∧ s.current place = some proc
  began : child.startedAt ≤ s.now

/-- The children of a list are posted, in their places. -/
structure Staffed (dies : ℕ → Option ℚ) (late : ℕ → ℚ) (children : List Child) (s : Shift) : Prop where
  manned : s.Manned dies late
  posted : ∀ place child, children[place]? = some child → Posted s place child
  vacant : ∀ place, children.length ≤ place → s.current place = none

theorem Posted.waits {place : ℕ} {child : Child} {pause : ℚ} (posted : Posted s place child)
    (waits : s.Waits pause after) : Posted after place child := by
  obtain ⟨now, since, -, rfl⟩ := waits
  exact ⟨posted.running, le_trans posted.began since⟩

theorem Staffed.waits {children : List Child} {pause : ℚ} (staffed : Staffed dies late children s)
    (waits : s.Waits pause after) :
    Staffed dies (fun place => late place + pause) children after := by
  refine ⟨staffed.manned.waits waits, fun place child here => (staffed.posted place child here).waits waits,
    fun place beyond => ?_⟩
  obtain ⟨now, -, -, rfl⟩ := waits
  exact staffed.vacant place beyond

/-- Allowances matter in the places of the list only. -/
theorem Staffed.mono {children : List Child} {more : ℕ → ℚ} (staffed : Staffed dies late children s)
    (most : ∀ place < children.length, late place ≤ more place) : Staffed dies more children s := by
  refine ⟨staffed.manned.mono fun place proc here => most place ?_, staffed.posted, staffed.vacant⟩
  by_contra beyond
  rw [staffed.vacant place (not_lt.mp beyond)] at here
  cases here

/-- A process that has not been dead for long. -/
theorem Staffed.fresh {children : List Child} {place : ℕ} {age : ℚ}
    (staffed : Staffed dies late children s)
    (lives : ∀ proc death, s.current place = some proc → dies proc = some death → s.now ≤ death + age) :
    Staffed dies (Function.update late place age) children s := by
  refine ⟨fun other proc death here dead => ?_, staffed.posted, staffed.vacant⟩
  rcases eq_or_ne other place with rfl | apart
  · rw [Function.update_self]
    exact lives proc death here dead
  · rw [Function.update_of_ne apart]
    exact staffed.manned other proc death here dead

theorem Staffed.allStarted {children : List Child} (staffed : Staffed dies late children s) :
    AllStarted children := by
  intro child member
  obtain ⟨place, here⟩ := List.mem_iff_getElem?.mp member
  obtain ⟨proc, running, -⟩ := (staffed.posted place child here).running
  exact ⟨proc, running⟩

/-! ### Single calls -/

/-- A call of the loop that is answered after a while. -/
theorem wp_waits {op : Op} {pause : ℚ} {raised : Exn → Shift → Prop} {good : op.Ans → Shift → Prop}
    (manned : s.Manned dies late) (room : ∀ place, late place ≤ bound)
    (answered : ∀ answer after, (attending dies latency bound).step op s answer after →
      s.Waits pause after ∧ ∃ value, answer = .ok value ∧ good value after) :
    (ask op).wp (attending dies latency bound)
      (Prog.Leads raised fun value after => s.Waits pause after ∧ good value after) s := by
  refine Prog.wp_perform.mpr ⟨fun _ => manned.mono fun place _ _ => room place, ?_⟩
  intro answer after step
  obtain ⟨waits, value, rfl, holds⟩ := answered answer after step
  exact ⟨waits, holds⟩

theorem wp_clock {raised : Exn → Shift → Prop} (manned : s.Manned dies late)
    (room : ∀ place, late place ≤ bound) :
    (ask .clock).wp (attending dies latency bound)
      (Prog.Leads raised fun now after => s.Waits latency after ∧ now = after.now) s := by
  refine wp_waits manned room ?_
  rintro answer after ⟨waits, rfl⟩
  exact ⟨waits, _, rfl, rfl⟩

theorem wp_note {line : LogLine} {raised : Exn → Shift → Prop} (manned : s.Manned dies late)
    (room : ∀ place, late place ≤ bound) :
    (ask (.log line)).wp (attending dies latency bound)
      (Prog.Leads raised fun _ after => s.Waits latency after ∧ True) s := by
  refine wp_waits manned room ?_
  rintro answer after ⟨waits, value, rfl⟩
  exact ⟨waits, value, rfl, trivial⟩

theorem wp_pause {seconds : ℚ} {raised : Exn → Shift → Prop} (forward : 0 ≤ seconds)
    (manned : s.Manned dies late) (room : ∀ place, late place ≤ bound) :
    (ask (.sleep seconds)).wp (attending dies latency bound)
      (Prog.Leads raised fun _ after => s.Waits (seconds + latency) after ∧ True) s := by
  refine wp_waits manned room ?_
  rintro answer after ⟨waits, rfl⟩
  rw [max_eq_left forward] at waits
  exact ⟨waits, (), rfl, trivial⟩

/-- What `_shutdown` calls is not a call of the loop. -/
theorem shutdown_uses (children : List Child) :
    (shutdown children).Uses Op.dismissing := by
  have called : ∀ {op : Op}, op.dismissing → (ask op).Uses Op.dismissing :=
    fun idle => Prog.uses_perform idle
  have running : ∀ child : Child, child.running.Uses Op.dismissing := by
    intro child
    unfold Child.running
    cases child.proc <;> trivial
  have waits : ∀ (child : Child) (timeout : ℚ),
      ((child.running.bind fun proc => ask (.wait proc timeout)).attempt).Uses Op.dismissing :=
    fun child timeout => Prog.uses_attempt (Prog.uses_bind (running child) fun proc => called Bool.false_ne_true)
  have terminates : (terminateAll children).Uses Op.dismissing := by
    induction children with
    | nil => trivial
    | cons child rest ih =>
      exact Prog.uses_bind (called Bool.false_ne_true) fun _ => Prog.uses_bind (running child) fun proc =>
        Prog.uses_bind (called Bool.false_ne_true) fun _ => ih
  refine Prog.uses_bind terminates fun _ => ?_
  clear terminates
  induction children with
  | nil => trivial
  | cons child rest ih =>
    have ends : (confirm child).Uses Op.dismissing := by
      refine Prog.uses_bind (waits child 20) fun first => ?_
      cases first with
      | ok code => trivial
      | error exn =>
        refine Prog.uses_bind (called Bool.false_ne_true) fun _ => Prog.uses_bind (running child) fun proc =>
          Prog.uses_bind (called Bool.false_ne_true) fun _ => Prog.uses_bind (waits child 5) fun second => ?_
        cases second with
        | ok code => trivial
        | error exn => exact called Bool.false_ne_true
    exact Prog.uses_bind ends fun _ => ih

theorem wp_dismissed (children : List Child) (s : Shift) :
    (shutdown children).wp (attending dies latency bound) (fun _ _ => True) s :=
  Prog.wp_of_uses (shutdown_uses children) trivial fun _ idle _ _ =>
    ⟨fun serving => absurd serving idle, fun _ _ _ => trivial⟩

/-! ### A child's turn -/

/-- The longest that a child's turn takes: seven calls, one of them a sleep. -/
def Settings.turn (settings : Settings) (latency : ℚ) : ℚ := settings.backoffS + 7 * latency

theorem Settings.turn_nonneg (backs : 0 ≤ settings.backoffS) (waits : 0 ≤ latency) :
    0 ≤ settings.turn latency := by
  unfold Settings.turn
  linarith

/-- A process that has just been started: its start may have taken three calls. -/
theorem wp_posted (place : ℕ) (child : Child) (manned : s.Manned dies late) (waits : 0 ≤ latency)
    (room : ∀ place, late place + 3 * latency ≤ bound) (fits : 3 * latency ≤ bound) :
    (start place child).wp (attending dies latency bound)
      (Prog.Leads (fun _ _ => True) fun child' after =>
        s.now ≤ after.now ∧
        after.Manned dies (Function.update (fun place => late place + 3 * latency) place (3 * latency)) ∧
        Posted after place child' ∧ ∃ proc, after.current = Function.update s.current place (some proc))
      s := by
  unfold start
  -- the process is spawned, and it is as old as the call at most
  refine Prog.wp_then (fun proc (after : Shift) => ∃ now, s.now ≤ now ∧ now ≤ s.now + latency ∧
    proc = s.started ∧ after = (s.later now).spawn place ∧ after.Manned dies
      (Function.update (fun place => late place + latency) place latency)) ?_ ?_
  · refine Prog.wp_perform.mpr ⟨fun _ => manned.mono fun other _ _ => ?_, ?_⟩
    · have other := room other
      linarith
    rintro answer after ⟨now, since, soon, ⟨rfl, rfl, lives⟩ | ⟨text, rfl, rfl⟩⟩
    · refine ⟨now, since, soon, rfl, rfl, fun other proc death here dead => ?_⟩
      show now ≤ death + _
      by_cases same : other = place
      · subst same
        have own : s.started = proc :=
          Option.some.inj (((s.later now).spawn_self other).symm.trans here)
        rw [Function.update_self]
        have born := lives death (own ▸ dead)
        linarith
      · have kept : s.current other = some proc :=
          ((s.later now).spawn_of_ne same).symm.trans here
        rw [Function.update_of_ne same]
        have aged := manned other proc death kept dead
        linarith
    · trivial
  rintro proc after ⟨now, since, soon, rfl, rfl, manned⟩
  have room₁ : ∀ other, Function.update (fun place => late place + latency) place latency other ≤
      bound := by
    intro other
    rcases eq_or_ne other place with rfl | apart
    · rw [Function.update_self]
      linarith
    · rw [Function.update_of_ne apart]
      have other := room other
      linarith
  refine Prog.wp_then _ (wp_clock manned room₁) ?_
  rintro startedAt after ⟨waits₁, rfl⟩
  have manned₁ := manned.waits waits₁
  refine Prog.wp_then _ (wp_note manned₁ fun other => ?_) ?_
  · rcases eq_or_ne other place with rfl | apart
    · rw [Function.update_self]
      linarith
    · rw [Function.update_of_ne apart]
      have other := room other
      linarith
  rintro - last ⟨waits₂, -⟩
  have manned₂ := manned₁.waits waits₂
  obtain ⟨now₁, since₁, soon₁, rfl⟩ := waits₁
  obtain ⟨now₂, since₂, soon₂, rfl⟩ := waits₂
  have order : now ≤ now₁ := since₁
  have order' : now₁ ≤ now₂ := since₂
  have close : now₁ ≤ now + latency := soon₁
  have close' : now₂ ≤ now₁ + latency := soon₂
  refine ⟨le_trans since (le_trans order order'), ?_, ⟨⟨s.started, rfl, ?_⟩, order'⟩, s.started, rfl⟩
  · refine manned₂.mono fun other _ _ => ?_
    rcases eq_or_ne other place with rfl | apart
    · rw [Function.update_self, Function.update_self]
      linarith
    · rw [Function.update_of_ne apart, Function.update_of_ne apart]
      linarith
  · exact (s.later now).spawn_self place

/-- The sleep before a restart, which is the rest of the backoff. -/
theorem wp_rested {child : Child} {waited : ℚ} (manned : s.Manned dies late) (waits : 0 ≤ latency)
    (backs : 0 ≤ settings.backoffS) (aged : 0 ≤ waited)
    (room : ∀ place, late place + latency ≤ bound) :
    (throttle settings child waited).wp (attending dies latency bound)
      (Prog.Leads (fun _ _ => True) fun _ after => s.Waits (settings.backoffS + 2 * latency) after) s := by
  unfold throttle
  split_ifs with early
  · refine Prog.wp_then _ (wp_note manned fun place => ?_) ?_
    · have room := room place
      linarith
    rintro - middle ⟨waits₁, -⟩
    refine Prog.wp_mono ?_
      (@wp_pause dies latency bound _ middle _ (fun _ _ => True) (by linarith) (manned.waits waits₁) room)
    rintro (exn | done) last leads
    · trivial
    · exact (waits₁.trans leads.1).mono (by linarith)
  · exact ⟨s.now, le_rfl, by linarith, rfl⟩

/-- **A restart** leaves the child's process fresh, and the others as they are, but for its calls. -/
theorem wp_relieved {before rest : List Child} {child child' : Child}
    (staffed : Staffed dies late (before ++ child :: rest) s) (waits : 0 ≤ latency)
    (room : ∀ place, late place + 3 * latency ≤ bound) (fits : 3 * latency ≤ bound) :
    (restart before.length child').wp (attending dies latency bound)
      (Prog.Leads (fun _ _ => True) fun started after => Staffed dies
        (Function.update (fun place => late place + 3 * latency) before.length (3 * latency))
        (before ++ started :: rest) after) s := by
  unfold restart
  refine Prog.wp_mono ?_ (wp_posted before.length _ staffed.manned waits room fits)
  rintro (exn | started) after leads
  · trivial
  obtain ⟨since, manned, posted, proc, current⟩ := leads
  refine ⟨manned, fun place other here => ?_, fun place beyond => ?_⟩
  · rcases @getElem?_swap _ _ child _ _ _ here with ⟨rfl, rfl⟩ | ⟨apart, here⟩
    · exact posted
    · obtain ⟨⟨proc', own, running⟩, began⟩ := staffed.posted place other here
      refine ⟨⟨proc', own, ?_⟩, le_trans began since⟩
      rw [current, Function.update_of_ne apart]
      exact running
  · have beyond' : (before ++ child :: rest).length ≤ place := by simpa using beyond
    have apart : place ≠ before.length := by
      rw [List.length_append, List.length_cons] at beyond'
      omega
    rw [current, Function.update_of_ne apart]
    exact staffed.vacant place beyond'

/-- **A child's turn.** -/
theorem wp_attended {before rest : List Child} {child : Child}
    (staffed : Staffed dies late (before ++ child :: rest) s) (waits : 0 ≤ latency)
    (backs : 0 ≤ settings.backoffS) (room : ∀ place, late place + settings.turn latency ≤ bound)
    (fits : 3 * latency ≤ bound) :
    (tend settings before child rest).wp (attending dies latency bound)
      (Prog.Leads (fun _ _ => True) fun child' after => Staffed dies
        (Function.update (fun place => late place + settings.turn latency) before.length (3 * latency))
        (before ++ child' :: rest) after) s := by
  have place : (before ++ child :: rest)[before.length]? = some child := by
    rw [List.getElem?_append_right (le_refl _), Nat.sub_self, List.getElem?_cons_zero]
  obtain ⟨proc, here, running⟩ := (staffed.posted _ _ place).running
  have long : settings.turn latency = settings.backoffS + 7 * latency := rfl
  unfold tend
  refine Prog.wp_then (fun value last => proc = value ∧ s = last) ?_ ?_
  · unfold Child.running
    rw [here]
    exact ⟨rfl, rfl⟩
  rintro value last ⟨rfl, rfl⟩
  refine Prog.wp_then (fun code after => s.Waits latency after ∧
    code.isSome = (dies proc).any fun death => decide (death ≤ after.now)) ?_ ?_
  · refine wp_waits staffed.manned (fun place => ?_) ?_
    · have room := room place
      linarith
    · rintro answer after ⟨waits', code, rfl, seen⟩
      exact ⟨waits', code, rfl, seen⟩
  rintro (_ | code) after ⟨waits₁, seen⟩
  -- the process is alive
  · have fresh : Staffed dies
        (Function.update (fun place => late place + latency) before.length (3 * latency))
        (before ++ child :: rest) after := by
      refine (staffed.waits waits₁).fresh fun proc' death current dead => ?_
      have same : proc' = proc := by
        obtain ⟨now, -, -, rfl⟩ := waits₁
        exact Option.some.inj (current.symm.trans running)
      rw [← same, dead] at seen
      have alive : ¬ death ≤ after.now := of_decide_eq_false seen.symm
      linarith
    refine fresh.mono fun other _ => ?_
    rcases eq_or_ne other before.length with rfl | apart
    · rw [Function.update_self, Function.update_self]
    · rw [Function.update_of_ne apart, Function.update_of_ne apart]
      linarith
  -- the process is dead: the clock is read, the loop sleeps, and the child is restarted
  have staffed₁ := staffed.waits waits₁
  refine Prog.wp_then _ (wp_clock staffed₁.manned fun place => ?_) ?_
  · have room := room place
    linarith
  rintro now middle ⟨waits₂, rfl⟩
  have staffed₂ := staffed₁.waits waits₂
  have aged : 0 ≤ middle.now - child.startedAt := by
    have began := (staffed₂.posted _ _ place).began
    linarith
  refine Prog.wp_then _ (wp_rested staffed₂.manned waits backs aged fun place => ?_) ?_
  · have room := room place
    linarith
  rintro - last waits₃
  have staffed₃ := staffed₂.waits waits₃
  have restarts : ∀ child', (restart before.length child').wp (attending dies latency bound)
      (Prog.Leads (fun _ _ => True) fun started after => Staffed dies
        (Function.update (fun place => late place + settings.turn latency) before.length (3 * latency))
        (before ++ started :: rest) after) last := by
    intro child'
    refine Prog.wp_mono ?_ (wp_relieved staffed₃ waits (fun place => ?_) fits)
    · rintro (exn | started) after leads
      · trivial
      · refine Staffed.mono leads fun other _ => ?_
        rcases eq_or_ne other before.length with rfl | apart
        · rw [Function.update_self, Function.update_self]
        · rw [Function.update_of_ne apart, Function.update_of_ne apart]
          linarith
    · have room := room place
      linarith
  by_cases early : middle.now - child.startedAt < settings.fastDeathS
  · rw [if_pos early]
    by_cases enough : settings.maxFastDeaths ≤ child.fastDeaths + 1
    · refine (congrArg (Prog.wp (attending dies latency bound) · _ last) (if_pos enough)).mpr ?_
      refine Prog.wp_then (fun _ _ => True) ?_ fun _ _ _ => trivial
      refine Prog.wp_mono ?_ (wp_dismissed _ last)
      rintro (exn | done) after - <;> trivial
    · exact (congrArg (Prog.wp (attending dies latency bound) · _ last) (if_neg enough)).mpr (restarts _)
  · rw [if_neg early]
    exact restarts _

/-! ### Sweeps, and the whole loop -/

/-- **How long a child's process may have been dead** when the loop has come to the child in place `i`.
A child that has had its turn has aged by those after it, the others also by a sweep before. -/
def allowance (settings : Settings) (latency : ℚ) (n i place : ℕ) : ℚ :=
  if place < i then 3 * latency + ((i : ℚ) - 1 - place) * settings.turn latency
  else settings.pollS + 5 * latency + ((n : ℚ) - 1 + i - place) * settings.turn latency

/-- **The longest that a process of `n` children is dead**: a sleep of the poll interval, and a backoff
for each child. -/
def downtime (settings : Settings) (latency : ℚ) (n : ℕ) : ℚ :=
  settings.pollS + n * settings.backoffS + (7 * n + 5) * latency

theorem allowance_room (polls : 0 ≤ settings.pollS) (backs : 0 ≤ settings.backoffS) (waits : 0 ≤ latency)
    {n i : ℕ} (here : i < n) (place : ℕ) :
    allowance settings latency n i place + settings.turn latency ≤ downtime settings latency n := by
  have long := @Settings.turn_nonneg settings latency backs waits
  have whole : downtime settings latency n =
      settings.pollS + 5 * latency + n * settings.turn latency := by
    unfold downtime Settings.turn
    ring
  have last : (i : ℚ) + 1 ≤ n := by exact_mod_cast here
  have at0 : (0 : ℚ) ≤ place := Nat.cast_nonneg place
  unfold allowance
  rw [whole]
  split_ifs with early
  · have turns : ((i : ℚ) - 1 - place) * settings.turn latency ≤ ((n : ℚ) - 1) * settings.turn latency :=
      mul_le_mul_of_nonneg_right (by linarith) long
    linarith
  · have after : (i : ℚ) ≤ place := by exact_mod_cast not_lt.mp early
    have turns : ((n : ℚ) - 1 + i - place) * settings.turn latency ≤
        ((n : ℚ) - 1) * settings.turn latency := mul_le_mul_of_nonneg_right (by linarith) long
    linarith

/-- A child's turn takes the allowances on to the next child. -/
theorem allowance_succ (n i place : ℕ) :
    Function.update (fun place => allowance settings latency n i place + settings.turn latency) i
      (3 * latency) place = allowance settings latency n (i + 1) place := by
  unfold allowance
  rcases Nat.lt_trichotomy place i with less | rfl | more
  · rw [Function.update_of_ne (Nat.ne_of_lt less), if_pos less, if_pos (Nat.lt_succ_of_lt less)]
    push_cast
    ring
  · rw [Function.update_self, if_pos (Nat.lt_succ_self place)]
    push_cast
    ring
  · rw [Function.update_of_ne (Nat.ne_of_gt more), if_neg (by omega), if_neg (by omega)]
    push_cast
    ring

/-- The calls between two sweeps. -/
theorem allowance_again {n place : ℕ} (here : place < n) :
    allowance settings latency n n place + (settings.pollS + 2 * latency) =
      allowance settings latency n 0 place := by
  unfold allowance
  rw [if_pos here, if_neg (Nat.not_lt_zero place)]
  push_cast
  ring

section Loop

variable (polls : 0 ≤ settings.pollS) (backs : 0 ≤ settings.backoffS) (waits : 0 ≤ latency)

include polls backs waits

theorem wp_patrolled {before children : List Child} {n : ℕ} (whole : before.length + children.length = n)
    (bounded : downtime settings latency n = bound)
    (staffed : Staffed dies (allowance settings latency n before.length) (before ++ children) s) :
    (sweep settings before children).wp (attending dies latency bound)
      (Prog.Leads (fun _ _ => True) fun children' after => children'.length = n ∧
        Staffed dies (allowance settings latency n n) children' after) s := by
  induction children generalizing before s with
  | nil =>
    rw [List.length_nil, Nat.add_zero] at whole
    rw [List.append_nil, whole] at staffed
    exact ⟨whole, staffed⟩
  | cons child rest ih =>
    rw [List.length_cons] at whole
    have fits : 3 * latency ≤ bound := by
      have more : (0 : ℚ) ≤ n := Nat.cast_nonneg n
      rw [← bounded]
      unfold downtime
      nlinarith
    unfold sweep
    refine Prog.wp_then _ (wp_attended staffed waits backs (fun place => ?_) fits) ?_
    · rw [← bounded]
      exact allowance_room polls backs waits (by omega) place
    · intro child' after staffed'
      have regroup : before ++ [child'] ++ rest = before ++ child' :: rest := by simp
      refine ih (by simp; omega) ?_
      rw [regroup, List.length_append, List.length_singleton]
      exact staffed'.mono fun place _ => (allowance_succ n before.length place).le

theorem wp_watched (k : ℕ) {children : List Child} {n : ℕ} (whole : children.length = n)
    (bounded : downtime settings latency n = bound)
    (staffed : Staffed dies (allowance settings latency n n) children s) :
    (turns settings k children).wp (attending dies latency bound) (fun _ _ => True) s := by
  induction k generalizing children s with
  | zero => trivial
  | succ k ih =>
    have long := @Settings.turn_nonneg settings latency backs waits
    -- what the children have aged by is the same in all places of the list
    have staffed : Staffed dies (fun place => allowance settings latency n 0 place -
        (settings.pollS + 2 * latency)) children s :=
      staffed.mono fun place here => by
        have again := @allowance_again settings latency n place (whole ▸ here)
        linarith
    have room : ∀ place, allowance settings latency n 0 place ≤ bound := by
      intro place
      have at0 : (0 : ℚ) ≤ place := Nat.cast_nonneg place
      have turns : ((n : ℚ) - 1 + 0 - place) * settings.turn latency ≤ n * settings.turn latency :=
        mul_le_mul_of_nonneg_right (by linarith) long
      rw [← bounded]
      unfold allowance downtime
      rw [if_neg (Nat.not_lt_zero place)]
      unfold Settings.turn at turns ⊢
      push_cast
      nlinarith
    unfold turns
    refine Prog.wp_bind_of (fun _ after => s.Waits latency after) ?_ ?_
    · refine Prog.wp_mono ?_ (@wp_waits dies latency bound _ s .shouldStop latency (fun _ _ => True)
        (fun _ _ => True) staffed.manned (fun place => ?_) ?_)
      · rintro (exn | stop) after leads
        · trivial
        · exact leads.1
      · have room := room place
        linarith
      · rintro answer after ⟨waits', value, rfl⟩
        exact ⟨waits', value, rfl, trivial⟩
    rintro stop after waits₁
    have staffed₁ := staffed.waits waits₁
    split_ifs
    · exact Prog.wp_bind_of (fun _ _ => True) (Prog.wp_mono (by rintro (exn | done) last - <;> trivial)
        (wp_dismissed children after)) fun _ _ _ => trivial
    · refine Prog.wp_bind_of (fun _ last => after.Waits (settings.pollS + latency) last) ?_ ?_
      · refine Prog.wp_mono ?_ (@wp_pause dies latency bound _ after _ (fun _ _ => True) polls
          staffed₁.manned fun place => ?_)
        · rintro (exn | done) last leads
          · trivial
          · exact leads.1
        · have room := room place
          linarith
      rintro - last waits₂
      have staffed₂ : Staffed dies (allowance settings latency n 0) children last :=
        (staffed₁.waits waits₂).mono fun place _ => by linarith
      refine Prog.wp_bind_of (fun children' last => children'.length = n ∧
        Staffed dies (allowance settings latency n n) children' last) ?_ ?_
      · refine Prog.wp_mono ?_ (@wp_patrolled settings dies latency bound last polls backs waits []
          children n (by simpa using whole) bounded staffed₂)
        rintro (exn | children') after' leads
        · trivial
        · exact leads
      rintro children' after' ⟨whole', staffed'⟩
      exact ih whole' staffed'

theorem wp_hired {before children : List Child} {n : ℕ} (whole : before.length + children.length = n)
    (bounded : downtime settings latency n = bound)
    (staffed : Staffed dies (allowance settings latency n before.length) before s) :
    (startAll before children).wp (attending dies latency bound)
      (Prog.Leads (fun _ _ => True) fun children' after => children'.length = n ∧
        Staffed dies (allowance settings latency n n) children' after) s := by
  induction children generalizing before s with
  | nil =>
    rw [List.length_nil, Nat.add_zero] at whole
    rw [whole] at staffed
    exact ⟨whole, staffed⟩
  | cons child rest ih =>
    rw [List.length_cons] at whole
    have room := @allowance_room settings latency polls backs waits n before.length (by omega)
    have long : settings.turn latency = settings.backoffS + 7 * latency := rfl
    unfold startAll
    refine Prog.wp_then _ (wp_posted before.length child staffed.manned waits (fun place => ?_) ?_) ?_
    · have room := room place
      linarith
    · have more : (0 : ℚ) ≤ n := Nat.cast_nonneg n
      rw [← bounded]
      unfold downtime
      nlinarith
    rintro started after ⟨since, manned, posted, proc, current⟩
    refine ih (by simp; omega) ?_
    rw [List.length_append, List.length_singleton]
    refine Staffed.mono ⟨manned, fun place other here => ?_, fun place beyond => ?_⟩ fun place _ => ?_
    · rcases Nat.lt_trichotomy place before.length with less | rfl | more
      · rw [List.getElem?_append_left less] at here
        obtain ⟨⟨proc', own, running⟩, began⟩ := staffed.posted place other here
        refine ⟨⟨proc', own, ?_⟩, le_trans began since⟩
        rw [current, Function.update_of_ne (Nat.ne_of_lt less)]
        exact running
      · rw [List.getElem?_append_right (le_refl _), Nat.sub_self, List.getElem?_cons_zero] at here
        obtain rfl := Option.some.inj here
        exact posted
      · rw [List.getElem?_eq_none (by simp; omega)] at here
        cases here
    · have beyond' : before.length < place := Nat.lt_of_succ_le (by simpa using beyond)
      rw [current, Function.update_of_ne (Nat.ne_of_gt beyond')]
      exact staffed.vacant place beyond'.le
    · refine le_trans ?_ (allowance_succ n before.length place).le
      rcases eq_or_ne place before.length with rfl | apart
      · rw [Function.update_self, Function.update_self]
      · rw [Function.update_of_ne apart, Function.update_of_ne apart]
        linarith

/-- **No child's process is dead for longer than the downtime**, until the loop shuts down. -/
theorem down_briefly (k : ℕ) (children : List Child) {now : ℚ} {left : Supervising Ending}
    (run : Prog.Steps (attending dies latency (downtime settings latency children.length))
      (supervise settings k children) { now := now } left s) (serving : serves left)
    {place proc : ℕ} {death : ℚ} (here : s.current place = some proc)
    (dead : dies proc = some death) :
    s.now ≤ death + downtime settings latency children.length := by
  have begun : Staffed dies (allowance settings latency children.length 0) [] { now := now } :=
    ⟨fun _ _ _ here => (Option.some_ne_none _ here.symm).elim, fun _ _ here => (by cases here),
      fun _ _ => rfl⟩
  have whole : (supervise settings k children).wp
      (attending dies latency (downtime settings latency children.length)) (fun _ _ => True)
      { now := now } := by
    unfold supervise
    refine Prog.wp_bind_of (fun children' after => children'.length = children.length ∧
      Staffed dies (allowance settings latency children.length children.length) children' after) ?_ ?_
    · refine Prog.wp_mono ?_ (wp_hired polls backs waits (Nat.zero_add _) rfl begun)
      rintro (exn | children') after leads
      · trivial
      · exact leads
    · rintro children' after ⟨same, staffed⟩
      exact wp_watched polls backs waits k same rfl staffed
  cases left with
  | ret ending => cases serving
  | raise exn => cases serving
  | call op next => exact Prog.safe_of_steps run whole serving place proc death here dead

end Loop

end Proofs

/-- A clock that only sleeping moves. -/
def exactClock (dies : ℕ → Option ℚ) :
    (op : sig.Op) → Shift → Except Exn (sig.Ans op) × Shift
  | .spawn place _, s =>
    if (dies s.started).all fun death => decide (s.now ≤ death) then (.ok s.started, s.spawn place)
    else (.error (.raised "no such process"), s)
  | .clock, s => (.ok s.now, s)
  | .sleep seconds, s => (.ok (), s.later (s.now + max seconds 0))
  | .shouldStop, s => (.ok false, s)
  | .poll proc, s =>
    (.ok (if (dies proc).any fun death => decide (death ≤ s.now) then some 1 else none), s)
  | .terminate _, s => (.ok (), s)
  | .wait .., s => (.ok 0, s)
  | .kill _, s => (.ok (), s)
  | .log _, s => (.ok (), s)

theorem exactClock_allowed (dies : ℕ → Option ℚ) (bound : ℚ) (op : sig.Op) (s : Shift) :
    (attending dies 0 bound).step op s (exactClock dies op s).1 (exactClock dies op s).2 := by
  have still : s.Waits 0 s := ⟨s.now, le_rfl, by linarith, rfl⟩
  cases op with
  | spawn place child =>
    refine ⟨s.now, le_rfl, by linarith, ?_⟩
    by_cases lives : (dies s.started).all fun death => decide (s.now ≤ death)
    · have answers : exactClock dies (.spawn place child) s = (.ok s.started, s.spawn place) :=
        if_pos lives
      rw [answers]
      refine Or.inl ⟨rfl, rfl, fun death dead => ?_⟩
      rw [dead] at lives
      exact of_decide_eq_true lives
    · have answers : exactClock dies (.spawn place child) s =
          (.error (.raised "no such process"), s) := if_neg lives
      rw [answers]
      exact Or.inr ⟨_, rfl, rfl⟩
  | sleep seconds =>
    have forward := le_max_right seconds 0
    exact ⟨⟨_, by linarith, by linarith, rfl⟩, rfl⟩
  | poll proc =>
    refine ⟨still, _, rfl, ?_⟩
    split_ifs with dead
    · exact dead.symm
    · exact (Bool.eq_false_of_not_eq_true dead).symm
  | wait proc timeout =>
    exact ⟨⟨s.now, le_rfl, by linarith [le_max_right timeout 0], rfl⟩, Or.inl ⟨_, rfl⟩⟩
  | clock => exact ⟨still, rfl⟩
  | shouldStop => exact ⟨still, _, rfl⟩
  | terminate proc => exact ⟨still, _, rfl⟩
  | kill proc => exact ⟨still, _, rfl⟩
  | log line => exact ⟨still, _, rfl⟩

/-- The poller dies half a second after its start. -/
def briefPoller : ℕ → Option ℚ := fun proc => if proc = 0 then some (1 / 2) else none

/-- The poller has been dead for 29.5 s when the loop has slept for it. -/
theorem down_briefly_slept :
    (((supervise {} 1 (twoChildren.take 1)).runFor (exactClock briefPoller) 9 { now := 0 }).2).now =
        30 ∧
      (30 : ℚ) ≤ 1 / 2 + downtime {} 0 1 := by
  have slept : (((supervise {} 1 (twoChildren.take 1)).runFor (exactClock briefPoller) 9
      { now := 0 }).2).now = 30 := by decide +kernel
  have current : (((supervise {} 1 (twoChildren.take 1)).runFor (exactClock briefPoller) 9
      { now := 0 }).2).current 0 = some 0 := by decide +kernel
  refine ⟨slept, slept.ge.trans ?_⟩
  exact @down_briefly {} briefPoller 0 _ (by decide) (by decide) (by decide) 1 (twoChildren.take 1) 0
    _ (Prog.steps_runFor 9 _ _ (exactClock_allowed briefPoller _)) (by decide +kernel) 0 0 (1 / 2)
    current rfl

end Freshet.Ops.Supervisor
