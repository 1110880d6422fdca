/-
**A replayed topic.**

An event whose ts lies more than `MAX_BRIEF_AGE_S` in the past should brief nobody. The opened branch
has a guard for it; the in-progress branch schedules the opening brief without one.

* `Unscheduled`: what the statements other than `_SCHEDULE_SQL` leave alone;
* `Spares`: the old event is of another type, or is stale, or finds its brief posted or due;
* `old_event_spares_iff`: exactly then nothing is scheduled, whatever fails on the way;
* `replay_never_briefs`: a sequence of such events and drains posts no brief.
-/

import Freshet.Autopilot.Owed
import Freshet.Autopilot.LeaseProtocol
import Freshet.Lib.Interpret

namespace Freshet.Autopilot

open Freshet.Lib

/-! ### What sets `brief_due_at` -/

/-- Every due time of `after` was there before. -/
def Unscheduled (before after : Incidents) : Prop :=
  ∀ incidentId row' due, after.lookup incidentId = some row' → row'.briefDueAt = some due →
    ∃ row, before.lookup incidentId = some row ∧ row.briefDueAt = some due

theorem Unscheduled.refl (table : Incidents) : Unscheduled table table :=
  fun _ row _ found due => ⟨row, found, due⟩

theorem Unscheduled.trans {first second third : Incidents} (one : Unscheduled first second)
    (two : Unscheduled second third) : Unscheduled first third := by
  intro incidentId row due found here
  obtain ⟨before, found, here⟩ := two incidentId row due found here
  exact one incidentId before due found here

/-- The statement that schedules a brief. -/
def Stmt.schedules : Stmt → Prop
  | schedule _ _ => True
  | _ => False

/-- Another statement leaves a due time or clears it. -/
theorem briefDueAt_change {stmt : Stmt} (other : ¬ stmt.schedules) (now : Time) (row : Row) :
    (stmt.change now row).briefDueAt = row.briefDueAt ∨
      (stmt.change now row).briefDueAt = none := by
  cases stmt with
  | schedule => exact absurd trivial other
  | claim slot incidentId =>
    left
    simp only [Stmt.change]
    split_ifs
    · rcases slot with _ | ⟨_ | _⟩ <;> rfl
    · rfl
  | claimDeferred kind incidentId =>
    left
    simp only [Stmt.change]
    split_ifs
    · cases kind <;> rfl
    · rfl
  | release slot incidentId =>
    left
    rcases slot with _ | ⟨_ | _⟩ <;> rfl
  | markBrief => exact Or.inr rfl
  | markFollowup kind incidentId =>
    left
    cases kind <;> rfl
  | defer kind incidentId =>
    left
    simp only [Stmt.change]
    split_ifs
    · cases kind <;> rfl
    · rfl
  | _ => exact Or.inl rfl

theorem unscheduled_exec {stmt : Stmt} (other : ¬ stmt.schedules) (now : Time)
    (table : Incidents) : Unscheduled table (stmt.exec now table).2 := by
  intro incidentId row' due found here
  rw [lookup_exec] at found
  split_ifs at found with target
  · cases before : table.lookup incidentId with
    | none =>
      rw [before] at found
      cases stmt with
      | ensureIncident about title openedAt service =>
        obtain rfl := Option.some_injective _ found
        exact absurd here.symm (Option.some_ne_none due)
      | _ => exact absurd found.symm (Option.some_ne_none row')
    | some row =>
      rw [before] at found
      obtain rfl := Option.some_injective _ found
      refine ⟨row, rfl, ?_⟩
      rcases briefDueAt_change other now row with same | cleared
      · rw [← same]
        exact here
      · rw [cleared] at here
        exact absurd here.symm (Option.some_ne_none due)
  · exact ⟨row', found, here⟩

/-- Nothing is left to schedule for the incident: its brief is due or posted, or it has no row. -/
def Spent (table : Incidents) (incidentId : String) : Prop :=
  Secured table incidentId .brief ∨ table.lookup incidentId = none

theorem unscheduled_schedule {table : Incidents} {incidentId : String}
    (spent : Spent table incidentId) (window now : Time) :
    Unscheduled table ((Stmt.schedule window incidentId).exec now table).2 := by
  intro about row' due found here
  rw [lookup_exec] at found
  split_ifs at found with target
  · obtain rfl : incidentId = about := Option.some_injective _ target
    rcases spent with ⟨row, before, secured⟩ | missing
    · rw [before] at found
      obtain rfl := Option.some_injective _ found
      refine ⟨row, before, ?_⟩
      have guard : ¬ (row.briefDeliveredAt.isNone && row.briefDueAt.isNone) = true := by
        intro unset
        rw [Bool.and_eq_true, Option.isNone_iff_eq_none, Option.isNone_iff_eq_none] at unset
        rcases secured with owed | delivered
        · have due : row.briefDueAt.isSome = true := owed
          simp [unset.2] at due
        · have posted : row.briefDeliveredAt.isSome = true := delivered
          simp [unset.1] at posted
      have same : (Stmt.schedule window incidentId).change now row = row := if_neg guard
      have after : ((Stmt.schedule window incidentId).change now row).briefDueAt = some due := here
      rw [same] at after
      exact after
    · rw [missing] at found
      exact absurd found.symm (Option.some_ne_none row')
  · exact ⟨row', found, here⟩

/-! ### One worker, the event's clock readings -/

/-- A reading of the application's clock is `late`. -/
def ReadsLate (late : Time → Prop) : (op : Op) → Except Exn op.Ans → Prop
  | .utcNow, .ok reading => late reading
  | _, _ => True

/-- **One worker alone**: its clock readings are `late`, the server's clock goes on between its calls,
and any call may fail. `kept` has to hold before every call. -/
def replaying (late : Time → Prop) (kept : World Unit → Prop) : Machine sig Exn (World Unit) where
  safe _ := kept
  step op world answer after :=
    (∃ now, world.now ≤ now ∧ ({ world with now := now } : World Unit).Calls () op answer after) ∧
      ReadsLate late op answer

/-- The reading lies more than `MAX_BRIEF_AGE_S` after the event. -/
def TooOld (ts reading : Time) : Prop := reading - ts > seconds maxBriefAgeS

/-- Calls that neither schedule nor post a brief. -/
def IsCalm : Op → Prop
  | .sql (.schedule _ _) => False
  | .deliver _ .brief _ _ => False
  | _ => True

/-- What calm calls keep, and a schedule with nothing left to schedule. -/
structure Lasting (kept : World Unit → Prop) : Prop where
  calm : ∀ op, IsCalm op → ∀ world now answer after, kept world →
    ({ world with now := now } : World Unit).Calls () op answer after → kept after
  schedule : ∀ window incidentId world now answer after, kept world →
    Spent world.incidents incidentId →
    ({ world with now := now } : World Unit).Calls () (.sql (.schedule window incidentId)) answer
      after → kept after

theorem wp_of_calm {α : Type} {late : Time → Prop} {kept : World Unit → Prop}
    (lasting : Lasting kept) {program : Auto α} {world : World Unit}
    (uses : program.Uses IsCalm) (here : kept world) :
    program.wp (replaying late kept) (fun _ after => kept after) world := by
  refine Prog.wp_of_uses uses here fun op calm before held => ⟨held, ?_⟩
  intro answer after step
  obtain ⟨⟨now, -, calls⟩, -⟩ := step
  exact lasting.calm op calm before now answer after held calls

/-! ### The old event -/

/-- The incident's brief is due or posted, or it has neither row nor id. -/
def Idle (table : Incidents) (incidentId : String) : Prop :=
  Secured table incidentId .brief ∨ table.lookup incidentId = none ∧ incidentId = ""

/-- Calm calls, none of which makes a row without an id. -/
def IsTame (op : Op) : Prop :=
  IsCalm op ∧ ∀ title openedAt service, op ≠ .sql (.ensureIncident "" title openedAt service)

/-- Tame calls, and schedules of one incident. -/
def IsTameFor (incidentId : String) (op : Op) : Prop :=
  IsTame op ∨ ∃ window, op = .sql (.schedule window incidentId)

theorem isTame_of_isRead (op : Op) (read : IsRead op) : IsTame op := by
  cases op with
  | sql stmt => cases stmt <;> first | exact read.elim | exact ⟨trivial, by simp⟩
  | deliver => exact read.elim
  | _ => exact ⟨trivial, by simp⟩

/-- A call that makes no row without an id keeps an idle incident idle. -/
theorem idle_of_calls {world after : World Unit} {op : Op} {answer : Except Exn op.Ans}
    {incidentId : String} (calls : world.Calls () op answer after)
    (named : ∀ title openedAt service, op ≠ .sql (.ensureIncident "" title openedAt service))
    (idle : Idle world.incidents incidentId) : Idle after.incidents incidentId := by
  rcases incidents_of_calls calls with same | ⟨stmt, rfl, eq⟩
  · rw [same]
    exact idle
  · rw [eq]
    rcases idle with secured | ⟨missing, unnamed⟩
    · exact Or.inl (secured.keeps (keeps_exec stmt _ _))
    · refine Or.inr ⟨?_, unnamed⟩
      rw [lookup_exec, missing]
      split_ifs with target
      · cases stmt with
        | ensureIncident about title openedAt service =>
          obtain rfl : about = incidentId := Option.some_injective _ target
          rw [unnamed] at named
          exact absurd rfl (named title openedAt service)
        | _ => rfl
      · rfl

/-- **With the incident idle nothing is scheduled.** -/
theorem wp_of_idle {α : Type} {late : Time → Prop} {kept : World Unit → Prop}
    (lasting : Lasting kept) {incidentId : String} {program : Auto α} {world : World Unit}
    (uses : program.Uses (IsTameFor incidentId)) (here : kept world)
    (idle : Idle world.incidents incidentId) :
    program.wp (replaying late kept) (fun _ after => kept after) world := by
  have both : program.wp (replaying late kept)
      (fun _ after => kept after ∧ Idle after.incidents incidentId) world := by
    refine Prog.wp_of_uses uses ⟨here, idle⟩ fun op allowed before held => ⟨held.1, ?_⟩
    intro answer after step
    obtain ⟨⟨now, -, calls⟩, -⟩ := step
    rcases allowed with ⟨calm, named⟩ | ⟨window, rfl⟩
    · exact ⟨lasting.calm op calm before now answer after held.1 calls,
        idle_of_calls calls named held.2⟩
    · have spent : Spent before.incidents incidentId := held.2.imp id And.left
      exact ⟨lasting.schedule window incidentId before now answer after held.1 spent calls,
        idle_of_calls calls (by simp) held.2⟩
  exact Prog.wp_mono (fun _ _ held => held.1) both

theorem uses_onError {α : Type} {allowed : Op → Prop} {body : Auto α} {cleanup : Auto Unit}
    (start : body.Uses allowed) (last : cleanup.Uses allowed) :
    (onError body cleanup).Uses allowed := by
  refine Prog.uses_bind (Prog.uses_attempt start) fun outcome => ?_
  cases outcome with
  | ok value => exact Prog.uses_ret value
  | error exn => exact Prog.uses_bind last fun _ => Prog.uses_raise exn

theorem uses_tame {op : Op} (calm : IsCalm op)
    (named : ∀ title openedAt service, op ≠ .sql (.ensureIncident "" title openedAt service)) :
    (ask op).Uses IsTame :=
  Prog.uses_perform ⟨calm, named⟩

theorem eventTs_tame (config : Config) (ev : LifecycleEvent) : (eventTs config ev).Uses IsTame := by
  unfold eventTs
  cases config.parseTs ev.ts with
  | none => exact uses_tame trivial (by simp)
  | some ts => exact Prog.uses_ret ts

theorem ensureIncident_tame (incidentId service : String) (openedAt : Time) (title : String) :
    (ensureIncident incidentId service openedAt title).Uses IsTame := by
  unfold ensureIncident
  split_ifs with unnamed
  · exact Prog.uses_ret ()
  · refine Prog.uses_bind (uses_tame trivial fun _ _ _ same => ?_) fun _ =>
      uses_tame trivial (by simp)
    simp only [Op.sql.injEq, Stmt.ensureIncident.injEq] at same
    exact unnamed same.1

/-- A follow-up branch, from its claim on. -/
theorem claimAndPost_tame {kind : Followup} (incidentId : String) {gathered : Auto Findings}
    (uses : gathered.Uses IsRead) :
    ((sql (.claim (.followup kind) incidentId)).bind fun won => if won = true then
      onError ((sql (.getSlackTs incidentId)).bind fun row => gathered.bind fun findings =>
        (ask (.deliver incidentId (.followup kind) findings row.join)).bind fun _ =>
          sql (.markFollowup kind incidentId)) (sql (.release (.followup kind) incidentId))
      else pure ()).Uses IsTame := by
  refine Prog.uses_bind (uses_tame trivial (by simp)) fun won => ?_
  split_ifs
  · refine uses_onError (Prog.uses_bind (uses_tame trivial (by simp)) fun row => ?_)
      (uses_tame trivial (by simp))
    refine Prog.uses_bind (Prog.uses_mono isTame_of_isRead uses) fun findings => ?_
    exact Prog.uses_bind (uses_tame trivial (by simp)) fun _ => uses_tame trivial (by simp)
  · exact Prog.uses_ret ()

theorem handleInProgress_tame (config : Config) (ev : LifecycleEvent) :
    (handleInProgress config ev).Uses (IsTameFor ev.incidentId) := by
  have tame : ∀ op, IsTame op → IsTameFor ev.incidentId op := fun _ => Or.inl
  refine Prog.uses_bind (Prog.uses_mono tame (uses_tame trivial (by simp))) fun opened => ?_
  refine Prog.uses_bind (Prog.uses_mono tame ?_) fun stale => ?_
  · cases opened with
    | none => exact Prog.uses_ret false
    | some openedAt => exact Prog.uses_bind (eventTs_tame _ _) fun _ => Prog.uses_ret _
  split_ifs
  · exact Prog.uses_ret ()
  refine Prog.uses_bind (Prog.uses_mono tame (eventTs_tame _ _)) fun openedAt => ?_
  refine Prog.uses_bind (Prog.uses_mono tame (ensureIncident_tame _ _ _ _)) fun _ => ?_
  refine Prog.uses_bind (Prog.uses_perform (Or.inr ⟨config.window, rfl⟩)) fun _ => ?_
  refine Prog.uses_mono tame (Prog.uses_bind (uses_tame trivial (by simp)) fun _ => ?_)
  exact claimAndPost_tame _ (gatherFindings_uses _ _ _ _ _)

theorem handleResolved_tame (config : Config) (ev : LifecycleEvent) :
    (handleResolved config ev).Uses IsTame := by
  refine Prog.uses_bind (eventTs_tame _ _) fun ts => ?_
  refine Prog.uses_bind (uses_tame trivial (by simp)) fun opened => ?_
  split_ifs
  · exact Prog.uses_ret ()
  refine Prog.uses_bind (uses_tame trivial (by simp)) fun _ => ?_
  refine Prog.uses_bind (uses_tame trivial (by simp)) fun _ => ?_
  exact claimAndPost_tame _ (gatherPostmortem_uses _ _ _)

/-- **What spares an old event**: it is no in-progress update, or it is older than its incident, or
nothing is left to schedule for it. -/
def Spares (table : Incidents) (ev : LifecycleEvent) (ts : Time) : Prop :=
  ev.type = "in_progress" →
    (∃ row, table.lookup ev.incidentId = some row ∧ ts < row.openedAt) ∨ Idle table ev.incidentId

section Old

variable {config : Config} {ev : LifecycleEvent} {ts : Time} {kept : World Unit → Prop}
  {world : World Unit}

/-- The opened branch has its guard. -/
theorem wp_handleOpened_old (lasting : Lasting kept) (stamp : config.parseTs ev.ts = some ts)
    (here : kept world) :
    (handleOpened config ev).wp (replaying (TooOld ts) kept) (fun _ after => kept after) world := by
  refine ⟨here, fun answer after step => ?_⟩
  obtain ⟨⟨now, -, calls⟩, late⟩ := step
  have held := lasting.calm .utcNow trivial world now answer after here calls
  cases answer with
  | error exn => exact held
  | ok reading =>
    show ((eventTs config ev).bind fun ts => if reading - ts > seconds maxBriefAgeS then pure ()
      else _).wp _ _ after
    unfold eventTs
    rw [stamp]
    show (if reading - ts > seconds maxBriefAgeS then pure () else _ : Auto Unit).wp _ _ after
    have old : reading - ts > seconds maxBriefAgeS := late
    rw [if_pos old]
    exact held

/-- A stale in-progress event is skipped. -/
theorem wp_handleInProgress_stale (lasting : Lasting kept) (stamp : config.parseTs ev.ts = some ts)
    (here : kept world) {row : Row} (found : world.incidents.lookup ev.incidentId = some row)
    (stale : ts < row.openedAt) :
    (handleInProgress config ev).wp (replaying (TooOld ts) kept) (fun _ after => kept after)
      world := by
  refine ⟨here, fun answer after step => ?_⟩
  obtain ⟨⟨now, -, calls⟩, -⟩ := step
  have held := lasting.calm (.sql (.getOpenedAt ev.incidentId)) trivial world now answer after here calls
  rcases calls with ⟨rfl, -⟩ | ⟨message, rfl, -⟩
  · have opened : ((Stmt.getOpenedAt ev.incidentId).exec now world.incidents).1 =
        some row.openedAt := by
      show (world.incidents.lookup ev.incidentId).map _ = _
      rw [found]
      rfl
    show ((isStale config ev ((Stmt.getOpenedAt ev.incidentId).exec now world.incidents).1).bind
      _).wp _ _ after
    rw [opened]
    unfold isStale eventTs
    rw [stamp]
    show (if decide (ts < row.openedAt) = true then pure () else _ : Auto Unit).wp _ _ after
    rw [if_pos (decide_eq_true stale)]
    exact held
  · exact held

/-- **A spared event keeps what calm calls keep.** -/
theorem wp_handleLifecycle_spared (lasting : Lasting kept) {raw : RawLifecycle}
    (decoded : LifecycleEvent.fromJson raw = .ok ev) (stamp : config.parseTs ev.ts = some ts)
    (spares : Spares world.incidents ev ts) (here : kept world) :
    (handleLifecycle config raw).wp (replaying (TooOld ts) kept) (fun _ after => kept after)
      world := by
  have calm : ∀ op, IsTame op → IsCalm op := fun _ tame => tame.1
  unfold handleLifecycle
  rw [decoded]
  show (if ev.type = "opened" then _ else if ev.type = "in_progress" then _
    else if ev.type = "resolved" then _ else _ : Auto Unit).wp _ _ world
  split_ifs with opened progress resolved
  · exact wp_handleOpened_old lasting stamp here
  · rcases spares progress with ⟨row, found, stale⟩ | idle
    · exact wp_handleInProgress_stale lasting stamp here found stale
    · exact wp_of_idle lasting (handleInProgress_tame config ev) here idle
  · exact wp_of_calm lasting (Prog.uses_mono calm (handleResolved_tame config ev)) here
  · exact here

end Old

/-- What is scheduled lasts: calm calls schedule nothing. -/
theorem lasting_unscheduled (before : Incidents) :
    Lasting fun world => Unscheduled before world.incidents where
  calm op calm world now answer after held calls := by
    rcases incidents_of_calls calls with same | ⟨stmt, rfl, eq⟩
    · rw [same]
      exact held
    · rw [eq]
      refine held.trans (unscheduled_exec ?_ now world.incidents)
      cases stmt <;> first | exact calm.elim | exact id
  schedule window incidentId world now answer after held spent calls := by
    rcases calls with ⟨-, rfl⟩ | ⟨message, -, rfl | rfl⟩
    · exact held.trans (unscheduled_schedule spent window now)
    · exact held
    · exact held.trans (unscheduled_schedule spent window now)

/-! ### Exactly when -/

/-- Handling the event sets no `brief_due_at`: at no point, whatever fails. -/
def NeverSchedules (config : Config) (raw : RawLifecycle) (ts : Time) (world : World Unit) : Prop :=
  (handleLifecycle config raw).wp
    (replaying (TooOld ts) fun after => Unscheduled world.incidents after.incidents)
    (fun _ after => Unscheduled world.incidents after.incidents) world

section Exactly

variable {config : Config} {ev : LifecycleEvent} {ts : Time} {kept : World Unit → Prop}
  {world : World Unit}

/-- A statement that succeeds at once, in a program that keeps something. -/
theorem wp_statement {α : Type} {late : Time → Prop} {stmt : Stmt} {rest : stmt.Ans → Auto α}
    {post : Except Exn α → World Unit → Prop}
    (holds : ((sql stmt).bind rest).wp (replaying late kept) post world) :
    (rest (stmt.exec world.now world.incidents).1).wp (replaying late kept) post
      (world.executed () stmt) :=
  holds.2 (.ok (stmt.exec world.now world.incidents).1) (world.executed () stmt)
    ⟨⟨world.now, le_refl _, Or.inl ⟨rfl, rfl⟩⟩, trivial⟩

/-- The rest of the in-progress branch, once the event is known not to be stale. -/
theorem wp_scheduling (stamp : config.parseTs ev.ts = some ts)
    (fresh : ∀ row, world.incidents.lookup ev.incidentId = some row → row.openedAt ≤ ts)
    (holds : (handleInProgress config ev).wp (replaying (TooOld ts) kept)
      (fun _ after => kept after) world) :
    ((ensureIncident ev.incidentId ev.service ts ev.title).bind fun _ =>
      (scheduleBrief ev.incidentId config.window).bind fun _ =>
        (sql (.defer .progress ev.incidentId)).bind fun _ =>
          (claimProgress ev.incidentId).bind fun won => if won = true then
            onError (postProgress config ev) (releaseProgress ev.incidentId) else pure ()).wp
      (replaying (TooOld ts) kept) (fun _ after => kept after)
      (world.executed () (.getOpenedAt ev.incidentId)) := by
  have read := wp_statement holds
  have stale : isStale config ev
      ((Stmt.getOpenedAt ev.incidentId).exec world.now world.incidents).1 = pure false := by
    have opened : ((Stmt.getOpenedAt ev.incidentId).exec world.now world.incidents).1 =
        (world.incidents.lookup ev.incidentId).map fun row => row.openedAt := rfl
    rw [opened]
    unfold isStale eventTs
    rw [stamp]
    cases found : world.incidents.lookup ev.incidentId with
    | none => rfl
    | some row =>
      have inTime : decide (ts < row.openedAt) = false :=
        decide_eq_false (not_lt.mpr (fresh row found))
      show (pure (decide (ts < row.openedAt)) : Auto Bool) = pure false
      rw [inTime]
  have event : eventTs config ev = pure ts := by
    unfold eventTs
    rw [stamp]
  rw [stale] at read
  rw [event] at read
  exact read

/-- Making the incident's row, if it has an id. -/
theorem wp_ensured {rest : Unit → Auto Unit}
    (holds : ((ensureIncident ev.incidentId ev.service ts ev.title).bind rest).wp
      (replaying (TooOld ts) kept) (fun _ after => kept after) world)
    (named : world.incidents.lookup ev.incidentId = none → ev.incidentId ≠ "")
    (open' : ∀ row, world.incidents.lookup ev.incidentId = some row →
      row.briefDeliveredAt = none ∧ row.briefDueAt = none) :
    ∃ after row, (rest ()).wp (replaying (TooOld ts) kept) (fun _ last => kept last) after ∧
      after.incidents.lookup ev.incidentId = some row ∧ row.briefDeliveredAt = none ∧
        row.briefDueAt = none := by
  by_cases unnamed : ev.incidentId = ""
  · cases found : world.incidents.lookup ev.incidentId with
    | none => exact absurd unnamed (named found)
    | some row =>
      unfold ensureIncident at holds
      rw [if_pos unnamed] at holds
      exact ⟨world, row, holds, found, open' row found⟩
  · unfold ensureIncident at holds
    rw [if_neg unnamed] at holds
    have ordered : ((sql (.ensureIncident ev.incidentId ev.title ts ev.service)).bind fun _ =>
        (ask (.ensureService ev.incidentId ev.service)).bind rest).wp
          (replaying (TooOld ts) kept) (fun _ after => kept after) world := by
      rw [← Prog.bind_assoc]
      exact holds
    have made := wp_statement ordered
    have answers : ∀ message, (Except.ok () : Except Exn Unit) ≠ .error (.budgetExhausted message) :=
      fun message => by simp
    have serviced := made.2 (.ok ()) (world.executed () _) ⟨⟨world.now, le_refl _, answers, rfl⟩, trivial⟩
    have target : (Stmt.ensureIncident ev.incidentId ev.title ts ev.service).target =
        some ev.incidentId := rfl
    have there : (world.executed ()
        (.ensureIncident ev.incidentId ev.title ts ev.service)).incidents.lookup ev.incidentId =
          ((world.incidents.lookup ev.incidentId).map fun row =>
            (Stmt.ensureIncident ev.incidentId ev.title ts ev.service).change world.now row).or
              (Stmt.ensureIncident ev.incidentId ev.title ts ev.service).insert := by
      show ((Stmt.ensureIncident ev.incidentId ev.title ts ev.service).exec world.now
        world.incidents).2.lookup ev.incidentId = _
      rw [lookup_exec, if_pos target]
    cases found : world.incidents.lookup ev.incidentId with
    | none =>
      rw [found] at there
      exact ⟨_, _, serviced, there, rfl, rfl⟩
    | some row =>
      rw [found] at there
      exact ⟨_, _, serviced, there, open' row found⟩

end Exactly

/-- **An old event schedules nothing exactly when it is spared.** -/
theorem old_event_spares_iff {config : Config} {raw : RawLifecycle} {ev : LifecycleEvent}
    {ts : Time} (decoded : LifecycleEvent.fromJson raw = .ok ev)
    (stamp : config.parseTs ev.ts = some ts) (world : World Unit) :
    NeverSchedules config raw ts world ↔ Spares world.incidents ev ts := by
  constructor
  · intro holds progress
    by_contra unspared
    rw [not_or] at unspared
    obtain ⟨fresh, busy⟩ := unspared
    have notOpened : ev.type ≠ "opened" := by
      rw [progress]
      decide
    unfold NeverSchedules handleLifecycle at holds
    rw [decoded] at holds
    have branch : (handleInProgress config ev).wp
        (replaying (TooOld ts) fun after => Unscheduled world.incidents after.incidents)
        (fun _ after => Unscheduled world.incidents after.incidents) world := by
      have chosen : (if ev.type = "opened" then handleOpened config ev
          else if ev.type = "in_progress" then handleInProgress config ev
          else if ev.type = "resolved" then handleResolved config ev else pure ()) =
            handleInProgress config ev := by
        rw [if_neg notOpened, if_pos progress]
      rw [← chosen]
      exact holds
    have inTime : ∀ row, world.incidents.lookup ev.incidentId = some row → row.openedAt ≤ ts :=
      fun row found => not_lt.mp fun stale => fresh ⟨row, found, stale⟩
    have open' : ∀ row, world.incidents.lookup ev.incidentId = some row →
        row.briefDeliveredAt = none ∧ row.briefDueAt = none := by
      intro row found
      constructor
      · by_contra posted
        exact busy (Or.inl ⟨row, found, Or.inr (Option.isSome_iff_ne_none.mpr posted)⟩)
      · by_contra due
        exact busy (Or.inl ⟨row, found, Or.inl (Option.isSome_iff_ne_none.mpr due)⟩)
    obtain ⟨after, row, rest, found, unposted, undue⟩ :=
      wp_ensured (wp_scheduling stamp inTime branch)
        (fun missing unnamed => busy (Or.inr ⟨missing, unnamed⟩)) open'
    have scheduled := (wp_statement rest).1 ev.incidentId
      { row with briefDueAt := some (after.now + config.window) } (after.now + config.window) ?_ rfl
    · obtain ⟨before, was, due⟩ := scheduled
      rw [(open' before was).2] at due
      exact absurd due.symm (Option.some_ne_none _)
    · show ((Stmt.schedule config.window ev.incidentId).exec after.now
        after.incidents).2.lookup ev.incidentId = _
      have target : (Stmt.schedule config.window ev.incidentId).target = some ev.incidentId := rfl
      rw [lookup_exec, if_pos target, found]
      simp [Stmt.change, unposted, undue]
  · intro spares
    exact wp_handleLifecycle_spared (lasting_unscheduled world.incidents) decoded stamp spares
      (Unscheduled.refl _)

/-! ### Draining while nothing is due -/

/-- No brief is due, now or later. -/
def NoneDue (table : Incidents) : Prop :=
  ∀ incidentId row, table.lookup incidentId = some row → row.owed .brief = true →
    (row.delivered .brief).isSome

/-- Since `before` no brief has been posted. -/
def NoBriefSince (before log : List Entry) : Prop :=
  ∀ incidentId thread, .posted incidentId .brief thread ∈ log →
    .posted incidentId .brief thread ∈ before

/-- No brief is due and none was posted. -/
def Silent (before : List Entry) (world : World Unit) : Prop :=
  NoneDue world.incidents ∧ NoBriefSince before world.log

theorem NoneDue.exec {stmt : Stmt} {now : Time} {table : Incidents} (none : NoneDue table)
    (unscheduled : Unscheduled table (stmt.exec now table).2) :
    NoneDue (stmt.exec now table).2 := by
  intro incidentId row' found' owed
  obtain ⟨due, here⟩ := Option.isSome_iff_exists.mp owed
  obtain ⟨row, found, there⟩ := unscheduled incidentId row' due found' here
  have delivered := none incidentId row found (Option.isSome_iff_exists.mpr ⟨due, there⟩)
  obtain ⟨later, found'', owes⟩ := keeps_exec stmt now table incidentId row found
  rw [found'] at found''
  obtain rfl := Option.some_injective _ found''
  exact owes.delivered .brief delivered

theorem noBriefSince_of_calls {before : List Entry} {world after : World Unit} {op : Op}
    {answer : Except Exn op.Ans} (calls : world.Calls () op answer after)
    (others : ∀ incidentId findings thread, op ≠ .deliver incidentId .brief findings thread)
    (none : NoBriefSince before world.log) : NoBriefSince before after.log := by
  intro about under member
  rcases log_of_calls calls with same | ⟨incidentId, slot, slackTs, grown⟩ |
    ⟨incidentId, slot, findings, thread, rfl, grown⟩
  · rw [same] at member
    exact none about under member
  · rw [grown] at member
    rcases List.mem_cons.mp member with impossible | earlier
    · exact absurd impossible (by simp)
    · exact none about under earlier
  · rw [grown] at member
    rcases List.mem_cons.mp member with newest | earlier
    · obtain ⟨-, rfl, -⟩ := Entry.posted.inj newest
      exact absurd rfl (others incidentId findings thread)
    · exact none about under earlier

/-- Silence lasts. -/
theorem lasting_silent (before : List Entry) : Lasting (Silent before) where
  calm op calm world now answer after held calls := by
    refine ⟨?_, noBriefSince_of_calls calls ?_ held.2⟩
    · rcases incidents_of_calls calls with same | ⟨stmt, rfl, eq⟩
      · rw [same]
        exact held.1
      · rw [eq]
        refine NoneDue.exec held.1 (unscheduled_exec ?_ now world.incidents)
        cases stmt <;> first | exact calm.elim | exact id
    · rintro incidentId findings thread rfl
      exact calm.elim
  schedule window incidentId world now answer after held spent calls := by
    refine ⟨?_, noBriefSince_of_calls calls (by simp) held.2⟩
    rcases calls with ⟨-, rfl⟩ | ⟨message, -, rfl | rfl⟩
    · exact NoneDue.exec held.1 (unscheduled_schedule spent window now)
    · exact held.1
    · exact NoneDue.exec held.1 (unscheduled_schedule spent window now)

theorem dueSql_eq_nil {table : Incidents} (none : NoneDue table) (now : Time) :
    dueSql now table = [] := by
  unfold dueSql
  rw [List.map_eq_nil_iff, List.eq_nil_iff_forall_not_mem]
  intro entry member
  obtain ⟨found, due⟩ := Table.mem_select.mp member
  unfold isDue at due
  rw [Bool.and_eq_true, Option.isNone_iff_eq_none] at due
  have owed : entry.2.owed .brief = true := by
    cases stamp : entry.2.briefDueAt with
    | none => simp [stamp] at due
    | some at' => exact Option.isSome_iff_exists.mpr ⟨at', stamp⟩
  have delivered : entry.2.briefDeliveredAt.isSome = true := none entry.1 entry.2 found owed
  rw [due.2] at delivered
  exact absurd delivered (by simp)

theorem isCalm_of_isRead (op : Op) (read : IsRead op) : IsCalm op :=
  (isTame_of_isRead op read).1

theorem deliverDeferred_calm {kind : Followup} {incidentId : String}
    {gathered : String → Auto Findings} {release mark : Auto Unit}
    (gathers : ∀ service, (gathered service).Uses IsRead) (releases : release.Uses IsCalm)
    (marks : mark.Uses IsCalm) :
    (deliverDeferred kind incidentId gathered release mark).Uses IsCalm := by
  refine Prog.uses_bind (Prog.uses_perform trivial) fun row => ?_
  cases row with
  | none => exact Prog.uses_ret false
  | some found =>
    refine Prog.uses_bind (uses_onError ?_ releases) fun _ =>
      Prog.uses_bind marks fun _ => Prog.uses_ret true
    refine Prog.uses_bind (Prog.uses_mono isCalm_of_isRead (gathers found.1)) fun findings => ?_
    exact Prog.uses_bind (Prog.uses_perform trivial) fun _ => Prog.uses_ret ()

theorem deliverPending_calm (config : Config) (incidentId : String) :
    (deliverPending config incidentId).Uses IsCalm := by
  have progress : (deliverDeferredProgress config incidentId).Uses IsCalm :=
    deliverDeferred_calm (fun _ => gatherFindings_uses _ _ _ _ _) (Prog.uses_perform trivial)
      (Prog.uses_perform trivial)
  have postmortem : (deliverDeferredPostmortem config incidentId).Uses IsCalm :=
    deliverDeferred_calm (fun _ => gatherPostmortem_uses _ _ _) (Prog.uses_perform trivial)
      (Prog.uses_perform trivial)
  exact Prog.uses_bind progress fun _ => Prog.uses_bind postmortem fun _ => Prog.uses_ret _

theorem drainFollowups_calm (config : Config) (pending : List String) :
    (drainFollowups config pending).Uses IsCalm := by
  induction pending with
  | nil => exact Prog.uses_ret 0
  | cons incidentId later ih =>
    refine Prog.uses_bind (Prog.uses_attempt (deliverPending_calm config incidentId)) ?_
    intro outcome
    cases outcome with
    | ok delivered => exact Prog.uses_bind ih fun _ => Prog.uses_ret _
    | error exn =>
      cases exn with
      | budgetExhausted message => exact Prog.uses_ret 0
      | error message => exact Prog.uses_raise _

/-- **With nothing due a drain briefs nobody**: it finds an empty list, and the pending follow-ups
are no briefs. -/
theorem wp_drainDueBriefs_silent {late : Time → Prop} {before : List Entry} (config : Config)
    {world : World Unit} (silent : Silent before world) :
    (drainDueBriefs config).wp (replaying late (Silent before)) (fun _ after => Silent before after)
      world := by
  refine ⟨silent, fun answer after step => ?_⟩
  obtain ⟨⟨now, -, calls⟩, -⟩ := step
  have still := (lasting_silent before).calm (.sql (.due config.limit)) trivial world now answer
    after silent calls
  rcases calls with ⟨rfl, -⟩ | ⟨message, rfl, -⟩
  · have empty : ((Stmt.due config.limit).exec now world.incidents).1 = [] := by
      show (dueSql now world.incidents).take config.limit = []
      rw [dueSql_eq_nil silent.1 now, List.take_nil]
    show ((drainBriefs config ((Stmt.due config.limit).exec now world.incidents).1).bind _).wp _ _
      after
    rw [empty]
    have followups : (drainPendingFollowups config).Uses IsCalm :=
      Prog.uses_bind (Prog.uses_perform trivial) fun pending => drainFollowups_calm config pending
    show ((drainPendingFollowups config).bind fun _ => .ret 0).wp _ _ after
    exact wp_of_calm (lasting_silent before)
      (Prog.uses_bind followups fun _ => Prog.uses_ret 0) still
  · exact still

/-! ### Sequences -/

/-- **A replay**: old events, each spared where its handling starts, and drains. Any of them may be
cut short. -/
inductive Replay (first : World Unit) : World Unit → Prop
  | none : Replay first first
  | event {before after : World Unit} {config : Config} {raw : RawLifecycle} {ev : LifecycleEvent}
      {ts : Time} {rest : Auto Unit} (earlier : Replay first before)
      (decoded : LifecycleEvent.fromJson raw = .ok ev) (stamp : config.parseTs ev.ts = some ts)
      (spared : Spares before.incidents ev ts)
      (handling : Prog.Steps (replaying (TooOld ts) fun _ => True) (handleLifecycle config raw)
        before rest after) : Replay first after
  | drain {before after : World Unit} {config : Config} {rest : Auto Nat}
      (earlier : Replay first before)
      (draining : Prog.Steps (replaying (fun _ => True) fun _ => True) (drainDueBriefs config)
        before rest after) : Replay first after

/-- What one life of a program that keeps silence leaves. -/
theorem silent_of_steps {α : Type} {late : Time → Prop} {before : List Entry}
    {program rest : Auto α} {world after : World Unit}
    (holds : program.wp (replaying late (Silent before)) (fun _ after => Silent before after) world)
    (life : Prog.Steps (replaying late fun _ => True) program world rest after) :
    Silent before after := by
  have allowed : ∀ op s answer after, (replaying late fun _ => True).step op s answer after →
      (replaying late (Silent before)).step op s answer after := fun _ _ _ _ step => step
  have run := life.mono allowed
  exact Prog.kept_of_steps (fun _ _ held => held) (fun _ _ held => held) holds run

theorem silent_of_replay {first last : World Unit} (replay : Replay first last)
    (none : NoneDue first.incidents) : Silent first.log last := by
  induction replay with
  | none => exact ⟨none, fun _ _ => id⟩
  | event earlier decoded stamp spared handling ih =>
    exact silent_of_steps
      (wp_handleLifecycle_spared (lasting_silent first.log) decoded stamp spared ih) handling
  | drain earlier draining ih =>
    exact silent_of_steps (wp_drainDueBriefs_silent _ ih) draining

/-- **An old event schedules nothing exactly when it is spared, and a replay of spared events briefs
nobody.** -/
theorem replay_never_briefs {config : Config} {raw : RawLifecycle} {ev : LifecycleEvent} {ts : Time}
    {world first last : World Unit} (decoded : LifecycleEvent.fromJson raw = .ok ev)
    (stamp : config.parseTs ev.ts = some ts) (replay : Replay first last)
    (none : NoneDue first.incidents) :
    (NeverSchedules config raw ts world ↔ Spares world.incidents ev ts) ∧
      NoneDue last.incidents ∧ NoBriefSince first.log last.log :=
  ⟨old_event_spares_iff decoded stamp world, silent_of_replay replay none⟩

/-! ### The branch without the guard -/

/-- Everything succeeds, thirty hours after the event. -/
def serveLate : (op : Op) → World Unit → Except Exn op.Ans × World Unit
  | .utcNow, world => (.ok (seconds 108000), world)
  | op, world => world.serve calmReply () op

theorem replaying_serveLate (op : Op) (world : World Unit) :
    (replaying (TooOld 0) fun _ => True).step op world (serveLate op world).1
      (serveLate op world).2 := by
  have calls : ({ world with now := world.now } : World Unit).Calls () op (serveLate op world).1
      (serveLate op world).2 := by
    cases op with
    | utcNow => exact ⟨fun _ => by simp [serveLate], rfl⟩
    | _ => exact World.calls_serve calmReply () _ world
  refine ⟨⟨world.now, le_refl _, calls⟩, ?_⟩
  cases op with
  | utcNow =>
    show seconds 108000 - 0 > seconds maxBriefAgeS
    decide
  | _ => trivial

/-- An old opening handled, then a drain. -/
def replayedOpening : World Unit :=
  ((drainDueBriefs calmConfig).run serveLate
    ((handleLifecycle calmConfig (calmEvent "opened")).run serveLate
      (World.init (seconds 108000))).2).2

theorem replay_never_briefs_replayedOpening :
    NeverSchedules calmConfig (calmEvent "opened") 0 (World.init 0) ∧
      NoneDue replayedOpening.incidents ∧ NoBriefSince [] replayedOpening.log := by
  have decoded : LifecycleEvent.fromJson (calmEvent "opened") = .ok (calmLifecycle "opened") := rfl
  have stamp : calmConfig.parseTs (calmLifecycle "opened").ts = some 0 := rfl
  have spared : ∀ table : Incidents, Spares table (calmLifecycle "opened") 0 :=
    fun table progress => absurd progress (by decide)
  have opening : Replay (World.init (seconds 108000)) _ :=
    .event .none decoded stamp (spared _) (Prog.steps_run _ _ replaying_serveLate)
  have draining : ∀ op world, (replaying (fun _ => True) fun _ => True).step op world
      (serveLate op world).1 (serveLate op world).2 := by
    intro op world
    refine ⟨(replaying_serveLate op world).1, ?_⟩
    cases op with
    | utcNow => exact trivial
    | _ => trivial
  have drained : Replay (World.init (seconds 108000)) replayedOpening :=
    .drain opening (Prog.steps_run (drainDueBriefs calmConfig) _ draining)
  have none : NoneDue (World.init (W := Unit) (seconds 108000)).incidents :=
    fun incidentId row found => absurd found.symm (Option.some_ne_none row)
  obtain ⟨iff, silent⟩ := replay_never_briefs decoded stamp drained none
  exact ⟨iff.mpr (spared _), silent⟩

/-- **An in-progress update thirty hours old, of an incident nobody knew, is briefed.** -/
theorem old_progress_briefed :
    ¬ NeverSchedules calmConfig (calmEvent "in_progress") 0 (World.init (seconds 108000)) ∧
    ∃ last rest, Prog.Steps (replaying (TooOld 0) fun _ => True)
        (handleAndDrain calmConfig (calmEvent "in_progress")) (World.init (seconds 108000)) rest
        last ∧
      Entry.posted "inc" .brief none ∈ last.log := by
  constructor
  · intro never
    have spared := (@old_event_spares_iff calmConfig (calmEvent "in_progress") _ 0 rfl rfl
      (World.init (seconds 108000))).mp never
    rcases spared rfl with ⟨row, found, -⟩ | ⟨row, found, -⟩ | ⟨-, unnamed⟩
    · exact absurd found.symm (Option.some_ne_none row)
    · exact absurd found.symm (Option.some_ne_none row)
    · exact absurd unnamed (by decide)
  · exact ⟨_, _, Prog.steps_run _ _ replaying_serveLate, by decide⟩

end Freshet.Autopilot
