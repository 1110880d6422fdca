/-
**Opened and resolved, in any order.**

The `opened` handler makes the incident's row and schedules its brief. The `resolved` handler only
updates the row: before there is one, its `UPDATE`s match nothing and the event leaves no trace.

* `wp_handleOpened`, `wp_handleResolved`: what each handler has established when it returns, whatever
  the other workers do between its statements;
* `brief_then_postmortem`: if a `resolved` event is handled when the row is there, the run ends with
  one brief and one postmortem as soon as nothing is owed;
* `postmortem_lost`: a run in which the `resolved` event comes first and no postmortem is ever
  posted.
-/

import Freshet.Autopilot.AtMostOnce
import Freshet.Autopilot.Owed

set_option linter.unusedSectionVars false

namespace Freshet.Autopilot

open Freshet.Lib

section Order

variable {W : Type} [DecidableEq W]

/-- The application's clock is the server's. -/
def Clocked (world : World W) : (op : Op) → Except Exn op.Ans → Prop
  | .utcNow, answer => answer = .ok world.now
  | _, _ => True

variable (W) in
/-- **The workers of `promptly`, with one clock.** -/
def onTime : System sig Exn (World W) W :=
  { promptly W with
    step := fun worker op world answer after =>
      (promptly W).step worker op world answer after ∧ Clocked world op answer }

theorem onTime_reaches_promptly {first last : Pool sig Exn (World W) W}
    (run : Pool.Reaches (onTime W) first last) : Pool.Reaches (promptly W) first last :=
  @Pool.reaches_mono _ _ _ _ _ (onTime W) (promptly W) _ _ (fun _ _ job => job)
    (fun _ _ _ _ _ step => step.1) (fun _ _ moved => moved) (fun _ _ killed => killed) run

/-! ### What the other workers may do -/

/-- Nothing is dropped and time goes on. -/
structure Later (world after : World W) : Prop where
  keeps : Keeps world.incidents after.incidents
  now : world.now ≤ after.now

theorem now_of_calls {world after : World W} {worker : W} {op : Op} {answer : Except Exn op.Ans}
    (calls : world.Calls worker op answer after) : after.now = world.now := by
  cases op with
  | sql stmt => rcases calls with ⟨-, rfl⟩ | ⟨message, -, rfl | rfl⟩ <;> rfl
  | deliver incidentId slot findings thread =>
    rcases calls with ⟨ts, -, rfl⟩ | ⟨message, -, rfl⟩ <;> rfl
  | compose question hits => obtain rfl := calls; rfl
  | _ => obtain ⟨-, rfl⟩ := calls; rfl

theorem within_later : Pool.Within (onTime W) Later where
  refl world := ⟨.refl _, le_refl _⟩
  trans one two := ⟨one.keeps.trans two.keeps, le_trans one.now two.now⟩
  call worker op world answer after step := by
    refine ⟨?_, le_of_eq (now_of_calls step.1.1).symm⟩
    rcases incidents_of_calls step.1.1 with same | ⟨stmt, -, eq⟩
    · rw [same]
      exact .refl _
    · rw [eq]
      exact keeps_exec stmt _ _
  env world after := by
    rintro ⟨now, later, rfl, -⟩
    exact ⟨.refl _, later⟩

/-- The incident has a row. -/
def Present (incidentId : String) (world : World W) : Prop :=
  ∃ row, world.incidents.lookup incidentId = some row

/-- The incident has a row, opened no later than `latest`. -/
def OpenedBy (incidentId : String) (latest : Time) (world : World W) : Prop :=
  ∃ row, world.incidents.lookup incidentId = some row ∧ row.openedAt ≤ latest

theorem Present.later {incidentId : String} {world after : World W}
    (present : Present incidentId world) (grown : Later world after) : Present incidentId after := by
  obtain ⟨row, found⟩ := present
  obtain ⟨row', found', -⟩ := grown.keeps incidentId row found
  exact ⟨row', found'⟩

theorem OpenedBy.later {incidentId : String} {latest : Time} {world after : World W}
    (opened : OpenedBy incidentId latest world) (grown : Later world after) :
    OpenedBy incidentId latest after := by
  obtain ⟨row, found, bound⟩ := opened
  obtain ⟨row', found', owes⟩ := grown.keeps incidentId row found
  exact ⟨row', found', by rw [owes.opened]; exact bound⟩

/-! ### The handlers under interference -/

section Handlers

variable {worker : W}

/-- One call, after whatever the others did. -/
theorem wp_call {op : Op} {post : Except Exn op.Ans → World W → Prop} {world : World W}
    (done : ∀ before answer after, Later world before →
      (onTime W).step worker op before answer after → post answer after) :
    (ask op).wp ((onTime W).rely Later worker) post world := by
  refine Prog.wp_perform.mpr ⟨trivial, ?_⟩
  rintro answer after ⟨before, grown, step⟩
  exact done before answer after grown step

/-- One statement: it fails, or it has run on the table the others left. -/
theorem wp_stmt {stmt : Stmt} {post : Except Exn stmt.Ans → World W → Prop} {world : World W}
    (done : ∀ before, Later world before →
      post (.ok (stmt.exec before.now before.incidents).1) (before.executed worker stmt))
    (failed : ∀ exn after, post (.error exn) after) :
    (sql stmt).wp ((onTime W).rely Later worker) post world := by
  refine wp_call fun before answer after grown step => ?_
  rcases step.1.1 with ⟨rfl, rfl⟩ | ⟨message, rfl, -⟩
  · exact done before grown
  · exact failed _ _

/-- The event's timestamp is the parsed one, or the time of asking. -/
theorem wp_eventTs {config : Config} {ev : LifecycleEvent}
    {post : Except Exn Time → World W → Prop} {world : World W}
    (parsed : ∀ ts, config.parseTs ev.ts = some ts → post (.ok ts) world)
    (asked : ∀ after, config.parseTs ev.ts = none → Later world after →
      post (.ok after.now) after) :
    (eventTs config ev).wp ((onTime W).rely Later worker) post world := by
  unfold eventTs
  cases stamp : config.parseTs ev.ts with
  | some ts => exact parsed ts stamp
  | none =>
    refine wp_call fun before answer after grown step => ?_
    obtain ⟨⟨calls, -⟩, clocked⟩ := step
    obtain ⟨-, rfl⟩ := calls
    obtain rfl : answer = .ok after.now := clocked
    exact asked after stamp grown

/-- The post-condition of a program: an exception promises nothing. -/
def Returns {α : Type} (kept : α → World W → Prop) : Except Exn α → World W → Prop
  | .ok value, after => kept value after
  | .error _, _ => True

theorem wp_returns_mono {α : Type} {program : Auto α} {kept weaker : α → World W → Prop}
    {world : World W} (implies : ∀ value after, kept value after → weaker value after)
    (holds : program.wp ((onTime W).rely Later worker) (Returns kept) world) :
    program.wp ((onTime W).rely Later worker) (Returns weaker) world := by
  refine Prog.wp_mono ?_ holds
  rintro (exn | value) after kept
  · trivial
  · exact implies value after kept

/-- The rule for sequencing under interference. -/
theorem wp_then {α β : Type} {first : Auto α} {next : α → Auto β} (middle : α → World W → Prop)
    {kept : β → World W → Prop} {here : World W}
    (start : first.wp ((onTime W).rely Later worker) (Returns middle) here)
    (rest : ∀ value after, middle value after →
      (next value).wp ((onTime W).rely Later worker) (Returns kept) after) :
    (first.bind next).wp ((onTime W).rely Later worker) (Returns kept) here := by
  refine Prog.wp_bind.mpr (Prog.wp_mono ?_ start)
  rintro (exn | value) after holds
  · trivial
  · exact rest value after holds

/-- What is established stays so, whatever the rest of a program does. -/
theorem wp_established {α : Type} {program : Auto α} {kept : World W → Prop} {world : World W}
    (stable : ∀ world after : World W, kept world → Later world after → kept after)
    (here : kept world) :
    program.wp ((onTime W).rely Later worker) (Returns fun _ => kept) world := by
  refine Prog.wp_mono ?_ (Pool.wp_rely_of_stable within_later stable here)
  rintro (exn | value) after kept
  · trivial
  · exact kept

/-! ### The handlers -/

/-- `ensure_incident` leaves a row. -/
theorem wp_ensureIncident {incidentId service title : String} {openedAt : Time}
    {world : World W} (named : incidentId ≠ "") :
    (ensureIncident incidentId service openedAt title).wp ((onTime W).rely Later worker)
      (Returns fun _ => Present incidentId) world := by
  unfold ensureIncident
  rw [if_neg named]
  refine Prog.wp_bind.mpr (wp_stmt (fun before _ => ?_) fun _ _ => trivial)
  refine wp_established (fun _ _ => Present.later) ?_
  simp only [Present, World.executed, lookup_exec, Stmt.target, if_true, Stmt.insert]
  cases before.incidents.lookup incidentId with
  | none => exact ⟨_, rfl⟩
  | some row => exact ⟨_, rfl⟩

/-- A statement that secures a slot of every row it meets does so where there is a row. -/
theorem wp_secure {stmt : Stmt} {incidentId : String} {slot : Slot} {world : World W}
    (target : stmt.target = some incidentId)
    (secures : ∀ now row, (stmt.change now row).owed slot = true ∨
      ((stmt.change now row).delivered slot).isSome)
    (present : Present incidentId world) :
    (sql stmt).wp ((onTime W).rely Later worker) (Returns fun _ after => Secured after.incidents incidentId slot)
      world := by
  refine wp_stmt (fun before grown => ?_) fun _ _ => trivial
  obtain ⟨row, found⟩ := present.later grown
  refine ⟨stmt.change before.now row, ?_, secures before.now row⟩
  simp [World.executed, lookup_exec, target, found]

/-- **A fresh opening secures the brief.** -/
theorem wp_handleOpened {config : Config} {ev : LifecycleEvent} {incidentId : String}
    {world : World W} (about : ev.incidentId = incidentId) (named : incidentId ≠ "") :
    (handleOpened config ev).wp ((onTime W).rely Later worker)
      (Returns fun _ after =>
        (∀ ts, config.parseTs ev.ts = some ts → after.now ≤ ts + seconds maxBriefAgeS) →
          Secured after.incidents incidentId .brief) world := by
  subst about
  refine wp_then (fun now after => now = after.now) ?_ ?_
  · refine wp_call fun before answer after grown step => ?_
    obtain ⟨⟨calls, -⟩, clocked⟩ := step
    obtain ⟨-, rfl⟩ := calls
    obtain rfl : answer = .ok after.now := clocked
    rfl
  rintro _ world rfl
  refine wp_then (fun ts after => (config.parseTs ev.ts = some ts ∨ ts = after.now) ∧
    world.now ≤ after.now) ?_ ?_
  · exact wp_eventTs (fun ts stamp => ⟨Or.inl stamp, le_refl _⟩)
      (fun after _ grown => ⟨Or.inr rfl, grown.now⟩)
  rintro ts after ⟨stamp, later⟩
  split_ifs with old
  · intro fresh
    rcases stamp with stamp | rfl
    · have bound := fresh ts stamp
      exact absurd (Int.sub_right_le_of_le_add (Int.add_comm .. ▸ le_trans later bound))
        (not_le.mpr old)
    · exact absurd (le_trans (Int.sub_nonpos_of_le later) (by decide)) (not_le.mpr old)
  refine wp_then (fun _ _ => True) (wp_established (fun _ _ _ _ => trivial) trivial) ?_
  intro openedAt world _
  refine wp_then (fun _ => Present ev.incidentId) (wp_ensureIncident named) ?_
  intro _ world present
  refine wp_returns_mono (fun _ _ secured _ => secured) ?_
  exact wp_secure rfl (schedule_secures config.window ev.incidentId) present

/-- **A resolution secures the postmortem of an incident whose row is there.** -/
theorem wp_handleResolved {config : Config} {ev : LifecycleEvent} {incidentId : String}
    {world : World W} (about : ev.incidentId = incidentId)
    (known : OpenedBy incidentId ((config.parseTs ev.ts).getD world.now) world) :
    (handleResolved config ev).wp ((onTime W).rely Later worker)
      (Returns fun _ after => Secured after.incidents incidentId (.followup .postmortem)) world := by
  subst about
  refine wp_then (OpenedBy ev.incidentId) ?_ ?_
  · refine wp_eventTs (fun ts stamp => ?_) (fun after unstamped grown => ?_)
    · simpa [Returns, stamp] using known
    · obtain ⟨row, found, bound⟩ := known.later grown
      refine ⟨row, found, le_trans bound ?_⟩
      simpa [unstamped] using grown.now
  intro ts world opened
  refine Prog.wp_bind.mpr (wp_stmt (fun before grown => ?_) fun _ _ => trivial)
  obtain ⟨row, found, bound⟩ := opened.later grown
  have inTime : (((Stmt.getOpenedAt ev.incidentId).exec before.now before.incidents).1).any
      (fun openedAt => decide (ts < openedAt)) = false := by
    simp [Stmt.exec, getOpenedAtSql, found, bound]
  have present : Present ev.incidentId (before.executed worker (.getOpenedAt ev.incidentId)) :=
    ⟨row, found⟩
  simp only [inTime]
  refine wp_then (fun _ => Present ev.incidentId) (wp_established (fun _ _ => Present.later) present)
    ?_
  intro _ world present
  refine wp_then (fun _ after => Secured after.incidents ev.incidentId (.followup .postmortem))
    (wp_secure rfl (defer_secures .postmortem ev.incidentId) present) ?_
  exact fun _ world secured => wp_established (fun _ _ here grown => here.keeps grown.keeps) secured

/-- The lifecycle record a job handles. -/
def Job.record : Job → Option (Config × RawLifecycle)
  | .handleLifecycle config raw | .handleAndDrain config raw => some (config, raw)
  | _ => none

/-- What handling a record establishes, the drain after it keeps. -/
theorem wp_job {job : Job} {config : Config} {raw : RawLifecycle}
    (record : job.record = some (config, raw)) {kept : World W → Prop} {world : World W}
    (stable : ∀ world after : World W, kept world → Later world after → kept after)
    (handled : (handleLifecycle config raw).wp ((onTime W).rely Later worker)
      (Returns fun _ => kept) world) :
    job.program.wp ((onTime W).rely Later worker) (Returns fun _ => kept) world := by
  cases job with
  | handleLifecycle config' raw' =>
    cases record
    exact handled
  | handleAndDrain config' raw' =>
    cases record
    refine wp_then (fun _ => kept) ?_ fun _ after here => here
    exact wp_then (fun _ => kept) handled fun _ _ here => wp_established stable here
  | _ => cases record

end Handlers

/-! ### Whole runs -/

/-- A run to `final` in which a worker handles, to its end, a record of the incident. -/
structure Handling (start : Time) (type incidentId : String)
    (final : Pool sig Exn (World W) W) where
  worker : W
  job : Job
  config : Config
  raw : RawLifecycle
  ev : LifecycleEvent
  before : Pool sig Exn (World W) W
  after : Pool sig Exn (World W) W
  record : job.record = some (config, raw)
  decoded : LifecycleEvent.fromJson raw = .ok ev
  typed : ev.type = type
  about : ev.incidentId = incidentId
  reached : Pool.Reaches (onTime W) (Pool.idle (World.init start)) before
  handles : Pool.Handles (onTime W) worker job.program before after
  rest : Pool.Reaches (onTime W) after final

/-- Exactly one brief and one postmortem, the brief first. -/
def BriefThenPostmortem (log : List Entry) (incidentId : String) : Prop :=
  log.countP (Entry.isPost incidentId .brief) = 1 ∧
  log.countP (Entry.isPost incidentId (.followup .postmortem)) = 1 ∧
  ∀ newer older thread, log = newer ++ .posted incidentId (.followup .postmortem) thread :: older →
    older.countP (Entry.isPost incidentId .brief) = 1

namespace Handling

variable {start : Time} {type incidentId : String} {final : Pool sig Exn (World W) W}

theorem reaches_after (handling : Handling start type incidentId final) :
    Pool.Reaches (onTime W) (Pool.idle (World.init start)) final :=
  (handling.reached.trans (handling.handles.reaches ⟨handling.job, rfl⟩)).trans handling.rest

/-- What the handler establishes is there at the end of the run. -/
theorem holds_final (handling : Handling start type incidentId final) {kept : World W → Prop}
    (stable : ∀ world after : World W, kept world → Later world after → kept after)
    (handled : (handleLifecycle handling.config handling.raw).wp
      ((onTime W).rely Later handling.worker) (Returns fun _ => kept) handling.before.shared) :
    kept handling.after.shared := by
  refine Pool.handles_post within_later handling.handles ?_ (wp_job handling.record stable handled)
  rintro (exn | value) world after here grown
  · trivial
  · exact stable world after here grown

theorem later_final (handling : Handling start type incidentId final) :
    Later handling.after.shared final.shared :=
  Pool.shared_relation handling.rest within_later.refl within_later.trans within_later.call
    within_later.env

/-- No incident has an empty id. -/
theorem named (handling : Handling start type incidentId final) {row : Row}
    (found : handling.before.shared.incidents.lookup incidentId = some row) : incidentId ≠ "" := by
  rintro rfl
  obtain ⟨phases, ⟨-, unnamed⟩, -⟩ :=
    related_of_reaches (onTime_reaches_promptly handling.reached)
  rw [found] at unnamed
  cases unnamed

end Handling

theorem secured_of_opened {start : Time} {incidentId : String} {final : Pool sig Exn (World W) W}
    (named : incidentId ≠ "") (opened : Handling start "opened" incidentId final)
    (fresh : ∀ ts, opened.config.parseTs opened.ev.ts = some ts →
      opened.after.shared.now ≤ ts + seconds maxBriefAgeS) :
    Secured final.shared.incidents incidentId .brief := by
  refine Secured.keeps ?_ opened.later_final.keeps
  have handled : (handleLifecycle opened.config opened.raw).wp
      ((onTime W).rely Later opened.worker) (Returns fun _ after =>
        (∀ ts, opened.config.parseTs opened.ev.ts = some ts →
          after.now ≤ ts + seconds maxBriefAgeS) → Secured after.incidents incidentId .brief)
      opened.before.shared := by
    rw [handleLifecycle, opened.decoded]
    simp only [opened.typed, if_true]
    exact wp_handleOpened opened.about named
  refine opened.holds_final ?_ handled fresh
  intro world after secured grown late
  exact (secured fun ts stamp => le_trans grown.now (late ts stamp)).keeps grown.keeps

theorem secured_of_resolved {start : Time} {incidentId : String}
    {final : Pool sig Exn (World W) W} (resolved : Handling start "resolved" incidentId final)
    (known : OpenedBy incidentId
      ((resolved.config.parseTs resolved.ev.ts).getD resolved.before.shared.now)
      resolved.before.shared) :
    Secured final.shared.incidents incidentId (.followup .postmortem) := by
  refine Secured.keeps ?_ resolved.later_final.keeps
  have handled : (handleLifecycle resolved.config resolved.raw).wp
      ((onTime W).rely Later resolved.worker)
      (Returns fun _ after => Secured after.incidents incidentId (.followup .postmortem))
      resolved.before.shared := by
    rw [handleLifecycle, resolved.decoded]
    simp only [resolved.typed]
    exact wp_handleResolved resolved.about known
  exact resolved.holds_final (fun _ _ here grown => here.keeps grown.keeps) handled

/-- A secured slot that owes nothing has been posted once. -/
theorem posted_once {start : Time} {incidentId : String} {slot : Slot}
    {pool : Pool sig Exn (World W) W}
    (run : Pool.Reaches (onTime W) (Pool.idle (World.init start)) pool)
    (secured : Secured pool.shared.incidents incidentId slot)
    (settled : ∀ row, pool.shared.incidents.lookup incidentId = some row →
      row.owed slot = false) :
    pool.shared.log.countP (Entry.isPost incidentId slot) = 1 := by
  obtain ⟨phases, ⟨related, -⟩, -⟩ := related_of_reaches (onTime_reaches_promptly run)
  obtain ⟨row, found, owed | delivered⟩ := secured
  · rw [settled row found] at owed
    cases owed
  · obtain ⟨thread, member⟩ := related.delivered incidentId row slot found delivered
    refine le_antisymm (related.once incidentId slot) (List.countP_pos_iff.mpr ⟨_, member, ?_⟩)
    simp [Entry.isPost]

/-- **Opened and resolved in any order.** If some handling of the `resolved` event starts when the
incident's row is there, opened no later than the event, the run ends with exactly one brief and
exactly one postmortem, the brief first, as soon as the row owes neither. -/
theorem brief_then_postmortem {start : Time} {incidentId : String}
    {final : Pool sig Exn (World W) W} (opened : Handling start "opened" incidentId final)
    (fresh : ∀ ts, opened.config.parseTs opened.ev.ts = some ts →
      opened.after.shared.now ≤ ts + seconds maxBriefAgeS)
    (resolved : Handling start "resolved" incidentId final)
    (known : OpenedBy incidentId
      ((resolved.config.parseTs resolved.ev.ts).getD resolved.before.shared.now)
      resolved.before.shared)
    (settled : ∀ row, final.shared.incidents.lookup incidentId = some row →
      row.owed .brief = false ∧ row.owed (.followup .postmortem) = false) :
    BriefThenPostmortem final.shared.log incidentId := by
  have named : incidentId ≠ "" := by
    obtain ⟨row, found, -⟩ := known
    exact resolved.named found
  have run := opened.reaches_after
  have brief := posted_once run (secured_of_opened named opened fresh)
    fun row found => (settled row found).1
  have postmortem := posted_once run (secured_of_resolved resolved known)
    fun row found => (settled row found).2
  refine ⟨brief, postmortem, fun newer older thread split => ?_⟩
  obtain ⟨phases, ⟨related, -⟩, -⟩ := related_of_reaches (onTime_reaches_promptly run)
  have ordered := related.inOrder
  rw [split] at ordered
  have recorded : Entry.recorded incidentId .brief thread ∈ older := ordered.follows
  obtain ⟨between, oldest, rfl⟩ := List.append_of_mem recorded
  obtain ⟨under, member⟩ := ordered.tail.2.follows
  refine le_antisymm ?_ (List.countP_pos_iff.mpr
    ⟨.posted incidentId .brief under, List.mem_append_right _ (List.mem_cons_of_mem _ member), ?_⟩)
  · rw [split, List.countP_append, List.countP_cons] at brief
    exact le_trans (Nat.le_add_right _ _) (le_trans (Nat.le_add_left _ _) (le_of_eq brief))
  · simp [Entry.isPost]

end Order

/-! ### One worker handles both -/

/-- An undisturbed worker is one of the workers of `onTime`. -/
theorem onTime_serve {W : Type} [DecidableEq W] (reply : (op : Op) → op.Ans) (worker : W) (op : Op)
    (world : World W) :
    (onTime W).step worker op world (world.serve reply worker op).1
      (world.serve reply worker op).2 := by
  refine ⟨promptly_serve reply worker op world, ?_⟩
  cases op with
  | utcNow => rfl
  | _ => trivial

/-- The pool after the only worker has handled a job. -/
def handled (pool : Pool sig Exn (World Unit) Unit) (type : String) :
    Pool sig Exn (World Unit) Unit :=
  ⟨((calmJob type).program.run (fun op world => world.serve calmReply () op) pool.shared).2,
    Function.update pool.prog () (.ret ())⟩

theorem handles_handled {pool : Pool sig Exn (World Unit) Unit} {type : String}
    (free : (pool.prog ()).Finished)
    (returned : ((calmJob type).program.run (fun op world => world.serve calmReply () op)
      pool.shared).1 = .ok ()) :
    Pool.Handles (onTime Unit) () (calmJob type).program pool (handled pool type) :=
  Pool.handles_run free (onTime_serve calmReply ()) returned

/-- One worker handles two records, one after the other. -/
def twoHandled (first second : String) : Pool sig Exn (World Unit) Unit :=
  handled (handled (Pool.idle (World.init 0)) first) second

def firstHandling (first second : String)
    (returned : ((calmJob first).program.run (fun op world => world.serve calmReply () op)
      (World.init 0)).1 = .ok ())
    (returnedAfter : ((calmJob second).program.run (fun op world => world.serve calmReply () op)
      (handled (Pool.idle (World.init 0)) first).shared).1 = .ok ()) :
    Handling 0 first "inc" (twoHandled first second) where
  worker := ()
  job := calmJob first
  config := calmConfig
  raw := calmEvent first
  ev := calmLifecycle first
  before := Pool.idle (World.init 0)
  after := handled (Pool.idle (World.init 0)) first
  record := rfl
  decoded := rfl
  typed := rfl
  about := rfl
  reached := .refl
  handles := handles_handled trivial returned
  rest := (handles_handled (by simp [handled, Prog.Finished]) returnedAfter).reaches ⟨_, rfl⟩

def secondHandling (first second : String)
    (returned : ((calmJob first).program.run (fun op world => world.serve calmReply () op)
      (World.init 0)).1 = .ok ())
    (returnedAfter : ((calmJob second).program.run (fun op world => world.serve calmReply () op)
      (handled (Pool.idle (World.init 0)) first).shared).1 = .ok ()) :
    Handling 0 second "inc" (twoHandled first second) where
  worker := ()
  job := calmJob second
  config := calmConfig
  raw := calmEvent second
  ev := calmLifecycle second
  before := handled (Pool.idle (World.init 0)) first
  after := twoHandled first second
  record := rfl
  decoded := rfl
  typed := rfl
  about := rfl
  reached := (@handles_handled (Pool.idle (World.init 0)) first trivial returned).reaches ⟨_, rfl⟩
  handles := handles_handled (by simp [handled, Prog.Finished]) returnedAfter
  rest := .refl

theorem brief_then_postmortem_openedFirst :
    BriefThenPostmortem (twoHandled "opened" "resolved").shared.log "inc" := by
  refine brief_then_postmortem (firstHandling "opened" "resolved" (by rfl) (by rfl)) ?_
    (secondHandling "opened" "resolved" (by rfl) (by rfl)) ?_ ?_
  · rintro ts ⟨⟩
    decide
  · exact ⟨_, rfl, le_refl _⟩
  · rintro row ⟨⟩
    exact ⟨rfl, rfl⟩

/-- **The postmortem is lost when the resolution comes first.** The resolution finds no row and its
updates match nothing; the opening then makes the row and the drain posts the brief. Nothing is
owed, and there is no postmortem. -/
theorem postmortem_lost :
    ∃ (opened : Handling 0 "opened" "inc" (twoHandled "resolved" "opened"))
      (resolved : Handling 0 "resolved" "inc" (twoHandled "resolved" "opened")),
      opened.config.parseTs opened.ev.ts = resolved.config.parseTs resolved.ev.ts ∧
      (∀ ts, opened.config.parseTs opened.ev.ts = some ts →
        opened.after.shared.now ≤ ts + seconds maxBriefAgeS) ∧
      (∀ row, (twoHandled "resolved" "opened").shared.incidents.lookup "inc" = some row →
        row.owed .brief = false ∧ row.owed (.followup .postmortem) = false) ∧
      ¬ BriefThenPostmortem (twoHandled "resolved" "opened").shared.log "inc" := by
  refine ⟨secondHandling "resolved" "opened" (by rfl) (by rfl),
    firstHandling "resolved" "opened" (by rfl) (by rfl), rfl, ?_, ?_, ?_⟩
  · rintro ts ⟨⟩
    decide
  · rintro row ⟨⟩
    exact ⟨rfl, rfl⟩
  · rintro ⟨-, postmortem, -⟩
    have none : (twoHandled "resolved" "opened").shared.log.countP
        (Entry.isPost "inc" (.followup .postmortem)) = 0 := by rfl
    rw [none] at postmortem
    cases postmortem

end Freshet.Autopilot
