/-
**What the autopilot may call, and what each call does.**

`Stmt` is one SQL statement on `incidents`; `Stmt.exec` runs it. `Op` adds everything else the
consumer calls: the clock, the index it reads evidence from, the composer and the sink. `World` is
what the workers share: the clock, the table, and two history components that no statement reads:
which claims are won and not yet closed, and what was posted and recorded, newest first.

`World.Calls` is the behaviour of one call of one worker. A statement may succeed; it may fail
before it took effect; its answer may be lost after it took effect. The composer may raise
`BudgetExhausted`. A sink that raises has posted nothing.
-/

import Freshet.Autopilot.Incidents
import Freshet.Lib.Pool

namespace Freshet.Autopilot

open Freshet.Lib

/-- Exceptions: `BudgetExhausted`, and every other one. -/
inductive Exn
  | budgetExhausted (message : String)
  | error (message : String)
deriving DecidableEq, Repr

/-! ### Statements -/

/-- The SQL statements on `incidents`. -/
inductive Stmt
  | claim (slot : Slot) (incidentId : String)
  | claimDeferred (kind : Followup) (incidentId : String)
  | release (slot : Slot) (incidentId : String)
  | markBrief (slackTs channelId : Option String) (incidentId : String)
  | markFollowup (kind : Followup) (incidentId : String)
  | schedule (window : Time) (incidentId : String)
  | defer (kind : Followup) (incidentId : String)
  | due (limit : Nat)
  | pendingFollowups (limit : Nat)
  | getSlackTs (incidentId : String)
  | getOpenedAt (incidentId : String)
  | incidentMeta (incidentId : String)
  | incidentRow (incidentId : String)
  | markResolved (resolvedAt : Time) (incidentId : String)
  | ensureIncident (incidentId title : String) (openedAt : Time) (service : String)
  | markSeen (seenTs : String) (incidentId : String)

/-- What a statement's caller fetches. -/
abbrev Stmt.Ans : Stmt → Type
  | claim _ _ => Bool
  | claimDeferred _ _ => Option (String × Option String)
  | due _ => List (String × String)
  | pendingFollowups _ => List String
  | getSlackTs _ => Option (Option String)
  | getOpenedAt _ => Option Time
  | incidentMeta _ => Option (Time × Option Time × Option Time)
  | incidentRow _ => Option (Time × Option Time × Option String)
  | _ => Unit

/-- The claim of each slot made by the code that owns the event. -/
def claimOf : Slot → Time → String → Incidents → Option Row × Incidents
  | .brief => claimSql
  | .followup .progress => progressClaimSql
  | .followup .postmortem => postmortemClaimSql

/-- The claim of each follow-up made by the drain. -/
def claimDeferredOf : Followup → Time → String → Incidents → Option Row × Incidents
  | .progress => claimDeferredProgressSql
  | .postmortem => claimDeferredPostmortemSql

def releaseOf : Slot → String → Incidents → Incidents
  | .brief => releaseSql
  | .followup .progress => releaseProgressSql
  | .followup .postmortem => releasePostmortemSql

def markFollowupOf : Followup → Time → String → Incidents → Incidents
  | .progress => markProgressSql
  | .postmortem => markPostmortemSql

def deferOf : Followup → String → Incidents → Incidents
  | .progress => deferProgressSql
  | .postmortem => deferPostmortemSql

/-- Run one statement at server time `now`. -/
def Stmt.exec (now : Time) (table : Incidents) : (stmt : Stmt) → stmt.Ans × Incidents
  | claim slot incidentId =>
    ((claimOf slot now incidentId table).1.isSome, (claimOf slot now incidentId table).2)
  | claimDeferred kind incidentId =>
    ((claimDeferredOf kind now incidentId table).1.map fun row =>
      (row.primaryService.getD "", row.slackTs), (claimDeferredOf kind now incidentId table).2)
  | release slot incidentId => ((), releaseOf slot incidentId table)
  | markBrief slackTs channelId incidentId => ((), markBriefSql now slackTs channelId incidentId table)
  | markFollowup kind incidentId => ((), markFollowupOf kind now incidentId table)
  | schedule window incidentId => ((), scheduleSql now window incidentId table)
  | defer kind incidentId => ((), deferOf kind incidentId table)
  | due limit => ((dueSql now table).take limit, table)
  | pendingFollowups limit => ((pendingFollowupsSql now table).take limit, table)
  | getSlackTs incidentId => (getSlackTsSql incidentId table, table)
  | getOpenedAt incidentId => (getOpenedAtSql incidentId table, table)
  | incidentMeta incidentId => (incidentMetaSql incidentId table, table)
  | incidentRow incidentId => (incidentRowSql incidentId table, table)
  | markResolved resolvedAt incidentId => ((), markResolvedSql resolvedAt incidentId table)
  | ensureIncident incidentId title openedAt service =>
    ((), ensureIncidentSql incidentId title openedAt service table)
  | markSeen seenTs incidentId => ((), markSeenSql seenTs incidentId table)

/-! ### Operations -/

/-- One indexed update of an incident, `investigate._Update`. -/
structure Update where
  eventId : String
  ts : Time
  text : String
  service : String
  type : String
  source : String := "alert"
deriving DecidableEq, Repr

/-- What a post is rendered from. The lines, the cause and the impact that the renderer derives
from the updates, the services and the times are kept as those ingredients. -/
structure Findings where
  service : String
  status : String
  updates : List Update
  runbook : Option String
  narrative : Option String
  summary : Option String
  openedAt : Option Time
  resolvedAt : Option Time
  services : List String
  recurrence : Option String
deriving DecidableEq, Repr

/-- What the consumer calls. A delivery names the incident and the slot that the code around it is
working on. -/
inductive Op
  | sql (stmt : Stmt)
  | utcNow
  | monotonic
  | sleep
  | indexedCount (incidentId : String)
  | incidentUpdates (incidentId : String) (asOf : Option Time)
  | fetchRunbook (service : String)
  | incidentServices (incidentId : String)
  | ensureService (incidentId service : String)
  | recurrenceFor (service incidentId : String) (own : List Update)
  | compose (question : String) (hits : List Update)
  | deliver (incidentId : String) (slot : Slot) (findings : Findings) (thread : Option String)
  | lastChannelId

abbrev Op.Ans : Op → Type
  | sql stmt => stmt.Ans
  | utcNow => Time
  | monotonic => Time
  | indexedCount _ => Nat
  | incidentUpdates _ _ => List Update
  | fetchRunbook _ => Option String
  | incidentServices _ => List String
  | recurrenceFor _ _ _ => Option String
  | compose _ _ => String
  | deliver _ _ _ _ => Option String
  | lastChannelId => Option String
  | sleep => Unit
  | ensureService _ _ => Unit

abbrev sig : Sig := ⟨Op, Op.Ans⟩

/-- A program of the autopilot. -/
abbrev Auto (α : Type) := Prog sig Exn α

/-- One call. -/
abbrev ask (op : Op) : Auto op.Ans := @Prog.perform sig Exn op

/-- One statement. -/
abbrev sql (stmt : Stmt) : Auto stmt.Ans := ask (.sql stmt)

/-! ### The shared world -/

/-- What happened, as an observer of the channel and of the table sees it. `recorded` carries the
`slack_ts` column as the mark left it. -/
inductive Entry
  | posted (incidentId : String) (slot : Slot) (thread : Option String)
  | recorded (incidentId : String) (slot : Slot) (slackTs : Option String)
deriving DecidableEq, Repr

/-- A claim won and not yet closed by a mark or a release. -/
structure Claim where
  incidentId : String
  slot : Slot
  taken : Time
deriving DecidableEq, Repr

/-- What the workers `W` share. `holding` and `log` are history: no statement reads them. -/
structure World (W : Type) where
  now : Time
  incidents : Incidents
  holding : W → Option Claim
  log : List Entry

namespace World

variable {W : Type} [DecidableEq W]

/-- The database as it was created: nobody has started. -/
def init {W : Type} (now : Time) : World W where
  now
  incidents := ∅
  holding _ := none
  log := []

/-- A mark or a release of a slot closes the claim held on it. -/
def closed (before : Option Claim) (incidentId : String) (slot : Slot) : Option Claim :=
  before.filter fun claim => !(claim.incidentId = incidentId && claim.slot = slot)

/-- The claim a worker holds once a statement has answered. -/
def held (now : Time) (before : Option Claim) : (stmt : Stmt) → stmt.Ans → Option Claim
  | .claim slot incidentId, won => if won then some ⟨incidentId, slot, now⟩ else before
  | .claimDeferred kind incidentId, row =>
    if row.isSome then some ⟨incidentId, .followup kind, now⟩ else before
  | .release slot incidentId, _ => closed before incidentId slot
  | .markBrief _ _ incidentId, _ => closed before incidentId .brief
  | .markFollowup kind incidentId, _ => closed before incidentId (.followup kind)
  | _, _ => before

/-- What a statement leaves in the log. -/
def logged (table : Incidents) : Stmt → List Entry
  | .markBrief _ _ incidentId =>
    [.recorded incidentId .brief ((table.lookup incidentId).bind fun row => row.slackTs)]
  | .markFollowup kind incidentId =>
    [.recorded incidentId (.followup kind) ((table.lookup incidentId).bind fun row => row.slackTs)]
  | _ => []

/-- The world after a statement of `worker` has answered. -/
def executed (world : World W) (worker : W) (stmt : Stmt) : World W where
  now := world.now
  incidents := (stmt.exec world.now world.incidents).2
  holding := Function.update world.holding worker
    (held world.now (world.holding worker) stmt (stmt.exec world.now world.incidents).1)
  log := logged (stmt.exec world.now world.incidents).2 stmt ++ world.log

/-- **What one call of one worker may answer and do.** -/
def Calls (worker : W) : (op : Op) → World W → Except Exn op.Ans → World W → Prop
  | .sql stmt, world, answer, after =>
    (answer = .ok (stmt.exec world.now world.incidents).1 ∧ after = world.executed worker stmt) ∨
    (∃ message, answer = .error (.error message) ∧
      (after = world ∨ after = { world with incidents := (stmt.exec world.now world.incidents).2 }))
  | .compose _ _, world, _, after => after = world
  | .deliver incidentId slot _ thread, world, answer, after =>
    (∃ ts, answer = .ok ts ∧
      after = { world with log := .posted incidentId slot thread :: world.log }) ∨
    (∃ message, answer = .error (.error message) ∧ after = world)
  | .lastChannelId, world, answer, after => (∃ channelId, answer = .ok channelId) ∧ after = world
  | _, world, answer, after =>
    (∀ message, answer ≠ .error (.budgetExhausted message)) ∧ after = world

/-- One behaviour of the calls: everything succeeds, the clocks agree, and every other call that is
no statement answers `reply`. -/
def serve (world : World W) (reply : (op : Op) → op.Ans) (worker : W) :
    (op : Op) → Except Exn op.Ans × World W
  | .sql stmt =>
    (.ok (stmt.exec world.now world.incidents).1, world.executed worker stmt)
  | .deliver incidentId slot findings thread =>
    (.ok (reply (.deliver incidentId slot findings thread)),
      { world with log := .posted incidentId slot thread :: world.log })
  | .utcNow => (.ok world.now, world)
  | op => (.ok (reply op), world)

theorem calls_serve (reply : (op : Op) → op.Ans) (worker : W) (op : Op) (world : World W) :
    world.Calls worker op (world.serve reply worker op).1 (world.serve reply worker op).2 := by
  cases op with
  | sql stmt => exact Or.inl ⟨rfl, rfl⟩
  | deliver incidentId slot findings thread => exact Or.inl ⟨_, rfl, rfl⟩
  | compose question hits => exact rfl
  | lastChannelId => exact ⟨⟨_, rfl⟩, rfl⟩
  | _ => exact ⟨fun _ impossible => (nomatch impossible), rfl⟩

theorem serve_ok (reply : (op : Op) → op.Ans) (worker : W) (op : Op) (world : World W) :
    ∃ value, (world.serve reply worker op).1 = .ok value := by
  cases op <;> exact ⟨_, rfl⟩

end World

/-- Replies under which nothing stands in the way: no evidence, no runbook, a thread for each
post. -/
def calmReply : (op : Op) → op.Ans
  | .sql stmt => (stmt.exec 0 ∅).1
  | .utcNow | .monotonic => (0 : Time)
  | .sleep | .ensureService _ _ => ()
  | .indexedCount _ => (1 : Nat)
  | .incidentUpdates _ _ | .incidentServices _ => []
  | .fetchRunbook _ | .recurrenceFor _ _ _ | .lastChannelId => none
  | .compose _ _ => ""
  | .deliver _ _ _ _ => some "1700000000.000100"

end Freshet.Autopilot
