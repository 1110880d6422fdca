/-
**An exhausted budget.**

One worker runs `handle_and_drain` in given surroundings: the server's clock, the readings of the
application's clock, the evidence and the composer's answers are any sequences, and nothing but the
composer fails. The drain's two loops end at an exhausted budget and leave the item owed and
unclaimed. The two branches of the handler that post directly re-raise it.

* `Paused`: what a refusal should leave behind;
* `DirectRefusal`: the event's own branch wins its claim, has evidence, and its request is refused;
* `pauses_iff`: the run pauses as it should exactly when that does not happen.
-/

import Freshet.Autopilot.LeaseProtocol
import Freshet.Autopilot.Owed
import Freshet.Autopilot.AtMostOnce

namespace Freshet.Autopilot

open Freshet.Lib

/-! ### One worker in given surroundings -/

/-- What the run meets: the server's clock at each statement, each reading of the application's
clock, each read of the evidence, each answer of the composer, and every other answer by the number
of calls before it. -/
structure Surroundings where
  clock : Nat → Time
  utcNow : Nat → Time
  updates : Nat → List Update
  composed : Nat → Except Exn String
  reply : Nat → (op : Op) → op.Ans

/-- The world and how much of the surroundings has been met. `refused` is history: the claim held at
each request that the budget refused. -/
structure Scene where
  world : World Unit
  stmts : Nat := 0
  readings : Nat := 0
  reads : Nat := 0
  requests : Nat := 0
  calls : Nat := 0
  refused : List (Option Claim) := []

/-- The composer's answer is a refusal. -/
def isRefusal : Except Exn String → Bool
  | .error (.budgetExhausted _) => true
  | _ => false

namespace Surroundings

variable (env : Surroundings)

/-- The world at the next statement. -/
def tick (scene : Scene) : World Unit := { scene.world with now := env.clock scene.stmts }

/-- What a call answers and does. -/
def serve : (op : Op) → Scene → Except Exn op.Ans × Scene
  | .sql stmt, scene =>
    (.ok (stmt.exec (env.clock scene.stmts) scene.world.incidents).1,
      { scene with world := (env.tick scene).executed () stmt, stmts := scene.stmts + 1 })
  | .utcNow, scene =>
    (.ok (env.utcNow scene.readings), { scene with readings := scene.readings + 1 })
  | .incidentUpdates _ _, scene =>
    (.ok (env.updates scene.reads), { scene with reads := scene.reads + 1 })
  | .compose _ _, scene =>
    (env.composed scene.requests,
      { scene with
        requests := scene.requests + 1
        refused := if isRefusal (env.composed scene.requests) then
          scene.world.holding () :: scene.refused else scene.refused })
  | .deliver incidentId slot findings thread, scene =>
    (.ok (env.reply scene.calls (.deliver incidentId slot findings thread)),
      { scene with
        world := { scene.world with log := .posted incidentId slot thread :: scene.world.log }
        calls := scene.calls + 1 })
  | op, scene => (.ok (env.reply scene.calls op), { scene with calls := scene.calls + 1 })

/-- The surroundings as a machine. -/
abbrev machine : Machine sig Exn Scene := .ofHandler env.serve

/-- What a call does in these surroundings, it may do in the shared world. -/
theorem calls_serve (op : Op) (scene : Scene) : ∃ now,
    ({ scene.world with now := now } : World Unit).Calls () op (env.serve op scene).1
      { (env.serve op scene).2.world with now := now } := by
  cases op with
  | sql stmt => exact ⟨env.clock scene.stmts, Or.inl ⟨rfl, rfl⟩⟩
  | deliver incidentId slot findings thread =>
    exact ⟨scene.world.now, Or.inl ⟨_, rfl, rfl⟩⟩
  | compose question hits => exact ⟨scene.world.now, rfl⟩
  | lastChannelId => exact ⟨scene.world.now, ⟨_, rfl⟩, rfl⟩
  | _ => exact ⟨scene.world.now, fun _ impossible => (nomatch impossible), rfl⟩

end Surroundings

section Run

variable {env : Surroundings}

theorem wp_serve {op : Op} {post : Except Exn op.Ans → Scene → Prop} {scene : Scene} :
    (ask op).wp env.machine post scene ↔
      post (env.serve op scene).1 (env.serve op scene).2 := by
  rw [Prog.wp_ofHandler, ask, Prog.run_perform]

/-- The claim held after a statement. -/
theorem holding_serve (stmt : Stmt) (scene : Scene) :
    (env.serve (.sql stmt) scene).2.world.holding () =
      World.held (env.clock scene.stmts) (scene.world.holding ()) stmt
        (stmt.exec (env.clock scene.stmts) scene.world.incidents).1 := by
  simp [Surroundings.serve, Surroundings.tick, World.executed]

/-! ### Calls that settle nothing -/

/-- The table, the claim and the log are as they were. -/
structure Still (before after : Scene) : Prop where
  incidents : after.world.incidents = before.world.incidents
  holding : after.world.holding () = before.world.holding ()
  log : after.world.log = before.world.log

/-- Nor was any evidence read, or the composer asked. -/
structure Aside (before after : Scene) : Prop extends Still before after where
  reads : after.reads = before.reads
  requests : after.requests = before.requests
  refused : after.refused = before.refused

theorem Still.trans {first second third : Scene} (one : Still first second)
    (two : Still second third) : Still first third :=
  ⟨two.incidents.trans one.incidents, two.holding.trans one.holding, two.log.trans one.log⟩

theorem Aside.refl (scene : Scene) : Aside scene scene := ⟨⟨rfl, rfl, rfl⟩, rfl, rfl, rfl⟩

theorem Aside.trans {first second third : Scene} (one : Aside first second)
    (two : Aside second third) : Aside first third :=
  ⟨one.toStill.trans two.toStill, two.reads.trans one.reads, two.requests.trans one.requests,
    two.refused.trans one.refused⟩

/-- Calls that settle nothing and read no evidence. -/
def IsIdle : Op → Prop
  | .sql (.incidentMeta _) | .sql (.incidentRow _) | .sql (.getSlackTs _) | .utcNow | .monotonic
  | .sleep | .indexedCount _ | .fetchRunbook _ | .incidentServices _ | .ensureService _ _
  | .recurrenceFor _ _ _ | .lastChannelId => True
  | _ => False

theorem aside_serve {op : Op} (idle : IsIdle op) (scene : Scene) :
    ∃ value after, env.serve op scene = (.ok value, after) ∧ Aside scene after := by
  cases op with
  | sql stmt =>
    refine ⟨_, _, rfl, ⟨?_, ?_, ?_⟩, rfl, rfl, rfl⟩
    · cases stmt with
      | incidentMeta | incidentRow | getSlackTs => rfl
      | _ => exact idle.elim
    · cases stmt with
      | incidentMeta | incidentRow | getSlackTs =>
        simp [World.executed, World.held, Surroundings.tick]
      | _ => exact idle.elim
    · cases stmt with
      | incidentMeta | incidentRow | getSlackTs => rfl
      | _ => exact idle.elim
  | incidentUpdates | compose | deliver => exact idle.elim
  | _ => exact ⟨_, _, rfl, ⟨rfl, rfl, rfl⟩, rfl, rfl, rfl⟩

/-- The rule for a call that settles nothing. -/
theorem wp_idle_then {op : Op} (idle : IsIdle op) {β : Type} {next : op.Ans → Auto β}
    {post : Except Exn β → Scene → Prop} {scene : Scene}
    (rest : ∀ value after, Aside scene after → (next value).wp env.machine post after) :
    ((ask op).bind next).wp env.machine post scene := by
  obtain ⟨value, after, served, aside⟩ := aside_serve idle scene
  rw [Prog.wp_bind, wp_serve, served]
  exact rest value after aside

theorem wp_idle {op : Op} (idle : IsIdle op) {post : Except Exn op.Ans → Scene → Prop}
    {scene : Scene} (rest : ∀ value after, Aside scene after → post (.ok value) after) :
    (ask op).wp env.machine post scene := by
  obtain ⟨value, after, served, aside⟩ := aside_serve idle scene
  rw [wp_serve, served]
  exact rest value after aside

/-! ### Gathering -/

/-- The program returns and settles nothing. -/
def Idles {α : Type} (before : Scene) : Except Exn α → Scene → Prop
  | .ok _, after => Aside before after
  | .error _, _ => False

theorem wp_idles_then {α β : Type} {first : Auto α} {next : α → Auto β}
    {post : Except Exn β → Scene → Prop} {scene : Scene}
    (idles : first.wp env.machine (Idles scene) scene)
    (rest : ∀ value after, Aside scene after → (next value).wp env.machine post after) :
    (first.bind next).wp env.machine post scene := by
  refine Prog.wp_bind.mpr (Prog.wp_mono ?_ idles)
  rintro (exn | value) after aside
  · exact aside.elim
  · exact rest value after aside

theorem wp_recurrenceOf {hasEmbedder : Bool} {service incidentId : String} {own : List Update}
    {scene : Scene} :
    (recurrenceOf hasEmbedder service incidentId own).wp env.machine (Idles scene) scene := by
  unfold recurrenceOf
  split_ifs
  · exact wp_idle (by trivial) fun _ _ aside => aside
  · exact .refl scene

/-- There is evidence and the next request is refused. -/
def Refuses (env : Surroundings) (scene : Scene) : Prop :=
  env.updates scene.reads ≠ [] ∧ isRefusal (env.composed scene.requests) = true

/-- What gathering does: it returns, or its request is refused. -/
def Gathers (env : Surroundings) (before : Scene) {α : Type} : Except Exn α → Scene → Prop
  | .ok _, after => ¬ Refuses env before ∧ Still before after ∧ after.refused = before.refused
  | .error exn, after => Refuses env before ∧ (∃ message, exn = .budgetExhausted message) ∧
      Still before after ∧ after.refused = before.world.holding () :: before.refused

theorem Gathers.of_aside {first second : Scene} (aside : Aside first second) {α : Type}
    {outcome : Except Exn α} {after : Scene} (gathers : Gathers env second outcome after) :
    Gathers env first outcome after := by
  cases outcome with
  | ok value =>
    obtain ⟨accepts, still, refused⟩ := gathers
    refine ⟨?_, aside.toStill.trans still, refused.trans aside.refused⟩
    simpa only [Refuses, aside.reads, aside.requests] using accepts
  | error exn =>
    obtain ⟨refuses, budget, still, refused⟩ := gathers
    refine ⟨?_, budget, aside.toStill.trans still, ?_⟩
    · simpa only [Refuses, aside.reads, aside.requests] using refuses
    · rw [refused, aside.refused, aside.holding]

/-- The rule for a call that succeeds. -/
theorem wp_ask_then {op : Op} {β : Type} {next : op.Ans → Auto β}
    {post : Except Exn β → Scene → Prop} {scene after : Scene} {value : op.Ans}
    (served : env.serve op scene = (.ok value, after))
    (rest : (next value).wp env.machine post after) :
    ((ask op).bind next).wp env.machine post scene := by
  rw [Prog.wp_bind, wp_serve, served]
  exact rest

/-- What summarising does: nothing, or one request. -/
def Summarises (env : Surroundings) (updates : List Update) (before : Scene) {α : Type} :
    Except Exn α → Scene → Prop
  | .ok _, after => ¬ (updates ≠ [] ∧ isRefusal (env.composed before.requests) = true) ∧
      after.world = before.world ∧ after.refused = before.refused
  | .error exn, after => (updates ≠ [] ∧ isRefusal (env.composed before.requests) = true) ∧
      (∃ message, exn = .budgetExhausted message) ∧ after.world = before.world ∧
      after.refused = before.world.holding () :: before.refused

theorem wp_summarise {updates : List Update} {question : String} {scene : Scene} :
    (summarise true updates question).wp env.machine (Summarises env updates scene) scene := by
  unfold summarise
  cases updates with
  | nil => exact ⟨fun refusal => refusal.1 rfl, rfl, rfl⟩
  | cons update later =>
    simp only [Bool.not_true, Bool.false_eq_true, if_false, List.isEmpty_cons, Prog.bind_eq]
    refine Prog.wp_bind.mpr (Prog.wp_attempt.mpr (wp_serve.mpr ?_))
    cases answer : env.composed scene.requests with
    | ok narrative => simp [Surroundings.serve, answer, isRefusal, Prog.wp, Summarises]
    | error exn =>
      cases exn <;> simp [Surroundings.serve, answer, isRefusal, Prog.wp, Summarises]

/-- **Gathering returns unless its request is refused.** -/
theorem wp_gather {hasEmbedder : Bool} {service incidentId status question : String}
    {summary : Option String} {asOf : Option Time} {scene : Scene} :
    (gather true hasEmbedder service incidentId status question summary asOf).wp env.machine
      (Gathers env scene) scene := by
  unfold gather
  refine Prog.wp_bind.mpr (wp_serve.mpr ?_)
  refine wp_idle_then (by trivial) fun runbook read aside => ?_
  refine Prog.wp_bind.mpr (Prog.wp_mono ?_ wp_summarise)
  rintro (exn | narrative) asked summarises
  · obtain ⟨refuses, budget, world, refused⟩ := summarises
    rw [aside.requests] at refuses
    refine ⟨refuses, budget, ?_, ?_⟩
    · refine ⟨?_, ?_, ?_⟩ <;> rw [world]
      · exact aside.incidents
      · exact aside.holding
      · exact aside.log
    · rw [refused, aside.refused, aside.holding]
      rfl
  · obtain ⟨accepts, world, refused⟩ := summarises
    rw [aside.requests] at accepts
    refine wp_idle_then (by trivial) fun row first one => ?_
    refine wp_idle_then (by trivial) fun services second two => ?_
    have still : Still scene second := by
      refine Still.trans ⟨?_, ?_, ?_⟩ (one.toStill.trans two.toStill)
      · rw [world]
        exact aside.incidents
      · rw [world]
        exact aside.holding
      · rw [world]
        exact aside.log
    have same : second.refused = scene.refused := by
      rw [two.refused, one.refused, refused]
      exact aside.refused
    refine wp_idles_then wp_recurrenceOf fun recurrence last three => ?_
    exact ⟨accepts, still.trans three.toStill, three.refused.trans same⟩

theorem wp_gatherFindings {hasEmbedder : Bool} {service incidentId status : String}
    {scene : Scene} :
    (gatherFindings true hasEmbedder service incidentId status).wp env.machine
      (Gathers env scene) scene :=
  wp_idle_then (by trivial) fun _ _ aside =>
    Prog.wp_mono (fun _ _ gathers => gathers.of_aside aside) wp_gather

theorem wp_gatherPostmortem {service incidentId : String} {scene : Scene} :
    (gatherPostmortem true service incidentId).wp env.machine (Gathers env scene) scene :=
  wp_idle_then (by trivial) fun _ _ aside =>
    Prog.wp_mono (fun _ _ gathers => gathers.of_aside aside) wp_gather

theorem Idles.of_aside {first second : Scene} (aside : Aside first second) {α : Type}
    {outcome : Except Exn α} {after : Scene} (idles : Idles second outcome after) :
    Idles first outcome after := by
  cases outcome with
  | ok value => exact aside.trans idles
  | error exn => exact idles

/-- Waiting for the index settles nothing. -/
theorem wp_pollIndex {incidentId : String} {deadline : Time} (polls : Nat) {scene : Scene} :
    (pollIndex incidentId deadline polls).wp env.machine (Idles scene) scene := by
  induction polls generalizing scene with
  | zero => exact wp_idle (by trivial) fun _ _ aside => aside
  | succ polls ih =>
    refine wp_idle_then (by trivial) fun found counted one => ?_
    split_ifs
    · exact one
    refine wp_idle_then (by trivial) fun now read two => ?_
    split_ifs
    · exact one.trans two
    refine wp_idle_then (by trivial) fun _ slept three => ?_
    exact Prog.wp_mono (fun _ _ idles => idles.of_aside ((one.trans two).trans three)) ih

theorem wp_waitForIndex {incidentId : String} {timeoutS : Nat} {scene : Scene} :
    (waitForIndex incidentId timeoutS).wp env.machine (Idles scene) scene :=
  wp_idle_then (by trivial) fun _ _ aside =>
    Prog.wp_mono (fun _ _ idles => idles.of_aside aside) (wp_pollIndex _)

/-! ### What a pause leaves behind -/

/-- Every post is on record. -/
def Filed (world : World Unit) : Prop :=
  ∀ incidentId slot, 0 < world.log.countP (Entry.isPost incidentId slot) →
    ∃ row, world.incidents.lookup incidentId = some row ∧ (row.delivered slot).isSome

/-- **An item as a pause should leave it**: not posted, not claimed, still owed. -/
def Paused (world : World Unit) (incidentId : String) (slot : Slot) : Prop :=
  world.log.countP (Entry.isPost incidentId slot) = 0 ∧
    ∃ row, world.incidents.lookup incidentId = some row ∧ row.lease slot = none ∧
      row.owed slot = true

/-- Every refusal met so far was for an item of an `allowed` slot, which is paused. -/
def AllPaused (allowed : Slot → Prop) (scene : Scene) : Prop :=
  ∀ claim ∈ scene.refused, ∃ incidentId slot taken, claim = some ⟨incidentId, slot, taken⟩ ∧
    allowed slot ∧ Paused scene.world incidentId slot

/-- The worker is between two items. -/
structure Standing (allowed : Slot → Prop) (scene : Scene) : Prop where
  filed : Filed scene.world
  idle : scene.world.holding () = none
  paused : AllPaused allowed scene

/-- The worker has claimed an item and not yet posted it. -/
structure Working (allowed : Slot → Prop) (incidentId : String) (slot : Slot) (scene : Scene) :
    Prop where
  filed : Filed scene.world
  busy : ∃ taken, scene.world.holding () = some ⟨incidentId, slot, taken⟩
  due : ∃ row, scene.world.incidents.lookup incidentId = some row ∧ row.delivered slot = none ∧
    row.owed slot = true
  paused : AllPaused allowed scene

section Pause

variable {allowed : Slot → Prop} {incidentId : String} {slot : Slot} {scene after : Scene}

theorem Filed.still (filed : Filed scene.world) (still : Still scene after) :
    Filed after.world := by
  intro about kind posted
  rw [still.log] at posted
  rw [still.incidents]
  exact filed about kind posted

theorem AllPaused.still (paused : AllPaused allowed scene) (still : Still scene after)
    (refused : after.refused = scene.refused) : AllPaused allowed after := by
  intro claim member
  rw [refused] at member
  obtain ⟨about, kind, taken, eq, allow, here⟩ := paused claim member
  refine ⟨about, kind, taken, eq, allow, ?_⟩
  rw [Paused, still.log, still.incidents]
  exact here

theorem Standing.still (standing : Standing allowed scene) (still : Still scene after)
    (refused : after.refused = scene.refused) : Standing allowed after :=
  ⟨standing.filed.still still, still.holding.trans standing.idle,
    standing.paused.still still refused⟩

theorem Working.still (working : Working allowed incidentId slot scene) (still : Still scene after)
    (refused : after.refused = scene.refused) : Working allowed incidentId slot after where
  filed := working.filed.still still
  busy := by
    obtain ⟨taken, holding⟩ := working.busy
    exact ⟨taken, still.holding.trans holding⟩
  due := by
    rw [still.incidents]
    exact working.due
  paused := working.paused.still still refused

/-! ### Statements -/

theorem countP_logged (table : Incidents) (stmt : Stmt) :
    (World.logged table stmt).countP (Entry.isPost incidentId slot) = 0 := by
  cases stmt <;> rfl

theorem Filed.executed {world : World Unit} (filed : Filed world) (stmt : Stmt) :
    Filed (world.executed () stmt) := by
  intro about kind posted
  have before : 0 < world.log.countP (Entry.isPost about kind) := by
    simpa [World.executed, List.countP_append, countP_logged] using posted
  obtain ⟨row, found, delivered⟩ := filed about kind before
  obtain ⟨row', found', owes⟩ := keeps_exec stmt world.now world.incidents about row found
  exact ⟨row', found', owes.delivered kind delivered⟩

/-- A statement that neither claims nor records the slot leaves its pauses. -/
theorem Paused.executed {world : World Unit} (paused : Paused world incidentId slot) {stmt : Stmt}
    (claims : ∀ guard, stmt.claims ≠ some (slot, guard)) (marks : stmt.marks ≠ some slot) :
    Paused (world.executed () stmt) incidentId slot := by
  obtain ⟨unposted, row, found, lease, owed⟩ := paused
  refine ⟨?_, ?_⟩
  · simpa [World.executed, List.countP_append, countP_logged] using unposted
  · by_cases target : stmt.target = some incidentId
    · refine ⟨stmt.change world.now row, by simp [World.executed, lookup_exec, target, found], ?_, ?_⟩
      · rcases lease_change stmt world.now row slot with same | released | ⟨guard, claimed, -⟩
        · rw [same, lease]
        · exact lease_change_of_releases released world.now row
        · exact (claims guard claimed).elim
      · exact (owed_change stmt world.now row slot owed).resolve_right marks
    · exact ⟨row, by simp [World.executed, lookup_exec, target, found], lease, owed⟩

theorem AllPaused.executed (paused : AllPaused allowed scene) {stmt : Stmt}
    (claims : ∀ kind guard, allowed kind → stmt.claims ≠ some (kind, guard))
    (marks : ∀ kind, allowed kind → stmt.marks ≠ some kind) :
    AllPaused allowed (env.serve (.sql stmt) scene).2 := by
  intro claim member
  obtain ⟨about, kind, taken, eq, allow, here⟩ := paused claim member
  have ticked : Paused (env.tick scene) about kind := here
  exact ⟨about, kind, taken, eq, allow,
    ticked.executed (fun guard => claims kind guard allow) (marks kind allow)⟩

theorem Standing.mono {more : Slot → Prop} (standing : Standing allowed scene)
    (implies : ∀ kind, allowed kind → more kind) : Standing more scene where
  filed := standing.filed
  idle := standing.idle
  paused claim member := by
    obtain ⟨about, kind, taken, eq, allow, here⟩ := standing.paused claim member
    exact ⟨about, kind, taken, eq, implies kind allow, here⟩

/-- A statement that wins no claim and touches no pause leaves the worker between items. -/
theorem Standing.executed (standing : Standing allowed scene) {stmt : Stmt}
    (held : World.held (env.clock scene.stmts) (scene.world.holding ()) stmt
      (stmt.exec (env.clock scene.stmts) scene.world.incidents).1 = scene.world.holding ())
    (claims : ∀ kind guard, allowed kind → stmt.claims ≠ some (kind, guard))
    (marks : ∀ kind, allowed kind → stmt.marks ≠ some kind) :
    Standing allowed (env.serve (.sql stmt) scene).2 where
  filed := @Filed.executed (env.tick scene) standing.filed stmt
  idle := by
    rw [holding_serve, held]
    exact standing.idle
  paused := standing.paused.executed claims marks

/-- A claim that wins starts the work on its item. -/
theorem Standing.claim (standing : Standing allowed scene) (other : ¬ allowed slot) {stmt : Stmt}
    {guard : Row → Bool} (claims : stmt.claims = some (slot, guard)) (marks : stmt.marks = none)
    (target : stmt.target = some incidentId) {row : Row}
    (found : scene.world.incidents.lookup incidentId = some row)
    (undelivered : row.delivered slot = none) (owed : row.owed slot = true)
    (held : (env.serve (.sql stmt) scene).2.world.holding () =
      some ⟨incidentId, slot, env.clock scene.stmts⟩) :
    Working allowed incidentId slot (env.serve (.sql stmt) scene).2 where
  filed := @Filed.executed (env.tick scene) standing.filed stmt
  busy := ⟨_, held⟩
  due := by
    refine ⟨stmt.change (env.clock scene.stmts) row, ?_, ?_, ?_⟩
    · simp [Surroundings.serve, Surroundings.tick, World.executed, lookup_exec, target, found]
    · rw [delivered_change, marks, if_neg (by simp), undelivered]
    · exact (owed_change stmt _ row slot owed).resolve_right (by simp [marks])
  paused := standing.paused.executed
    (fun kind guard' allow eq => by
      rw [claims] at eq
      obtain ⟨rfl, -⟩ := Prod.mk.inj (Option.some_injective _ eq)
      exact other allow)
    (fun kind _ => by simp [marks])

/-- **A refused request ends in a pause**: the release leaves the item unclaimed and owed. -/
theorem Working.pause (working : Working allowed incidentId slot scene) (still : Still scene after)
    (refused : after.refused = scene.world.holding () :: scene.refused) :
    Standing (fun kind => allowed kind ∨ kind = slot)
      (env.serve (.sql (.release slot incidentId)) after).2 := by
  obtain ⟨taken, holding⟩ := working.busy
  obtain ⟨row, found, undelivered, owed⟩ := working.due
  refine ⟨@Filed.executed (env.tick after) (working.filed.still still) _, ?_, ?_⟩
  · simp [Surroundings.serve, Surroundings.tick, World.executed, World.held, World.closed,
      still.holding, holding, Option.filter]
  · intro claim member
    have cases : claim ∈ scene.world.holding () :: scene.refused := by
      rw [← refused]
      exact member
    rcases List.mem_cons.mp cases with rfl | earlier
    · refine ⟨incidentId, slot, taken, holding, Or.inr rfl, ?_, ?_⟩
      · have none : scene.world.log.countP (Entry.isPost incidentId slot) = 0 := by
          by_contra posted
          obtain ⟨row', found', delivered⟩ :=
            working.filed incidentId slot (Nat.pos_of_ne_zero posted)
          rw [found] at found'
          obtain rfl := Option.some_injective _ found'
          simp [undelivered] at delivered
        simpa [Surroundings.serve, Surroundings.tick, World.executed, World.logged, still.log]
          using none
      · refine ⟨row.setLease slot .none, ?_, by simp, by simpa using owed⟩
        simp [Surroundings.serve, Surroundings.tick, World.executed, lookup_exec, Stmt.target,
          Stmt.change, still.incidents, found]
    · obtain ⟨about, kind, taken', eq, allow, unposted, row', found', lease, owed'⟩ :=
        working.paused claim earlier
      have ticked : Paused (env.tick after) about kind :=
        ⟨by rw [← unposted, ← still.log]; rfl, row', by rw [← found', ← still.incidents]; rfl,
          lease, owed'⟩
      exact ⟨about, kind, taken', eq, Or.inl allow,
        ticked.executed (fun _ => (Option.some_ne_none _).symm) (Option.some_ne_none _).symm⟩

/-- Posting and recording the claimed item. -/
theorem Working.record (working : Working allowed incidentId slot scene) (other : ¬ allowed slot)
    {thread : Option String} {stmt : Stmt} (marks : Marks incidentId slot (.sql stmt))
    (incidents : after.world.incidents = scene.world.incidents)
    (holding : after.world.holding () = scene.world.holding ())
    (log : after.world.log = .posted incidentId slot thread :: scene.world.log)
    (refused : after.refused = scene.refused) :
    Standing allowed (env.serve (.sql stmt) after).2 := by
  obtain ⟨taken, busy⟩ := working.busy
  obtain ⟨row, found, -⟩ := working.due
  rw [← incidents] at found
  have marked := marks.marked (env.clock after.stmts) found
  have own : stmt.marks = some slot ∧ stmt.claims = none := by
    cases slot with
    | brief => obtain ⟨slackTs, channelId, ⟨⟩⟩ := marks; exact ⟨rfl, rfl⟩
    | followup kind => cases marks; exact ⟨rfl, rfl⟩
  refine ⟨?_, ?_, ?_⟩
  · intro about kind posted
    by_cases mine : about = incidentId ∧ kind = slot
    · obtain ⟨rfl, rfl⟩ := mine
      exact ⟨_, (marked.lookup about).trans (if_pos rfl), marked.own⟩
    · have before : 0 < scene.world.log.countP (Entry.isPost about kind) := by
        have apart : ¬ (incidentId = about ∧ slot = kind) := fun eq => mine ⟨eq.1.symm, eq.2.symm⟩
        simpa [Surroundings.serve, Surroundings.tick, World.executed, List.countP_append,
          countP_logged, log, List.countP_cons, Entry.isPost, apart] using posted
      obtain ⟨row', found', delivered⟩ := working.filed about kind before
      rw [← incidents] at found'
      obtain ⟨row'', found'', owes⟩ :=
        keeps_exec stmt (env.clock after.stmts) after.world.incidents about row' found'
      exact ⟨row'', found'', owes.delivered kind delivered⟩
  · rw [← holding] at busy
    cases slot with
    | brief =>
      obtain ⟨slackTs, channelId, ⟨⟩⟩ := marks
      simp [Surroundings.serve, Surroundings.tick, World.executed, World.held, World.closed, busy,
        Option.filter]
    | followup kind =>
      cases marks
      simp [Surroundings.serve, Surroundings.tick, World.executed, World.held, World.closed, busy,
        Option.filter]
  · have paused : AllPaused allowed after := by
      intro claim member
      rw [refused] at member
      obtain ⟨about, kind, taken', eq, allow, unposted, rest⟩ := working.paused claim member
      have apart : ¬ (incidentId = about ∧ slot = kind) := by
        rintro ⟨rfl, rfl⟩
        exact other allow
      refine ⟨about, kind, taken', eq, allow, ?_, by rw [incidents]; exact rest⟩
      rw [log, List.countP_cons, unposted]
      simp [Entry.isPost, apart]
    refine paused.executed (fun kind guard _ => by simp [own.2]) (fun kind allow eq => ?_)
    rw [own.1] at eq
    obtain rfl := Option.some_injective _ eq
    exact other allow

end Pause

/-! ### Posting under a claim -/

/-- One post has been made and nothing else has changed. -/
structure Delivered (incidentId : String) (slot : Slot) (before after : Scene) : Prop where
  incidents : after.world.incidents = before.world.incidents
  holding : after.world.holding () = before.world.holding ()
  log : ∃ thread, after.world.log = .posted incidentId slot thread :: before.world.log
  refused : after.refused = before.refused

theorem Delivered.aside {incidentId : String} {slot : Slot} {before middle after : Scene}
    (delivered : Delivered incidentId slot before middle) (aside : Aside middle after) :
    Delivered incidentId slot before after where
  incidents := aside.incidents.trans delivered.incidents
  holding := aside.holding.trans delivered.holding
  log := by
    rw [aside.log]
    exact delivered.log
  refused := aside.refused.trans delivered.refused

theorem Delivered.record {allowed : Slot → Prop} {incidentId : String} {slot : Slot}
    {before after : Scene} (delivered : Delivered incidentId slot before after)
    (working : Working allowed incidentId slot before) (other : ¬ allowed slot) {stmt : Stmt}
    (marks : Marks incidentId slot (.sql stmt)) :
    Standing allowed (env.serve (.sql stmt) after).2 := by
  obtain ⟨thread, log⟩ := delivered.log
  exact working.record other marks delivered.incidents delivered.holding log delivered.refused

/-- Gathering for the claimed item and posting it, unless the request is refused. -/
def Posts (env : Surroundings) (incidentId : String) (slot : Slot) (before : Scene) {α : Type} :
    Except Exn α → Scene → Prop
  | .ok _, after => ¬ Refuses env before ∧ Delivered incidentId slot before after
  | .error exn, after => Refuses env before ∧ (∃ message, exn = .budgetExhausted message) ∧
      Still before after ∧ after.refused = before.world.holding () :: before.refused

theorem Posts.of_aside {incidentId : String} {slot : Slot} {first second : Scene}
    (aside : Aside first second) {α : Type} {outcome : Except Exn α} {after : Scene}
    (posts : Posts env incidentId slot second outcome after) :
    Posts env incidentId slot first outcome after := by
  cases outcome with
  | ok value =>
    obtain ⟨accepts, delivered⟩ := posts
    refine ⟨by simpa only [Refuses, aside.reads, aside.requests] using accepts, ?_, ?_, ?_, ?_⟩
    · rw [delivered.incidents, aside.incidents]
    · rw [delivered.holding, aside.holding]
    · rw [← aside.log]
      exact delivered.log
    · rw [delivered.refused, aside.refused]
  | error exn =>
    exact @Gathers.of_aside env _ _ aside α (.error exn) _ posts

theorem wp_gatherAndPost {incidentId : String} {slot : Slot} {under : Option String}
    {gathered : Auto Findings} {scene : Scene}
    (gathers : gathered.wp env.machine (Gathers env scene) scene) :
    (gathered.bind fun findings => ask (.deliver incidentId slot findings under)).wp env.machine
      (Posts env incidentId slot scene) scene := by
  refine Prog.wp_bind.mpr (Prog.wp_mono ?_ gathers)
  rintro (exn | findings) after holds
  · exact holds
  · obtain ⟨accepts, still, refused⟩ := holds
    refine wp_serve.mpr ⟨accepts, still.incidents, still.holding, ⟨under, ?_⟩, refused⟩
    rw [← still.log]
    rfl

/-! ### The drain of briefs -/

/-- The program returns and leaves the worker between items. -/
def Drains (allowed : Slot → Prop) {α : Type} : Except Exn α → Scene → Prop
  | .ok _, after => Standing allowed after
  | .error _, _ => False

theorem wp_postBrief_budget {config : Config} (composer : config.hasComposer = true)
    {incidentId service : String} {scene : Scene} :
    (postBrief config incidentId service).wp env.machine (Posts env incidentId .brief scene)
      scene := by
  refine wp_idles_then wp_waitForIndex fun _ after aside => ?_
  rw [composer]
  exact Prog.wp_mono (fun _ _ posts => posts.of_aside aside) (wp_gatherAndPost wp_gatherFindings)

theorem wp_drainBriefs {config : Config} (composer : config.hasComposer = true)
    (due : List (String × String)) {scene : Scene} (standing : Standing (fun _ => False) scene)
    (secured : ∀ item ∈ due, Secured scene.world.incidents item.1 .brief) :
    (drainBriefs config due).wp env.machine (Drains (· = .brief)) scene := by
  induction due generalizing scene with
  | nil => exact standing.mono fun _ impossible => impossible.elim
  | cons item later ih =>
    obtain ⟨incidentId, service⟩ := item
    have secured_later : ∀ {after : Scene}, Keeps scene.world.incidents after.world.incidents →
        ∀ item ∈ later, Secured after.world.incidents item.1 .brief := fun keeps item member =>
      (secured item (List.mem_cons_of_mem _ member)).keeps keeps
    have claimed := keeps_exec (.claim .brief incidentId) (env.clock scene.stmts)
      scene.world.incidents
    refine Prog.wp_bind.mpr (wp_serve.mpr ?_)
    have answer := exec_claim_fst .brief incidentId (env.clock scene.stmts) scene.world.incidents
    cases won : ((Stmt.claim .brief incidentId).exec (env.clock scene.stmts)
      scene.world.incidents).1 with
    | false =>
      have standing' : Standing (fun _ => False)
          (env.serve (.sql (.claim .brief incidentId)) scene).2 :=
        standing.executed (by rw [won]; rfl) (fun _ _ impossible => impossible.elim)
          (fun _ impossible => impossible.elim)
      simpa [Surroundings.serve, won] using ih standing' (secured_later claimed)
    | true =>
      rw [won] at answer
      obtain ⟨row, found, wins⟩ := (Option.any_eq_true _ _).mp answer.symm
      simp only [claimable, Bool.and_eq_true, Option.isNone_iff_eq_none] at wins
      have undelivered := wins.1.1
      have owed : row.owed .brief = true := by
        obtain ⟨row', found', here⟩ := secured (incidentId, service) List.mem_cons_self
        obtain rfl := Option.some_injective _ (found'.symm.trans found)
        exact here.resolve_right (by simp [undelivered])
      have working : Working (fun _ => False) incidentId .brief
          (env.serve (.sql (.claim .brief incidentId)) scene).2 :=
        standing.claim id rfl rfl rfl found undelivered owed (by rw [holding_serve, won]; rfl)
      simp only [Surroundings.serve, won, if_true]
      refine Prog.wp_bind.mpr (Prog.wp_attempt.mpr ?_)
      refine Prog.wp_mono ?_ (wp_postBrief_budget composer)
      rintro (exn | ts) after posts
      · obtain ⟨-, ⟨message, rfl⟩, still, refused⟩ := posts
        refine Prog.wp_bind.mpr (wp_serve.mpr ?_)
        exact (working.pause still refused).mono fun kind allow => allow.resolve_left id
      · obtain ⟨-, delivered⟩ := posts
        refine wp_idle_then (by trivial) fun channelId after' aside => ?_
        have delivered' := delivered.aside aside
        have recorded := @Delivered.record env _ _ _ _ _ delivered' working id
          (.markBrief ts channelId incidentId) ⟨ts, channelId, rfl⟩
        refine Prog.wp_bind.mpr (wp_serve.mpr ?_)
        refine Prog.wp_bind.mpr (Prog.wp_mono ?_ (ih recorded (secured_later ?_)))
        · rintro (exn | delivered) last drains
          · exact drains
          · exact drains
        · refine claimed.trans ?_
          have kept : Keeps after'.world.incidents
              (env.serve (.sql (.markBrief ts channelId incidentId)) after').2.world.incidents :=
            keeps_exec _ _ _
          rw [delivered'.incidents] at kept
          exact kept

/-! ### The drain of follow-ups -/

/-- One deferred delivery returns between items, or its request is refused and its item paused. -/
def Defers {α : Type} : Except Exn α → Scene → Prop
  | .ok _, after => Standing (· = .brief) after
  | .error exn, after => (∃ message, exn = .budgetExhausted message) ∧
      Standing (fun _ => True) after

theorem wp_deliverDeferred {kind : Followup} {incidentId : String}
    {gathered : String → Auto Findings}
    (gathers : ∀ service scene, (gathered service).wp env.machine (Gathers env scene) scene)
    {scene : Scene} (standing : Standing (· = .brief) scene) :
    (deliverDeferred kind incidentId gathered (sql (.release (.followup kind) incidentId))
      (sql (.markFollowup kind incidentId))).wp env.machine Defers scene := by
  refine Prog.wp_bind.mpr (wp_serve.mpr ?_)
  have answer := exec_claimDeferred_fst kind incidentId (env.clock scene.stmts)
    scene.world.incidents
  cases won : ((Stmt.claimDeferred kind incidentId).exec (env.clock scene.stmts)
    scene.world.incidents).1 with
  | none =>
    have standing' : Standing (· = .brief)
        (env.serve (.sql (.claimDeferred kind incidentId)) scene).2 := by
      refine standing.executed (by rw [won]; rfl) ?_ (fun _ _ => nofun)
      rintro _ guard rfl eq
      cases eq
    simp only [Surroundings.serve, won]
    exact standing'
  | some fetched =>
    rw [won] at answer
    obtain ⟨row, filtered, rfl⟩ := Option.map_eq_some_iff.mp answer.symm
    obtain ⟨found, wins⟩ := Option.filter_eq_some_iff.mp filtered
    simp only [claimable, deferredGuard, Bool.and_eq_true, Option.isNone_iff_eq_none] at wins
    have working : Working (· = .brief) incidentId (.followup kind)
        (env.serve (.sql (.claimDeferred kind incidentId)) scene).2 :=
      standing.claim (by simp) rfl rfl rfl found wins.1.1 wins.1.2.1 (by rw [holding_serve, won]; rfl)
    simp only [Surroundings.serve, won]
    refine Prog.wp_bind.mpr (wp_onError.mpr ?_)
    refine Prog.wp_bind.mpr (Prog.wp_mono ?_ (gathers _ _))
    rintro (exn | findings) after holds
    · obtain ⟨-, budget, still, refused⟩ := holds
      refine wp_serve.mpr ⟨budget, ?_⟩
      exact (working.pause still refused).mono fun _ _ => trivial
    · obtain ⟨-, still, refused⟩ := holds
      refine Prog.wp_bind.mpr (wp_serve.mpr (Prog.wp_bind.mpr (wp_serve.mpr ?_)))
      have recorded := @Working.record env (· = .brief) incidentId (.followup kind) _
        (env.serve (.deliver incidentId (.followup kind) findings row.slackTs) after).2 working
        (by simp) row.slackTs (.markFollowup kind incidentId) rfl still.incidents still.holding
        (congrArg (List.cons _) still.log) refused
      exact recorded

theorem wp_deliverPending {config : Config} (composer : config.hasComposer = true)
    {incidentId : String} {scene : Scene} (standing : Standing (· = .brief) scene) :
    (deliverPending config incidentId).wp env.machine Defers scene := by
  have progress := @wp_deliverDeferred env .progress incidentId
    (fun service => gatherFindings config.hasComposer false service incidentId "in_progress")
    (fun _ _ => by rw [composer]; exact wp_gatherFindings) scene standing
  refine Prog.wp_bind.mpr (Prog.wp_mono ?_ progress)
  rintro (exn | delivered) after defers
  · exact defers
  · have postmortem := @wp_deliverDeferred env .postmortem incidentId
      (fun service => gatherPostmortem config.hasComposer service incidentId)
      (fun _ _ => by rw [composer]; exact wp_gatherPostmortem) after defers
    refine Prog.wp_bind.mpr (Prog.wp_mono ?_ postmortem)
    rintro (exn | delivered) last defers
    · exact defers
    · exact defers

theorem wp_drainFollowups {config : Config} (composer : config.hasComposer = true)
    (pending : List String) {scene : Scene} (standing : Standing (· = .brief) scene) :
    (drainFollowups config pending).wp env.machine (Drains fun _ => True) scene := by
  induction pending generalizing scene with
  | nil => exact standing.mono fun _ _ => trivial
  | cons incidentId later ih =>
    refine Prog.wp_bind.mpr (Prog.wp_attempt.mpr ?_)
    refine Prog.wp_mono ?_ (wp_deliverPending composer standing)
    rintro (exn | delivered) after defers
    · obtain ⟨⟨message, rfl⟩, standing⟩ := defers
      exact standing
    · refine Prog.wp_bind.mpr (Prog.wp_mono ?_ (ih defers))
      rintro (exn | rest) last drains
      · exact drains
      · exact drains

/-- **The drain pauses on an exhausted budget**, wherever it is met. -/
theorem wp_drainDueBriefs {config : Config} (composer : config.hasComposer = true) {scene : Scene}
    (standing : Standing (fun _ => False) scene) :
    (drainDueBriefs config).wp env.machine (Drains fun _ => True) scene := by
  refine Prog.wp_bind.mpr (wp_serve.mpr ?_)
  have secured : ∀ item ∈ (dueSql (env.clock scene.stmts) scene.world.incidents).take config.limit,
      Secured scene.world.incidents item.1 .brief := by
    intro item member
    obtain ⟨⟨incidentId, row⟩, selected, rfl⟩ := List.mem_map.mp (List.mem_of_mem_take member)
    obtain ⟨found, due⟩ := Table.mem_select.mp selected
    refine ⟨row, found, Or.inl ?_⟩
    simp only [isDue, Bool.and_eq_true] at due
    exact Option.isSome_of_any due.1
  have between : Standing (fun _ => False) (env.serve (.sql (.due config.limit)) scene).2 :=
    standing.executed rfl (fun _ _ impossible => impossible.elim) fun _ impossible => impossible.elim
  refine Prog.wp_bind.mpr (Prog.wp_mono ?_ (wp_drainBriefs composer _ between secured))
  rintro (exn | delivered) after drains
  · exact drains
  refine Prog.wp_bind.mpr (Prog.wp_bind.mpr (wp_serve.mpr ?_))
  have standing' : Standing (· = .brief)
      (env.serve (.sql (.pendingFollowups config.limit)) after).2 :=
    Standing.executed drains rfl (fun _ _ _ => (Option.some_ne_none _).symm) fun _ _ =>
      (Option.some_ne_none _).symm
  refine Prog.wp_mono ?_ (wp_drainFollowups composer _ standing')
  rintro (exn | rest) last drains
  · exact drains
  · exact drains

/-! ### The handler's own branches -/

/-- The follow-up a lifecycle type posts directly. -/
def directKind (type : String) : Option Followup :=
  if type = "in_progress" then some .progress
  else if type = "resolved" then some .postmortem
  else none

/-- How many statements a direct branch runs before its claim. -/
def claimTick (ev : LifecycleEvent) : Nat :=
  if ev.type = "in_progress" ∧ ev.incidentId ≠ "" then 4 else 3

/-- A claim of the follow-up wins on the table as it is. -/
def Claimable (table : Incidents) (incidentId : String) (kind : Followup) (now : Time) : Prop :=
  ∃ row, table.lookup incidentId = some row ∧
    claimable (.followup kind) (claimGuard (.followup kind)) now row = true

/-- No slot was claimed, released or recorded between two tables. -/
def SameSlots (table later : Incidents) : Prop :=
  ∀ incidentId row', later.lookup incidentId = some row' →
    (table.lookup incidentId = none ∧ ∀ slot, row'.delivered slot = none) ∨
    ∃ row, table.lookup incidentId = some row ∧
      ∀ slot, row'.lease slot = row.lease slot ∧ row'.delivered slot = row.delivered slot

/-- The worker has run `count` statements of the handler, none of which settled anything. -/
structure Prepared (table : Incidents) (count : Nat) (scene : Scene) : Prop where
  stmts : scene.stmts = count
  reads : scene.reads = 0
  requests : scene.requests = 0
  refused : scene.refused = []
  log : scene.world.log = []
  holding : scene.world.holding () = none
  keeps : Keeps table scene.world.incidents
  slots : SameSlots table scene.world.incidents

theorem claimable_iff {table later : Incidents} (keeps : Keeps table later)
    (slots : SameSlots table later) (incidentId : String) (kind : Followup) (now : Time) :
    Claimable later incidentId kind now ↔ Claimable table incidentId kind now := by
  constructor
  · rintro ⟨row', found', wins⟩
    rcases slots incidentId row' found' with ⟨-, undelivered⟩ | ⟨row, found, same⟩
    · simp [claimable, claimGuard, undelivered] at wins
    · refine ⟨row, found, ?_⟩
      simpa only [claimable, claimGuard, (same _).1, (same _).2] using wins
  · rintro ⟨row, found, wins⟩
    obtain ⟨row', found', -⟩ := keeps incidentId row found
    refine ⟨row', found', ?_⟩
    rcases slots incidentId row' found' with ⟨absent, -⟩ | ⟨row'', found'', same⟩
    · rw [found] at absent
      cases absent
    · obtain rfl := Option.some_injective _ (found''.symm.trans found)
      simpa only [claimable, claimGuard, (same _).1, (same _).2] using wins

theorem SameSlots.exec {table later : Incidents} (keeps : Keeps table later)
    (slots : SameSlots table later) {stmt : Stmt} (claims : stmt.claims = none)
    (marks : stmt.marks = none) (releases : stmt.releases = none) (now : Time) :
    SameSlots table (stmt.exec now later).2 := by
  intro incidentId row' found'
  rw [lookup_exec] at found'
  split_ifs at found' with target
  · cases found : later.lookup incidentId with
    | some row =>
      rw [found] at found'
      obtain rfl := Option.some_injective _ found'
      have delivered : ∀ slot, (stmt.change now row).delivered slot = row.delivered slot :=
        fun slot => by rw [delivered_change, marks, if_neg (by simp)]
      rcases slots incidentId row found with ⟨absent, undelivered⟩ | ⟨first, there, same⟩
      · exact Or.inl ⟨absent, fun slot => (delivered slot).trans (undelivered slot)⟩
      · refine Or.inr ⟨first, there, fun slot => ⟨?_, (delivered slot).trans (same slot).2⟩⟩
        rcases lease_change stmt now row slot with lease | released | ⟨guard, claimed, -⟩
        · rw [lease, (same slot).1]
        · simp [releases] at released
        · simp [claims] at claimed
    | none =>
      rw [found] at found'
      have absent : table.lookup incidentId = none := by
        cases before : table.lookup incidentId with
        | none => rfl
        | some row =>
          obtain ⟨row'', found'', -⟩ := keeps incidentId row before
          rw [found] at found''
          cases found''
      refine Or.inl ⟨absent, ?_⟩
      cases stmt with
      | ensureIncident =>
        obtain rfl := Option.some_injective _ found'
        rintro (_ | ⟨_ | _⟩) <;> rfl
      | _ => cases found'
  · exact slots incidentId row' found'

theorem Prepared.statement {table : Incidents} {count : Nat} {scene : Scene}
    (prepared : Prepared table count scene) {stmt : Stmt} (claims : stmt.claims = none)
    (marks : stmt.marks = none) (releases : stmt.releases = none) :
    Prepared table (count + 1) (env.serve (.sql stmt) scene).2 where
  stmts := congrArg (· + 1) prepared.stmts
  reads := prepared.reads
  requests := prepared.requests
  refused := prepared.refused
  log := by
    cases stmt with
    | markBrief | markFollowup => cases marks
    | _ => exact prepared.log
  holding := by
    rw [holding_serve]
    cases stmt with
    | claim | claimDeferred => cases claims
    | release => cases releases
    | markBrief | markFollowup => cases marks
    | _ => exact prepared.holding
  keeps := prepared.keeps.trans (keeps_exec stmt _ _)
  slots := prepared.slots.exec prepared.keeps claims marks releases _

/-- The outcome of a direct branch: `refusal` says whether its request was refused. -/
def Branches (refusal : Prop) : Except Exn Unit → Scene → Prop
  | .ok _, after => ¬ refusal ∧ Standing (fun _ => False) after
  | .error _, after => refusal ∧ after.refused ≠ []

theorem Prepared.standing {table : Incidents} {count : Nat} {scene : Scene}
    (prepared : Prepared table count scene) : Standing (fun _ => False) scene where
  filed incidentId slot posted := by
    rw [prepared.log] at posted
    cases posted
  idle := prepared.holding
  paused claim member := by
    rw [prepared.refused] at member
    cases member

/-- **A direct branch from its claim on**: it escapes exactly when it wins the claim, has evidence
and its request is refused. -/
theorem wp_directBranch {table : Incidents} {count : Nat} {kind : Followup} {incidentId : String}
    {gathered : Auto Findings} {scene : Scene} (prepared : Prepared table count scene)
    (gathers : ∀ scene, gathered.wp env.machine (Gathers env scene) scene)
    (deferred : ∀ row, scene.world.incidents.lookup incidentId = some row →
      row.owed (.followup kind) = true ∨ (row.delivered (.followup kind)).isSome) :
    ((sql (.claim (.followup kind) incidentId)).bind fun won =>
      if won = true then
        onError ((sql (.getSlackTs incidentId)).bind fun row => gathered.bind fun findings =>
            (ask (.deliver incidentId (.followup kind) findings row.join)).bind fun _ =>
              sql (.markFollowup kind incidentId))
          (sql (.release (.followup kind) incidentId))
      else pure ()).wp env.machine
      (Branches (Claimable table incidentId kind (env.clock count) ∧ env.updates 0 ≠ [] ∧
        isRefusal (env.composed 0) = true)) scene := by
  refine Prog.wp_bind.mpr (wp_serve.mpr ?_)
  have answer := exec_claim_fst (.followup kind) incidentId (env.clock scene.stmts)
    scene.world.incidents
  have claims := claimable_iff prepared.keeps prepared.slots incidentId kind (env.clock count)
  cases won : ((Stmt.claim (.followup kind) incidentId).exec (env.clock scene.stmts)
    scene.world.incidents).1 with
  | false =>
    simp only [Surroundings.serve, won]
    refine ⟨?_, ?_⟩
    · rintro ⟨wins, -⟩
      obtain ⟨row, found, wins⟩ := claims.mpr wins
      rw [won, found, Option.any_some, prepared.stmts, wins] at answer
      cases answer
    · exact prepared.standing.executed (by rw [won]; rfl) (fun _ _ impossible => impossible.elim)
        fun _ impossible => impossible.elim
  | true =>
    rw [won] at answer
    obtain ⟨row, found, wins⟩ := (Option.any_eq_true _ _).mp answer.symm
    have win : Claimable table incidentId kind (env.clock count) :=
      claims.mp ⟨row, found, by rw [← prepared.stmts]; exact wins⟩
    simp only [claimable, Bool.and_eq_true, Option.isNone_iff_eq_none] at wins
    have undelivered := wins.1.1
    have owed := (deferred row found).resolve_right (by simp [undelivered])
    have working : Working (fun _ => False) incidentId (.followup kind)
        (env.serve (.sql (.claim (.followup kind) incidentId)) scene).2 :=
      prepared.standing.claim id rfl rfl rfl found undelivered owed
        (by rw [holding_serve, won]; rfl)
    simp only [Surroundings.serve, won, if_true]
    refine wp_onError.mpr ?_
    refine wp_idle_then (by trivial) fun thread read aside => ?_
    refine Prog.wp_bind.mpr (Prog.wp_mono ?_ (gathers read))
    have reads : read.reads = 0 := aside.reads.trans prepared.reads
    have requests : read.requests = 0 := aside.requests.trans prepared.requests
    rintro (exn | findings) after holds
    · obtain ⟨refuses, -, still, refused⟩ := holds
      rw [Refuses, reads, requests] at refuses
      refine wp_serve.mpr ⟨⟨win, refuses⟩, ?_⟩
      intro empty
      have same : after.refused = [] := empty
      rw [refused] at same
      cases same
    · obtain ⟨accepts, still, refused⟩ := holds
      rw [Refuses, reads, requests] at accepts
      refine Prog.wp_bind.mpr (wp_serve.mpr (wp_serve.mpr ⟨fun refusal => accepts refusal.2, ?_⟩))
      have between := aside.toStill.trans still
      exact @Working.record env (fun _ => False) incidentId (.followup kind) _
        (env.serve (.deliver incidentId (.followup kind) findings thread.join) after).2 working
        id thread.join (.markFollowup kind incidentId) rfl between.incidents between.holding
        (congrArg (List.cons _) between.log) (refused.trans aside.refused)

/-- A scene in which only clock readings and other answers have been used up. -/
structure Beside (before after : Scene) : Prop where
  world : after.world = before.world
  stmts : after.stmts = before.stmts
  reads : after.reads = before.reads
  requests : after.requests = before.requests
  refused : after.refused = before.refused

theorem Prepared.beside {table : Incidents} {count : Nat} {before after : Scene}
    (prepared : Prepared table count before) (beside : Beside before after) :
    Prepared table count after where
  stmts := beside.stmts.trans prepared.stmts
  reads := beside.reads.trans prepared.reads
  requests := beside.requests.trans prepared.requests
  refused := beside.refused.trans prepared.refused
  log := by rw [beside.world, prepared.log]
  holding := by rw [beside.world, prepared.holding]
  keeps := by rw [beside.world]; exact prepared.keeps
  slots := by rw [beside.world]; exact prepared.slots

/-- The event's timestamp: the parsed one, or the next reading of the clock. -/
def Surroundings.stamp (env : Surroundings) (config : Config) (ev : LifecycleEvent)
    (scene : Scene) : Time :=
  (config.parseTs ev.ts).getD (env.utcNow scene.readings)

theorem wp_eventTs_then {config : Config} {ev : LifecycleEvent} {β : Type} {next : Time → Auto β}
    {post : Except Exn β → Scene → Prop} {scene : Scene}
    (rest : ∀ after, Beside scene after →
      (next (env.stamp config ev scene)).wp env.machine post after) :
    ((eventTs config ev).bind next).wp env.machine post scene := by
  unfold eventTs
  unfold Surroundings.stamp at rest
  cases stamp : config.parseTs ev.ts with
  | some ts =>
    rw [stamp] at rest
    exact rest scene ⟨rfl, rfl, rfl, rfl, rfl⟩
  | none =>
    rw [stamp] at rest
    exact wp_ask_then rfl (rest _ ⟨rfl, rfl, rfl, rfl, rfl⟩)

theorem wp_statement_then {table : Incidents} {count : Nat} {scene : Scene}
    (prepared : Prepared table count scene) {stmt : Stmt} (claims : stmt.claims = none)
    (marks : stmt.marks = none) (releases : stmt.releases = none) {β : Type}
    {next : stmt.Ans → Auto β} {post : Except Exn β → Scene → Prop}
    (rest : ∀ after, Prepared table (count + 1) after →
      after.world.incidents = (stmt.exec (env.clock count) scene.world.incidents).2 →
      after.readings = scene.readings →
      (next (stmt.exec (env.clock count) scene.world.incidents).1).wp env.machine post after) :
    ((sql stmt).bind next).wp env.machine post scene := by
  refine Prog.wp_bind.mpr (wp_serve.mpr ?_)
  have here := rest (env.serve (.sql stmt) scene).2 (prepared.statement claims marks releases)
    (by rw [← prepared.stmts]; rfl) rfl
  rw [← prepared.stmts] at here
  exact here

theorem wp_ensureIncident_then {table : Incidents} {count : Nat} {scene : Scene}
    (prepared : Prepared table count scene) {incidentId service title : String} {openedAt : Time}
    {β : Type} {next : Unit → Auto β} {post : Except Exn β → Scene → Prop}
    (rest : ∀ after, Prepared table (count + if incidentId = "" then 0 else 1) after →
      (next ()).wp env.machine post after) :
    ((ensureIncident incidentId service openedAt title).bind next).wp env.machine post scene := by
  unfold ensureIncident
  split_ifs at rest ⊢ with unnamed
  · exact rest scene prepared
  · rw [Prog.bind_eq, Prog.bind_assoc]
    refine wp_statement_then prepared rfl rfl rfl fun after made _ _ => ?_
    exact wp_ask_then rfl (rest _ (made.beside ⟨rfl, rfl, rfl, rfl, rfl⟩))

/-- The event is not older than the row's opening. -/
def Current (env : Surroundings) (config : Config) (ev : LifecycleEvent) (table : Incidents) :
    Prop :=
  ∃ row, table.lookup ev.incidentId = some row ∧
    row.openedAt ≤ (config.parseTs ev.ts).getD (env.utcNow 0)

/-- **The event's own branch is refused**: it is current, its claim wins, there is evidence, and
the composer refuses the first request. -/
def BranchRefusal (env : Surroundings) (config : Config) (ev : LifecycleEvent) (kind : Followup)
    (table : Incidents) : Prop :=
  Current env config ev table ∧
    Claimable table ev.incidentId kind (env.clock (claimTick ev)) ∧ env.updates 0 ≠ [] ∧
      isRefusal (env.composed 0) = true

theorem owed_of_defer {table : Incidents} {kind : Followup} {incidentId : String} {now : Time}
    {row : Row} (found : ((Stmt.defer kind incidentId).exec now table).2.lookup incidentId =
      some row) :
    row.owed (.followup kind) = true ∨ (row.delivered (.followup kind)).isSome := by
  rw [lookup_exec] at found
  cases before : table.lookup incidentId with
  | none => simp [before, Stmt.target, Stmt.insert] at found
  | some row' =>
    simp only [before, Stmt.target, if_true, Option.map_some] at found
    obtain rfl := Option.some_injective _ found
    exact defer_secures kind incidentId now row'

/-- The comparison with the row's opening, which only happens when there is a row. -/
theorem stale_iff {config : Config} {ev : LifecycleEvent} {table : Incidents} {ts : Time}
    (stamp : ts = (config.parseTs ev.ts).getD (env.utcNow 0)) :
    ((getOpenedAtSql ev.incidentId table).any fun openedAt => decide (ts < openedAt)) = true ↔
      (∃ row, table.lookup ev.incidentId = some row) ∧ ¬ Current env config ev table := by
  subst stamp
  unfold getOpenedAtSql Current
  cases table.lookup ev.incidentId with
  | none => simp
  | some row => simp

/-- A branch that ends before its claim: the event is not current, or there is no row. -/
theorem wp_stale {config : Config} {ev : LifecycleEvent} {kind : Followup} {table : Incidents}
    {count : Nat} {scene : Scene} (prepared : Prepared table count scene)
    (stale : ¬ Current env config ev table) :
    (pure () : Auto Unit).wp env.machine (Branches (BranchRefusal env config ev kind table))
      scene :=
  ⟨fun refusal => stale refusal.1, prepared.standing⟩

/-- A branch from its deferral on, when the event is not stale. -/
theorem wp_deferAndPost {config : Config} {ev : LifecycleEvent} {kind : Followup}
    {table : Incidents} {count : Nat} {gathered : Auto Findings} {scene : Scene}
    (prepared : Prepared table count scene) (tick : claimTick ev = count + 1)
    (gathers : ∀ scene, gathered.wp env.machine (Gathers env scene) scene)
    (current : (∃ row, table.lookup ev.incidentId = some row) → Current env config ev table) :
    ((sql (.defer kind ev.incidentId)).bind fun _ =>
      (sql (.claim (.followup kind) ev.incidentId)).bind fun won =>
        if won = true then
          onError ((sql (.getSlackTs ev.incidentId)).bind fun row => gathered.bind fun findings =>
              (ask (.deliver ev.incidentId (.followup kind) findings row.join)).bind fun _ =>
                sql (.markFollowup kind ev.incidentId))
            (sql (.release (.followup kind) ev.incidentId))
        else pure ()).wp env.machine (Branches (BranchRefusal env config ev kind table)) scene := by
  refine wp_statement_then prepared rfl rfl rfl fun after deferred incidents _ => ?_
  have branch := @wp_directBranch env table (count + 1) kind ev.incidentId gathered after deferred
    gathers fun row found => owed_of_defer (by rw [← incidents]; exact found)
  refine Prog.wp_mono ?_ branch
  rw [← tick]
  rintro (exn | value) last holds
  · obtain ⟨⟨wins, rest⟩, refused⟩ := holds
    refine ⟨⟨current ?_, wins, rest⟩, refused⟩
    obtain ⟨row, found, -⟩ := wins
    exact ⟨row, found⟩
  · exact ⟨fun refusal => holds.1 refusal.2, holds.2⟩

theorem wp_isStale_then {config : Config} {ev : LifecycleEvent} {opened : Option Time} {β : Type}
    {next : Bool → Auto β} {post : Except Exn β → Scene → Prop} {scene : Scene}
    (rest : ∀ after, Beside scene after →
      (next (opened.any fun openedAt => decide (env.stamp config ev scene < openedAt))).wp
        env.machine post after) :
    ((isStale config ev opened).bind next).wp env.machine post scene := by
  cases opened with
  | none => exact rest scene ⟨rfl, rfl, rfl, rfl, rfl⟩
  | some openedAt =>
    simp only [isStale, Prog.bind_eq, Prog.bind_assoc]
    exact wp_eventTs_then rest

theorem wp_handleInProgress {config : Config} (composer : config.hasComposer = true)
    {ev : LifecycleEvent} (typed : ev.type = "in_progress") {scene : Scene}
    (prepared : Prepared scene.world.incidents 0 scene) (readings : scene.readings = 0) :
    (handleInProgress config ev).wp env.machine
      (Branches (BranchRefusal env config ev .progress scene.world.incidents)) scene := by
  refine wp_statement_then prepared rfl rfl rfl fun one first _ same => ?_
  refine wp_isStale_then fun two beside => ?_
  have second := first.beside beside
  have stale := @stale_iff env config ev scene.world.incidents (env.stamp config ev one)
    (by rw [Surroundings.stamp, same, readings])
  split_ifs with old
  · exact wp_stale second (stale.mp old).2
  · refine wp_eventTs_then fun three beside => ?_
    refine wp_ensureIncident_then (second.beside beside) fun four ensured => ?_
    refine wp_statement_then ensured rfl rfl rfl fun five scheduled _ _ => ?_
    refine wp_deferAndPost scheduled ?_ (fun _ => ?_) fun present => ?_
    · by_cases unnamed : ev.incidentId = "" <;> simp [claimTick, typed, unnamed]
    · rw [composer]
      exact wp_gatherFindings
    · by_contra past
      exact old (stale.mpr ⟨present, past⟩)

theorem wp_handleResolved_budget {config : Config} (composer : config.hasComposer = true)
    {ev : LifecycleEvent} (typed : ev.type = "resolved") {scene : Scene}
    (prepared : Prepared scene.world.incidents 0 scene) (readings : scene.readings = 0) :
    (handleResolved config ev).wp env.machine
      (Branches (BranchRefusal env config ev .postmortem scene.world.incidents)) scene := by
  refine wp_eventTs_then fun one beside => ?_
  have first := prepared.beside beside
  refine wp_statement_then first rfl rfl rfl fun two second _ _ => ?_
  have stale := @stale_iff env config ev one.world.incidents (env.stamp config ev scene)
    (by rw [Surroundings.stamp, readings])
  rw [beside.world] at stale
  split_ifs with old
  · rw [beside.world] at old
    exact wp_stale second (stale.mp old).2
  · refine wp_statement_then second rfl rfl rfl fun three third _ _ => ?_
    rw [beside.world] at old
    refine wp_deferAndPost third (by simp [claimTick, typed]) (fun _ => ?_) fun present => ?_
    · rw [composer]
      exact wp_gatherPostmortem
    · by_contra past
      exact old (stale.mpr ⟨present, past⟩)

theorem wp_handleOpened_budget {config : Config} {ev : LifecycleEvent} {table : Incidents}
    {scene : Scene} (prepared : Prepared table 0 scene) :
    (handleOpened config ev).wp env.machine (Drains fun _ => False) scene := by
  refine wp_ask_then rfl ?_
  have zero : Prepared table 0 (env.serve .utcNow scene).2 :=
    prepared.beside ⟨rfl, rfl, rfl, rfl, rfl⟩
  refine wp_eventTs_then fun one beside => ?_
  have first := zero.beside beside
  split_ifs
  · exact first.standing
  · refine wp_eventTs_then fun two beside => ?_
    refine wp_ensureIncident_then (first.beside beside) fun three ensured => ?_
    exact wp_serve.mpr (ensured.statement rfl rfl rfl).standing

/-- **The request of the event's own branch is refused.** -/
def DirectRefusal (env : Surroundings) (config : Config) (raw : RawLifecycle)
    (table : Incidents) : Prop :=
  ∃ ev kind, LifecycleEvent.fromJson raw = .ok ev ∧ directKind ev.type = some kind ∧
    config.hasComposer = true ∧ BranchRefusal env config ev kind table

/-- The outcome of handling the event. -/
def Handles (refusal : Prop) : Except Exn Unit → Scene → Prop
  | .ok _, after => ¬ refusal ∧ Standing (fun _ => False) after
  | .error _, after => (refusal ∧ after.refused ≠ []) ∨ (¬ refusal ∧ after.refused = [])

theorem wp_handleLifecycle {config : Config} (composer : config.hasComposer = true)
    {raw : RawLifecycle} {scene : Scene} (prepared : Prepared scene.world.incidents 0 scene)
    (readings : scene.readings = 0) :
    (handleLifecycle config raw).wp env.machine
      (Handles (DirectRefusal env config raw scene.world.incidents)) scene := by
  unfold handleLifecycle
  cases decoded : LifecycleEvent.fromJson raw with
  | error exn =>
    refine Or.inr ⟨?_, prepared.refused⟩
    rintro ⟨ev, kind, decoded', -⟩
    rw [decoded] at decoded'
    cases decoded'
  | ok ev =>
    have refusal_iff : ∀ kind, directKind ev.type = some kind →
        (DirectRefusal env config raw scene.world.incidents ↔
          BranchRefusal env config ev kind scene.world.incidents) := by
      intro kind direct
      constructor
      · rintro ⟨ev', kind', decoded', direct', -, refusal⟩
        obtain rfl := Except.ok.inj (decoded'.symm.trans decoded)
        obtain rfl := Option.some_injective _ (direct'.symm.trans direct)
        exact refusal
      · exact fun refusal => ⟨ev, kind, decoded, direct, composer, refusal⟩
    have indirect : directKind ev.type = none →
        ¬ DirectRefusal env config raw scene.world.incidents := by
      rintro none ⟨ev', kind', decoded', direct', -⟩
      obtain rfl := Except.ok.inj (decoded'.symm.trans decoded)
      rw [none] at direct'
      cases direct'
    simp only
    split_ifs with opened inProgress resolved
    · refine Prog.wp_mono ?_ (wp_handleOpened_budget prepared)
      rintro (exn | value) after drains
      · exact drains.elim
      · exact ⟨indirect (by simp [directKind, opened]), drains⟩
    · refine Prog.wp_mono ?_ (wp_handleInProgress composer inProgress prepared readings)
      rw [← refusal_iff .progress (by simp [directKind, inProgress])]
      rintro (exn | value) after branches
      · exact Or.inl branches
      · exact branches
    · refine Prog.wp_mono ?_ (wp_handleResolved_budget composer resolved prepared readings)
      rw [← refusal_iff .postmortem (by simp [directKind, resolved])]
      rintro (exn | value) after branches
      · exact Or.inl branches
      · exact branches
    · exact ⟨indirect (by simp [directKind, inProgress, resolved]), prepared.standing⟩

/-! ### Without a composer -/

/-- Any call but a request to the composer. -/
def NoRequest : Op → Prop
  | .compose _ _ => False
  | _ => True

theorem noRequest_of_isPlain (op : Op) (plain : IsPlain op) : NoRequest op := by
  cases op <;> first | exact plain.elim | trivial

theorem noRequest_of_isWait (op : Op) (wait : IsWait op) : NoRequest op := by
  cases op <;> first | exact wait.elim | trivial

theorem gather_noRequest (hasEmbedder : Bool) (service incidentId status question : String)
    (summary : Option String) (asOf : Option Time) :
    (gather false hasEmbedder service incidentId status question summary asOf).Uses NoRequest := by
  refine Prog.uses_bind (Prog.uses_perform trivial) fun own => ?_
  exact Prog.uses_bind (Prog.uses_perform trivial) fun runbook => trivial

theorem gatherFindings_noRequest (hasEmbedder : Bool) (service incidentId status : String) :
    (gatherFindings false hasEmbedder service incidentId status).Uses NoRequest :=
  Prog.uses_bind (Prog.uses_perform trivial) fun _ => gather_noRequest _ _ _ _ _ _ _

theorem gatherPostmortem_noRequest (service incidentId : String) :
    (gatherPostmortem false service incidentId).Uses NoRequest :=
  Prog.uses_bind (Prog.uses_perform trivial) fun _ => gather_noRequest _ _ _ _ _ _ _

theorem onError_uses {α : Type} {body : Auto α} {cleanup : Auto Unit} {allowed : Op → Prop}
    (uses : body.Uses allowed) (cleans : cleanup.Uses allowed) :
    (onError body cleanup).Uses allowed := by
  refine Prog.uses_bind (Prog.uses_attempt uses) ?_
  rintro (exn | value)
  · exact Prog.uses_bind cleans fun _ => trivial
  · trivial

/-- A direct branch from its claim on. -/
theorem claimAndPost_noRequest {kind : Followup} {incidentId : String} {gathered : Auto Findings}
    (uses : gathered.Uses NoRequest) :
    ((sql (.claim (.followup kind) incidentId)).bind fun won =>
      if won = true then
        onError ((sql (.getSlackTs incidentId)).bind fun row => gathered.bind fun findings =>
            (ask (.deliver incidentId (.followup kind) findings row.join)).bind fun _ =>
              sql (.markFollowup kind incidentId))
          (sql (.release (.followup kind) incidentId))
      else pure ()).Uses NoRequest := by
  refine Prog.uses_bind (Prog.uses_perform trivial) fun won => ?_
  split_ifs
  · refine onError_uses (Prog.uses_bind (Prog.uses_perform trivial) fun row => ?_)
      (Prog.uses_perform trivial)
    refine Prog.uses_bind uses fun findings => ?_
    exact Prog.uses_bind (Prog.uses_perform trivial) fun _ => Prog.uses_perform trivial
  · trivial

theorem handleLifecycle_noRequest {config : Config} (composer : config.hasComposer = false)
    (raw : RawLifecycle) : (handleLifecycle config raw).Uses NoRequest := by
  have plain : ∀ {α : Type} {program : Auto α}, program.Uses IsPlain → program.Uses NoRequest :=
    fun uses => Prog.uses_mono noRequest_of_isPlain uses
  unfold handleLifecycle
  cases LifecycleEvent.fromJson raw with
  | error exn => trivial
  | ok ev =>
    simp only
    split_ifs
    · exact plain (handleOpened_uses config ev)
    · refine Prog.uses_bind (Prog.uses_perform trivial) fun opened => ?_
      refine Prog.uses_bind (plain (isStale_uses config ev opened)) fun stale => ?_
      split_ifs
      · trivial
      refine Prog.uses_bind (plain (eventTs_uses config ev)) fun openedAt => ?_
      refine Prog.uses_bind (plain (ensureIncident_uses _ _ _ _)) fun _ => ?_
      refine Prog.uses_bind (Prog.uses_perform trivial) fun _ => ?_
      refine Prog.uses_bind (Prog.uses_perform trivial) fun _ => ?_
      exact @claimAndPost_noRequest .progress ev.incidentId
        (gatherFindings config.hasComposer false ev.service ev.incidentId "in_progress")
        (by rw [composer]; exact gatherFindings_noRequest _ _ _ _)
    · refine Prog.uses_bind (plain (eventTs_uses config ev)) fun ts => ?_
      refine Prog.uses_bind (Prog.uses_perform trivial) fun opened => ?_
      split_ifs
      · trivial
      refine Prog.uses_bind (Prog.uses_perform trivial) fun _ => ?_
      refine Prog.uses_bind (Prog.uses_perform trivial) fun _ => ?_
      exact @claimAndPost_noRequest .postmortem ev.incidentId
        (gatherPostmortem config.hasComposer ev.service ev.incidentId)
        (by rw [composer]; exact gatherPostmortem_noRequest _ _)
    · trivial

theorem drainBriefs_noRequest {config : Config} (composer : config.hasComposer = false)
    (due : List (String × String)) : (drainBriefs config due).Uses NoRequest := by
  induction due with
  | nil => trivial
  | cons item later ih =>
    obtain ⟨incidentId, service⟩ := item
    refine Prog.uses_bind (Prog.uses_perform trivial) fun won => ?_
    split_ifs
    · refine Prog.uses_bind (Prog.uses_attempt ?_) ?_
      · refine Prog.uses_bind (Prog.uses_mono noRequest_of_isWait (waitForIndex_uses _ _)) fun _ => ?_
        rw [composer]
        exact Prog.uses_bind (gatherFindings_noRequest _ _ _ _) fun _ => Prog.uses_perform trivial
      · rintro ((message | message) | ts)
        · exact Prog.uses_bind (Prog.uses_perform trivial) fun _ => trivial
        · exact Prog.uses_bind (Prog.uses_perform trivial) fun _ => trivial
        · refine Prog.uses_bind (Prog.uses_perform trivial) fun channelId => ?_
          refine Prog.uses_bind (Prog.uses_perform trivial) fun _ => ?_
          exact Prog.uses_bind ih fun _ => trivial
    · exact ih

theorem deliverDeferred_noRequest {kind : Followup} {incidentId : String}
    {gathered : String → Auto Findings} (uses : ∀ service, (gathered service).Uses NoRequest) :
    (deliverDeferred kind incidentId gathered (sql (.release (.followup kind) incidentId))
      (sql (.markFollowup kind incidentId))).Uses NoRequest := by
  refine Prog.uses_bind (Prog.uses_perform trivial) ?_
  rintro (_ | ⟨service, slackTs⟩)
  · trivial
  · refine Prog.uses_bind (onError_uses (Prog.uses_bind (uses service) fun findings => ?_)
      (Prog.uses_perform trivial)) fun _ => ?_
    · exact Prog.uses_bind (Prog.uses_perform trivial) fun _ => trivial
    · exact Prog.uses_bind (Prog.uses_perform trivial) fun _ => trivial

theorem drainFollowups_noRequest {config : Config} (composer : config.hasComposer = false)
    (pending : List String) : (drainFollowups config pending).Uses NoRequest := by
  induction pending with
  | nil => trivial
  | cons incidentId later ih =>
    refine Prog.uses_bind (Prog.uses_attempt (Prog.uses_bind
      (deliverDeferred_noRequest fun service => ?_) fun progress => Prog.uses_bind
        (deliverDeferred_noRequest fun service => ?_) fun postmortem => trivial)) ?_
    · rw [composer]
      exact gatherFindings_noRequest _ _ _ _
    · rw [composer]
      exact gatherPostmortem_noRequest _ _
    · rintro ((message | message) | delivered)
      · trivial
      · trivial
      · exact Prog.uses_bind ih fun _ => trivial

theorem handleAndDrain_noRequest {config : Config} (composer : config.hasComposer = false)
    (raw : RawLifecycle) : (handleAndDrain config raw).Uses NoRequest := by
  refine Prog.uses_bind (handleLifecycle_noRequest composer raw) fun _ => ?_
  refine Prog.uses_bind (Prog.uses_perform trivial) fun due => ?_
  refine Prog.uses_bind (drainBriefs_noRequest composer due) fun delivered => ?_
  refine Prog.uses_bind (Prog.uses_bind (Prog.uses_perform trivial) fun pending =>
    drainFollowups_noRequest composer pending) fun _ => trivial

/-- Nothing is refused where nothing is requested. -/
theorem wp_of_noRequest {α : Type} {program : Auto α} (uses : program.Uses NoRequest)
    {scene : Scene} (none : scene.refused = []) :
    program.wp env.machine (fun _ after => after.refused = []) scene := by
  refine Prog.wp_of_uses uses none ?_
  intro op request scene none
  refine ⟨trivial, ?_⟩
  rintro answer after ⟨rfl, rfl⟩
  cases op with
  | compose => exact request.elim
  | _ => exact none

/-! ### The whole run -/

/-- A worker about to handle an event, over any table. -/
def Scene.start (now : Time) (table : Incidents) : Scene where
  world := { now, incidents := table, holding := fun _ => none, log := [] }

/-- **An exhausted budget is a pause**: if a request was refused, the run returns normally and every
item it was refused for is paused. -/
def PausesOnBudget (outcome : Except Exn Nat) (after : Scene) : Prop :=
  after.refused ≠ [] → (∃ delivered, outcome = .ok delivered) ∧
    ∀ claim ∈ after.refused, ∃ incidentId slot taken,
      claim = some ⟨incidentId, slot, taken⟩ ∧ Paused after.world incidentId slot

theorem prepared_start (now : Time) (table : Incidents) :
    Prepared table 0 (Scene.start now table) where
  stmts := rfl
  reads := rfl
  requests := rfl
  refused := rfl
  log := rfl
  holding := rfl
  keeps := .refl table
  slots _ row found := Or.inr ⟨row, found, fun _ => ⟨rfl, rfl⟩⟩

theorem wp_handleAndDrain {config : Config} {raw : RawLifecycle} {now : Time} {table : Incidents} :
    (handleAndDrain config raw).wp env.machine
      (fun outcome after => PausesOnBudget outcome after ↔ ¬ DirectRefusal env config raw table)
      (Scene.start now table) := by
  cases composer : config.hasComposer with
  | false =>
    refine Prog.wp_mono ?_ (wp_of_noRequest (handleAndDrain_noRequest composer raw) rfl)
    intro outcome after none
    refine iff_of_true (fun refused => (refused none).elim) ?_
    rintro ⟨ev, kind, -, -, composer', -⟩
    rw [composer] at composer'
    cases composer'
  | true =>
    refine Prog.wp_bind.mpr (Prog.wp_mono ?_
      (wp_handleLifecycle composer (prepared_start now table) rfl))
    rintro (exn | value) after handles
    · rcases handles with ⟨refusal, refused⟩ | ⟨accepted, none⟩
      · refine iff_of_false (fun pauses => ?_) (fun accepted => accepted refusal)
        obtain ⟨⟨delivered, impossible⟩, -⟩ := pauses refused
        cases impossible
      · exact iff_of_true (fun refused => (refused none).elim) accepted
    · obtain ⟨accepted, standing⟩ := handles
      refine Prog.wp_mono ?_ (wp_drainDueBriefs composer standing)
      rintro (exn | delivered) last drains
      · exact drains.elim
      · refine iff_of_true (fun _ => ⟨⟨delivered, rfl⟩, fun claim member => ?_⟩) accepted
        obtain ⟨incidentId, slot, taken, eq, -, paused⟩ := drains.paused claim member
        exact ⟨incidentId, slot, taken, eq, paused⟩

end Run

/-- **When an exhausted budget is a pause.** For every event, every table and all surroundings in
which nothing but the composer fails: the run pauses on the budget exactly when the request of the
event's own branch is not refused. -/
theorem pauses_iff (env : Surroundings) (config : Config) (raw : RawLifecycle) (now : Time)
    (table : Incidents) :
    PausesOnBudget ((handleAndDrain config raw).run env.serve (Scene.start now table)).1
        ((handleAndDrain config raw).run env.serve (Scene.start now table)).2 ↔
      ¬ DirectRefusal env config raw table :=
  Prog.wp_ofHandler.mp wp_handleAndDrain

/-- Surroundings with one update of evidence, in which the budget is spent. -/
def spent : Surroundings where
  clock _ := 0
  utcNow _ := 0
  updates _ := [{ eventId := "e", ts := 0, text := "t", service := "github", type := "resolved" }]
  composed _ := .error (.budgetExhausted "daily limit reached")
  reply _ := calmReply

/-- An incident whose brief is delivered. -/
def briefed : Incidents :=
  (∅ : Incidents).insert "inc" { freshRow "" 0 "github" with briefDeliveredAt := some 0 }

/-- The resolution of a briefed incident is handled with the budget spent: `BudgetExhausted` leaves
`handle_and_drain`. -/
theorem spent_escapes :
    ((handleAndDrain calmConfig (calmEvent "resolved")).run spent.serve (Scene.start 0 briefed)).1 =
        .error (.budgetExhausted "daily limit reached") ∧
    ¬ PausesOnBudget
        ((handleAndDrain calmConfig (calmEvent "resolved")).run spent.serve
          (Scene.start 0 briefed)).1
        ((handleAndDrain calmConfig (calmEvent "resolved")).run spent.serve
          (Scene.start 0 briefed)).2 := by
  have escapes : ((handleAndDrain calmConfig (calmEvent "resolved")).run spent.serve
      (Scene.start 0 briefed)).1 = .error (.budgetExhausted "daily limit reached") := by rfl
  refine ⟨escapes, fun pauses => ?_⟩
  obtain ⟨⟨delivered, returned⟩, -⟩ := pauses (by decide)
  rw [escapes] at returned
  cases returned

end Freshet.Autopilot
