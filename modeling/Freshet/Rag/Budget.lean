/-
**The cap on language-model calls.**

`BudgetedComposer` keeps one row of `llm_budget` for each clock hour. An attempt reads the sum of the
last day, spends on the current hour's row, and only then calls the inner composer. `now()` is the
start of a statement, so a statement that waited may read an instant before that of one that went
ahead of it: the clock may lag behind its newest reading.

* `spend`, `compose`: the program text;
* `Stmt.exec`: what each statement does to the table;
* `World`: the table, the clock, and the history that the two caps are about;
* `compose_follows`: an attempt reads the day, then spends, then calls, each at most once.

The instants of the table are UTC and the session truncates them to hours of UTC. The inner composer
is not itself a `BudgetedComposer`: whatever it raises is not a refusal.
-/

import Freshet.Lib.Pool
import Freshet.Lib.Table

namespace Freshet.Rag

open Freshet.Lib

/-- Microseconds, as Postgres stores them. -/
def hour : Int := 3600 * 1000000

def day : Int := 24 * hour

/-- `date_trunc('hour', …)`. -/
def hourStart (instant : Int) : Int := instant / hour * hour

theorem lt_hourStart (instant : Int) : instant - hour < hourStart instant := by
  unfold hourStart hour
  omega

/-! ### The composer -/

/-- What an attempt may raise: `BudgetExhausted`, or whatever the driver or the inner composer
raises. -/
inductive Exn where
  | budgetExhausted (text : String)
  | other (text : String)
  deriving DecidableEq, Repr

/-- The statements on `llm_budget`. -/
inductive Stmt where
  | day
  | spend (hourlyCap : Int)
  | spent
  | prune
  deriving DecidableEq, Repr

abbrev Stmt.Ans : Stmt → Type
  | .day => Int
  | .spend _ => Option Int
  | .spent => Int × Int
  | .prune => Unit

/-- A statement, or a call of the inner composer on evidence of type `H`. -/
inductive Op (H : Type) where
  | sql (stmt : Stmt)
  | inner (question : String) (hits : H)

abbrev Op.Ans {H : Type} : Op H → Type
  | .sql stmt => stmt.Ans
  | .inner _ _ => String

abbrev sig (H : Type) : Sig := ⟨Op H, Op.Ans⟩

abbrev Budgeted (H α : Type) := Prog (sig H) Exn α

abbrev ask {H : Type} (op : Op H) : Budgeted H op.Ans := @Prog.perform (sig H) Exn op

/-- The two caps of a `BudgetedComposer`. -/
structure BudgetedComposer where
  hourlyCap : Int
  dailyCap : Int
  deriving DecidableEq, Repr

namespace BudgetedComposer

variable {H : Type} (self : BudgetedComposer)

/-- What the answer of `_SPEND_SQL` means: no row is a refusal. -/
def withinHour : Option Int → Budgeted H Unit
  | some _ => .ret ()
  | none => .raise (.budgetExhausted (s!"LLM hourly cap reached ({self.hourlyCap}/{self.hourlyCap}); "
      ++ "deferring until the next hour"))

/-- The check of the day before the hour. -/
def underDaily (dayCalls : Int) : Budgeted H Unit :=
  if dayCalls ≥ self.dailyCap then
    .raise (.budgetExhausted s!"LLM daily cap reached ({dayCalls}/{self.dailyCap}); deferring")
  else do
    let row ← ask (.sql (.spend self.hourlyCap))
    self.withinHour row

/-- `_spend`. -/
def spend : Budgeted H Unit :=
  if self.hourlyCap ≤ 0 ∨ self.dailyCap ≤ 0 then
    .raise (.budgetExhausted "LLM budget is disabled (cap is zero); deferring")
  else do
    let dayCalls ← ask (.sql .day)
    self.underDaily dayCalls

def compose (question : String) (hits : H) : Budgeted H String := do
  self.spend
  ask (.inner question hits)

def spent (_self : BudgetedComposer) : Budgeted H (Int × Int) := ask (.sql .spent)

def prune (_self : BudgetedComposer) : Budgeted H Unit := ask (.sql .prune)

end BudgetedComposer

/-- What a caller may have a `BudgetedComposer` do. -/
inductive Job (H : Type) where
  | compose (question : String) (hits : H)
  | spent
  | prune

/-- The program of a job. What it returns is the caller's business. -/
def Job.program {H : Type} (self : BudgetedComposer) : Job H → Budgeted H Unit
  | .compose question hits => do let _ ← self.compose question hits; return ()
  | .spent => do let _ ← self.spent; return ()
  | .prune => self.prune

/-! ### The table -/

/-- `llm_budget`: the calls of each hour. -/
abbrev Rows := Table Int Int

/-- `_SPEND_SQL`: a first call of the hour is not guarded. -/
def spendSql (now : Int) (hourlyCap : Int) (rows : Rows) : Option Int × Rows :=
  match rows.lookup (hourStart now) with
  | none => (some 1, rows.insert (hourStart now) 1)
  | some calls =>
    if calls < hourlyCap then (some (calls + 1), rows.insert (hourStart now) (calls + 1))
    else (none, rows)

/-- `_DAY_SQL`. -/
def daySql (now : Int) (rows : Rows) : Int :=
  rows.sumWhere fun windowStart => now - day < windowStart

/-- `_PRUNE_SQL`. -/
def pruneSql (now : Int) (rows : Rows) : Rows :=
  rows.deleteWhere fun windowStart _ => windowStart < now - 7 * day

/-- What a statement answers and does to the table. -/
def Stmt.exec (now : Int) (rows : Rows) : (stmt : Stmt) → stmt.Ans × Rows
  | .day => (daySql now rows, rows)
  | .spend hourlyCap => spendSql now hourlyCap rows
  | .spent => (((rows.lookup (hourStart now)).getD 0, daySql now rows), rows)
  | .prune => ((), pruneSql now rows)

/-! ### The workers and the server -/

/-- What a worker knows since its last `_DAY_SQL`: when it ran, what it answered, and how many
increments there were. -/
structure DayRead where
  instant : Int
  sum : Int
  known : Nat

/-- The server and its history. `increments` are the instants of the increments, oldest first;
`holding` is the increment a worker has made and not called on yet; `calls` are the inner calls, each
with its worker and the increment held; `changed` counts the rows a worker's statements changed. -/
structure World (W : Type) where
  now : Int
  latest : Int
  rows : Rows := ∅
  increments : List Int := []
  holding : W → Option Nat := fun _ => none
  calls : List (W × Option Nat) := []
  read : W → Option DayRead := fun _ => none
  changed : W → Nat := fun _ => 0

namespace World

variable {W H : Type} [DecidableEq W]

/-- The server's clock has just been read for the first time, and the table is new. -/
def start (now : Int) : World W := { now := now, latest := now }

/-- How far a statement's `now()` may lie behind the newest one. -/
def lag : Int := 5 * day

/-- The clock goes on. -/
def Clock (before after : World W) : Prop :=
  ∃ reading, before.latest - lag ≤ reading ∧
    after = { before with now := reading, latest := max before.latest reading }

/-- The history after an answer to a statement. -/
def noted (world : World W) (worker : W) : (stmt : Stmt) → stmt.Ans → World W
  | .day, sum =>
    { world with
      read := Function.update world.read worker
        (some ⟨world.now, sum, world.increments.length⟩) }
  | .spend _, some _ =>
    { world with
      increments := world.increments ++ [world.now]
      holding := Function.update world.holding worker (some world.increments.length) }
  | .spend _, none => world
  | .spent, _ => world
  | .prune, _ => world

/-- A statement has been executed for a worker. -/
def executed (world : World W) (worker : W) (stmt : Stmt) : World W :=
  { world.noted worker stmt (stmt.exec world.now world.rows).1 with
    rows := (stmt.exec world.now world.rows).2
    changed := if (stmt.exec world.now world.rows).2 = world.rows then world.changed else
      Function.update world.changed worker (world.changed worker + 1) }

/-- The inner composer has been called by a worker. -/
def called (world : World W) (worker : W) : World W :=
  { world with
    calls := (worker, world.holding worker) :: world.calls
    holding := Function.update world.holding worker none }

/-- **What a worker's call may answer and do.** A statement may fail before or after it took effect;
the inner composer may answer anything, or fail. -/
def Calls (worker : W) : (op : Op H) → World W → Except Exn op.Ans → World W → Prop
  | .sql stmt, before, answer, after =>
    (answer = .ok (stmt.exec before.now before.rows).1 ∧ after = before.executed worker stmt) ∨
      ∃ text, answer = .error (.other text) ∧ (after = before ∨ after = before.executed worker stmt)
  | .inner _ _, before, answer, after =>
    ((∃ text, answer = .ok text) ∨ ∃ text, answer = .error (.other text)) ∧
      after = before.called worker

/-- The instants at which the inner calls were paid for. -/
def paidAt (world : World W) (call : W × Option Nat) : Option Int :=
  call.2.bind fun index => world.increments[index]?

/-- How many inner calls were paid for at such an instant. -/
def callsPaid (world : World W) (matched : Int → Bool) : Nat :=
  world.calls.countP fun call => (world.paidAt call).any matched

/-- How many increments were made at such an instant. -/
def incrementsAt (world : World W) (matched : Int → Bool) : Nat :=
  world.increments.countP matched

end World

/-- **Any number of workers** with the same caps, killed and restarted at any moment. -/
def budgetSystem (W H : Type) [DecidableEq W] (self : BudgetedComposer) :
    System (sig H) Exn (World W) W where
  job _ program := ∃ job : Job H, program = job.program self
  step := World.Calls
  env := World.Clock
  kill _ _ := True

end Freshet.Rag
