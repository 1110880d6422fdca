/-
**Pruning is never noticed.**

`prune` deletes the rows of `llm_budget` that are older than a week, and the checks read a day. A
statement's clock may lag behind the newest one by less than the difference, so no answer ever depends
on a row that has been pruned: every run of the workers is a run of workers whose `prune` deletes
nothing, with the same answers, the same refusals and the same calls (`prune_invisible`).
-/

import Freshet.Rag.Caps

set_option linter.unusedSectionVars false

namespace Freshet.Rag

open Freshet.Lib

variable {W H : Type} [DecidableEq W] {composer : BudgetedComposer}

/-! ### A server that keeps every row -/

/-- `prune` is answered and nothing is deleted. -/
def Stmt.execKeeping (now : Int) (rows : Rows) : (stmt : Stmt) → stmt.Ans × Rows
  | .prune => ((), rows)
  | .day => Stmt.exec now rows .day
  | .spend hourlyCap => Stmt.exec now rows (.spend hourlyCap)
  | .spent => Stmt.exec now rows .spent

namespace World

/-- A statement has been executed there. -/
def executedKeeping (world : World W) (worker : W) (stmt : Stmt) : World W :=
  { world.noted worker stmt (stmt.execKeeping world.now world.rows).1 with
    rows := (stmt.execKeeping world.now world.rows).2 }

/-- What a worker's call may answer and do there. -/
def CallsKeeping (worker : W) : (op : Op H) → World W → Except Exn op.Ans → World W → Prop
  | .sql stmt, before, answer, after =>
    (answer = .ok (stmt.execKeeping before.now before.rows).1 ∧
        after = before.executedKeeping worker stmt) ∨
      ∃ text, answer = .error (.other text) ∧
        (after = before ∨ after = before.executedKeeping worker stmt)
  | .inner _ _, before, answer, after =>
    ((∃ text, answer = .ok text) ∨ ∃ text, answer = .error (.other text)) ∧
      after = before.called worker

end World

/-- The workers of `budgetSystem` on that server. -/
def keepingSystem (W H : Type) [DecidableEq W] (self : BudgetedComposer) :
    System (sig H) Exn (World W) W where
  job := (budgetSystem W H self).job
  step := World.CallsKeeping
  env := World.Clock
  kill _ _ := True

/-! ### The two tables -/

/-- **All that can still be read is the same**, and so is the history but for the count of changes. -/
structure Alike (world keeping : World W) : Prop where
  now : keeping.now = world.now
  latest : keeping.latest = world.latest
  clock : world.latest - World.lag ≤ world.now ∧ world.now ≤ world.latest
  rows : ∀ start, world.latest - 7 * day ≤ start →
    keeping.rows.lookup start = world.rows.lookup start
  sums : ∀ matched : Int → Bool, (∀ start, matched start = true → world.latest - 7 * day ≤ start) →
    keeping.rows.sumWhere matched = world.rows.sumWhere matched
  increments : keeping.increments = world.increments
  holding : keeping.holding = world.holding
  calls : keeping.calls = world.calls
  read : keeping.read = world.read

theorem alike_start (now : Int) : Alike (World.start now : World W) (World.start now) where
  now := rfl
  latest := rfl
  clock := by
    show now - World.lag ≤ now ∧ now ≤ now
    unfold World.lag day hour
    omega
  rows _ _ := rfl
  sums _ _ := rfl
  increments := rfl
  holding := rfl
  calls := rfl
  read := rfl

section Steps

variable {world keeping : World W}

theorem Alike.clock_moved (alike : Alike world keeping) {after : World W}
    (moved : World.Clock world after) :
    ∃ after', World.Clock keeping after' ∧ Alike after after' := by
  obtain ⟨reading, behind, rfl⟩ := moved
  refine ⟨_, ⟨reading, by rw [alike.latest]; exact behind, rfl⟩, ?_⟩
  have newer : ∀ start, max world.latest reading - 7 * day ≤ start →
      world.latest - 7 * day ≤ start := by
    intro start recent
    omega
  refine ⟨rfl, ?_, ?_, fun start recent => alike.rows start (newer start recent),
    fun matched kept => alike.sums matched fun start here => newer start (kept start here),
    alike.increments, alike.holding, alike.calls, alike.read⟩
  · show max keeping.latest reading = max world.latest reading
    rw [alike.latest]
  · show max world.latest reading - World.lag ≤ reading ∧ reading ≤ max world.latest reading
    unfold World.lag day hour at *
    omega

/-- The row that a spend looks at has not been pruned. -/
theorem Alike.hour (alike : Alike world keeping) :
    keeping.rows.lookup (hourStart world.now) = world.rows.lookup (hourStart world.now) := by
  refine alike.rows _ ?_
  have clock := alike.clock.1
  have start := lt_hourStart world.now
  unfold World.lag at clock
  unfold day Rag.hour at *
  omega

/-- Nor have those that the check of the day adds up. -/
theorem Alike.daySql (alike : Alike world keeping) :
    daySql keeping.now keeping.rows = daySql world.now world.rows := by
  unfold Rag.daySql
  rw [alike.now]
  refine alike.sums _ fun start recent => ?_
  have inside : world.now - day < start := of_decide_eq_true recent
  have clock := alike.clock.1
  unfold World.lag at clock
  unfold day Rag.hour at *
  omega

/-- **Every answer is the same.** -/
theorem Alike.answer (alike : Alike world keeping) (stmt : Stmt) :
    (stmt.execKeeping keeping.now keeping.rows).1 = (stmt.exec world.now world.rows).1 := by
  cases stmt with
  | day => exact alike.daySql
  | spend hourlyCap =>
    show (spendSql keeping.now hourlyCap keeping.rows).1 = (spendSql world.now hourlyCap world.rows).1
    unfold spendSql
    rw [alike.now, alike.hour]
    cases world.rows.lookup (hourStart world.now) with
    | none => rfl
    | some calls =>
      dsimp only
      split_ifs <;> rfl
  | spent =>
    show ((keeping.rows.lookup (hourStart keeping.now)).getD 0, Rag.daySql keeping.now keeping.rows) =
      ((world.rows.lookup (hourStart world.now)).getD 0, Rag.daySql world.now world.rows)
    rw [alike.daySql, alike.now, alike.hour]
  | prune => rfl

/-- The tables after a spend. -/
theorem Alike.spendSql (alike : Alike world keeping) (hourlyCap : Int) :
    (∀ start, world.latest - 7 * day ≤ start →
      (spendSql keeping.now hourlyCap keeping.rows).2.lookup start =
        (spendSql world.now hourlyCap world.rows).2.lookup start) ∧
    ∀ matched : Int → Bool, (∀ start, matched start = true → world.latest - 7 * day ≤ start) →
      (spendSql keeping.now hourlyCap keeping.rows).2.sumWhere matched =
        (spendSql world.now hourlyCap world.rows).2.sumWhere matched := by
  have inserted : ∀ calls,
      (∀ start, world.latest - 7 * day ≤ start →
        (keeping.rows.insert (hourStart world.now) calls).lookup start =
          (world.rows.insert (hourStart world.now) calls).lookup start) ∧
      ∀ matched : Int → Bool, (∀ start, matched start = true → world.latest - 7 * day ≤ start) →
        Table.sumWhere matched (keeping.rows.insert (hourStart world.now) calls) =
          Table.sumWhere matched (world.rows.insert (hourStart world.now) calls) := by
    intro calls
    constructor
    · intro start recent
      by_cases same : start = hourStart world.now
      · rw [same, AList.lookup_insert, AList.lookup_insert]
      · rw [AList.lookup_insert_ne same, AList.lookup_insert_ne same]
        exact alike.rows start recent
    · intro matched kept
      rw [Table.sumWhere_insert, Table.sumWhere_insert, alike.sums matched kept, alike.hour]
  unfold Rag.spendSql
  rw [alike.now, alike.hour]
  cases world.rows.lookup (hourStart world.now) with
  | none => exact inserted 1
  | some calls =>
    dsimp only
    split_ifs
    · exact inserted (calls + 1)
    · exact ⟨alike.rows, alike.sums⟩

/-- The tables after a pruning. -/
theorem Alike.pruneSql (alike : Alike world keeping) :
    (∀ start, world.latest - 7 * day ≤ start →
      keeping.rows.lookup start = (pruneSql world.now world.rows).lookup start) ∧
    ∀ matched : Int → Bool, (∀ start, matched start = true → world.latest - 7 * day ≤ start) →
      keeping.rows.sumWhere matched = (pruneSql world.now world.rows).sumWhere matched := by
  have clock := alike.clock.2
  have spared : ∀ start, world.latest - 7 * day ≤ start →
      decide (start < world.now - 7 * day) = false := by
    intro start recent
    refine decide_eq_false fun old => ?_
    omega
  constructor
  · intro start recent
    unfold Rag.pruneSql
    rw [Table.lookup_deleteWhere, alike.rows start recent]
    cases world.rows.lookup start with
    | none => rfl
    | some calls =>
      rw [Option.filter_some, spared start recent]
      rfl
  · intro matched kept
    rw [alike.sums matched kept]
    exact (Table.sumWhere_deleteWhere (fun start _ counted => spared start (kept start counted))
      world.rows).symm

/-- **Every statement keeps them alike.** -/
theorem Alike.executed (alike : Alike world keeping) (worker : W) (stmt : Stmt) :
    Alike (world.executed worker stmt) (keeping.executedKeeping worker stmt) := by
  have answer := alike.answer stmt
  cases stmt with
  | day =>
    refine { alike with read := ?_ }
    show Function.update keeping.read worker
        (some ⟨keeping.now, Rag.daySql keeping.now keeping.rows, keeping.increments.length⟩) =
      Function.update world.read worker
        (some ⟨world.now, Rag.daySql world.now world.rows, world.increments.length⟩)
    rw [alike.daySql, alike.read, alike.now, alike.increments]
  | spent => exact { alike with }
  | prune =>
    obtain ⟨rows, sums⟩ := alike.pruneSql
    exact { alike with rows := rows, sums := sums }
  | spend hourlyCap =>
    obtain ⟨rows, sums⟩ := alike.spendSql hourlyCap
    have noted : ∀ answer : Option Int,
        (world.noted worker (.spend hourlyCap) answer).now = world.now ∧
        (world.noted worker (.spend hourlyCap) answer).latest = world.latest ∧
        (keeping.noted worker (.spend hourlyCap) answer).now = world.now ∧
        (keeping.noted worker (.spend hourlyCap) answer).latest = world.latest ∧
        (keeping.noted worker (.spend hourlyCap) answer).increments =
          (world.noted worker (.spend hourlyCap) answer).increments ∧
        (keeping.noted worker (.spend hourlyCap) answer).holding =
          (world.noted worker (.spend hourlyCap) answer).holding ∧
        (keeping.noted worker (.spend hourlyCap) answer).calls =
          (world.noted worker (.spend hourlyCap) answer).calls ∧
        (keeping.noted worker (.spend hourlyCap) answer).read =
          (world.noted worker (.spend hourlyCap) answer).read := by
      intro answer
      cases answer with
      | none =>
        exact ⟨rfl, rfl, alike.now, alike.latest, alike.increments, alike.holding, alike.calls,
          alike.read⟩
      | some calls =>
        refine ⟨rfl, rfl, alike.now, alike.latest, ?_, ?_, alike.calls, alike.read⟩
        · show keeping.increments ++ [keeping.now] = world.increments ++ [world.now]
          rw [alike.increments, alike.now]
        · show Function.update keeping.holding worker (some keeping.increments.length) =
            Function.update world.holding worker (some world.increments.length)
          rw [alike.holding, alike.increments]
    unfold World.executed World.executedKeeping
    rw [answer]
    obtain ⟨now, latest, now', latest', increments, holding, calls, read⟩ :=
      noted (Stmt.exec world.now world.rows (.spend hourlyCap)).1
    refine ⟨now'.trans now.symm, latest'.trans latest.symm, ?_, ?_, ?_, increments, holding, calls,
      read⟩
    · show (world.noted worker _ _).latest - World.lag ≤ (world.noted worker _ _).now ∧
        (world.noted worker _ _).now ≤ (world.noted worker _ _).latest
      rw [now, latest]
      exact alike.clock
    · intro start recent
      refine rows start ?_
      rw [← latest]
      exact recent
    · intro matched kept
      refine sums matched fun start here => ?_
      rw [← latest]
      exact kept start here

theorem Alike.called (alike : Alike world keeping) (worker : W) :
    Alike (world.called worker) (keeping.called worker) := by
  refine { alike with holding := ?_, calls := ?_ }
  · show Function.update keeping.holding worker none = Function.update world.holding worker none
    rw [alike.holding]
  · show (worker, keeping.holding worker) :: keeping.calls =
      (worker, world.holding worker) :: world.calls
    rw [alike.holding, alike.calls]

/-- **One call, on both servers.** -/
theorem Alike.call (alike : Alike world keeping) {worker : W} {op : Op H}
    {answer : Except Exn op.Ans} {after : World W} (calls : World.Calls worker op world answer after) :
    ∃ after', World.CallsKeeping worker op keeping answer after' ∧ Alike after after' := by
  cases op with
  | sql stmt =>
    have same := alike.answer stmt
    rcases calls with ⟨rfl, rfl⟩ | ⟨text, rfl, rfl | rfl⟩
    · refine ⟨_, Or.inl ⟨?_, rfl⟩, alike.executed worker stmt⟩
      rw [same]
    · exact ⟨keeping, Or.inr ⟨text, rfl, Or.inl rfl⟩, alike⟩
    · exact ⟨_, Or.inr ⟨text, rfl, Or.inr rfl⟩, alike.executed worker stmt⟩
  | inner question hits =>
    obtain ⟨answered, rfl⟩ := calls
    exact ⟨_, ⟨answered, rfl⟩, alike.called worker⟩

end Steps

/-- **A run with pruning is a run without it**: every worker stands in the same place of its program,
and the increments and the inner calls are the same. -/
theorem prune_invisible {start : Int} {last : Pool (sig H) Exn (World W) W}
    (run : Pool.Reaches (budgetSystem W H composer) (Pool.idle (World.start start)) last) :
    ∃ keeping : World W,
      Pool.Reaches (keepingSystem W H composer) (Pool.idle (World.start start))
        ⟨keeping, last.prog⟩ ∧
      keeping.increments = last.shared.increments ∧ keeping.calls = last.shared.calls := by
  obtain ⟨keeping, reached, alike⟩ := @Pool.reaches_related _ _ _ _ _ (budgetSystem W H composer) _
    (keepingSystem W H composer) Alike _ _ (World.start start) (fun _ _ taken => taken)
    (fun _ _ _ _ _ _ alike calls => alike.call calls)
    (fun _ _ _ alike moved => alike.clock_moved moved) (fun _ _ _ _ _ => trivial) run
    (alike_start start)
  exact ⟨keeping, reached, alike.increments, alike.calls⟩

/-! ### A run -/

/-- One worker has composed an answer. -/
def composedOnce : World Unit :=
  Pool.runAll (smoothServer ()) (World.start 0) [(Job.compose "?" ()).program ⟨60, 500⟩]

/-- Eight days later it prunes. -/
def prunedLater : World Unit :=
  Pool.runAll (smoothServer ())
    { composedOnce with now := 8 * day, latest := max composedOnce.latest (8 * day) }
    [(Job.prune (H := Unit)).program ⟨60, 500⟩]

/-- Its row is gone, and the run is one of a server that keeps it. -/
theorem prune_invisible_later : prunedLater.rows = ∅ ∧
    ∃ keeping prog, Pool.Reaches (keepingSystem Unit Unit ⟨60, 500⟩) (Pool.idle (World.start 0))
      ⟨keeping, prog⟩ ∧ keeping.increments = [0] ∧ keeping.calls = [((), some 0)] := by
  obtain ⟨prog, reaches, free⟩ := @Pool.reaches_runAll _ _ _ _ _ (budgetSystem Unit Unit ⟨60, 500⟩)
    () (smoothServer ()) (calls_smooth ()) [(Job.compose "?" ()).program ⟨60, 500⟩]
    (fun _ member => ⟨_, List.mem_singleton.mp member⟩) (Pool.idle (World.start 0)) trivial
  have clock : World.Clock composedOnce
      { composedOnce with now := 8 * day, latest := max composedOnce.latest (8 * day) } :=
    ⟨8 * day, by decide, rfl⟩
  obtain ⟨prog', reaches', -⟩ := @Pool.reaches_runAll _ _ _ _ _ (budgetSystem Unit Unit ⟨60, 500⟩)
    () (smoothServer ()) (calls_smooth ()) [(Job.prune (H := Unit)).program ⟨60, 500⟩]
    (fun _ member => ⟨_, List.mem_singleton.mp member⟩)
    ⟨{ composedOnce with now := 8 * day, latest := max composedOnce.latest (8 * day) }, prog⟩ free
  obtain ⟨keeping, kept, increments, calls⟩ :=
    prune_invisible ((reaches.tail (.env _ clock)).trans reaches')
  exact ⟨by rfl, keeping, prog', kept, increments.trans (by rfl), calls.trans (by rfl)⟩

end Freshet.Rag
