/-
**What the two caps guarantee.**

* `Books`: the table agrees with the history. A row holds the number of increments of its hour
  unless it was pruned, no hour has more increments than the cap, and every inner call was made on an
  increment of its own. Every step keeps it (`books_executed`, `books_called`, `books_clock`).
* `hourly_cap_hard`: hence the hourly cap.
* The daily cap is a check and then an act, and the check counts whole hours. Where nothing comes
  between the two and no hour that counts has left the sum (`Undisturbed`), the daily cap holds in any
  24 hours (`daily_cap_of_undisturbed`). Else two workers exceed it (`daily_cap_exceeded`), and so does
  one alone (`daily_cap_exceeded_alone`).
-/

import Freshet.Rag.Budget
import Mathlib.Data.List.Induction

set_option linter.unusedSectionVars false

namespace Freshet.Rag

open Freshet.Lib

variable {W H : Type} [DecidableEq W] {composer : BudgetedComposer}

/-! ### What an attempt does, in order -/

/-- Where a worker stands in its attempt. -/
inductive Phase where
  | rest
  | checked
  | paid
  deriving DecidableEq

/-- **One attempt**: it reads the day, spends when the sum is below the cap, and calls the inner
composer when the spend was admitted. -/
def attemptProtocol (H : Type) (composer : BudgetedComposer) : Machine (sig H) Exn Phase where
  safe op phase := match op with
    | .sql (.spend hourlyCap) => phase = .checked ∧ hourlyCap = composer.hourlyCap
    | .inner _ _ => phase = .paid
    | .sql _ => phase = .rest
  step op _ answer after := match op, answer with
    | .sql .day, .ok sum => after = if sum < composer.dailyCap then .checked else .rest
    | .sql (.spend _), .ok (some _) => after = .paid
    | _, _ => after = .rest

theorem spend_follows :
    (composer.spend : Budgeted H Unit).wp (attemptProtocol H composer)
      (fun outcome phase => phase = match outcome with | .ok _ => .paid | .error _ => .rest)
      .rest := by
  unfold BudgetedComposer.spend
  split_ifs with disabled
  · rfl
  · refine ⟨rfl, ?_⟩
    intro answer phase moved
    cases answer with
    | error exn => exact moved
    | ok sum =>
      have next : phase = if sum < composer.dailyCap then .checked else .rest := moved
      show (composer.underDaily sum).wp _ _ phase
      unfold BudgetedComposer.underDaily
      split_ifs with beyond
      · rw [next, if_neg (not_lt_of_ge beyond)]
        rfl
      · rw [next, if_pos (lt_of_not_ge beyond)]
        refine ⟨⟨rfl, rfl⟩, ?_⟩
        intro answer phase moved
        cases answer with
        | error exn => exact moved
        | ok row => cases row <;> exact moved

/-- Every job follows the protocol. -/
theorem job_follows (job : Job H) :
    (job.program composer).wp (attemptProtocol H composer) (fun _ phase => phase = .rest) .rest := by
  cases job with
  | compose question hits =>
    show ((composer.spend.bind fun _ => ask (.inner question hits)).bind fun _ => .ret ()).wp _ _ _
    rw [Prog.bind_assoc, Prog.wp_bind]
    refine Prog.wp_mono ?_ spend_follows
    intro outcome phase at_end
    cases outcome with
    | error exn => exact at_end
    | ok value =>
      refine ⟨at_end, ?_⟩
      intro answer phase moved
      cases answer <;> exact moved
  | spent =>
    refine ⟨rfl, ?_⟩
    intro answer phase moved
    cases answer <;> exact moved
  | prune =>
    refine ⟨rfl, ?_⟩
    intro answer phase moved
    cases answer <;> exact moved

/-! ### The books -/

/-- The table and the history agree. The first increment of an hour is not guarded, so an hour has at
most `max cap 1` of them. -/
structure Books (cap : Int) (world : World W) : Prop where
  clock : world.latest - World.lag ≤ world.now ∧ world.now ≤ world.latest
  /-- Rows that cannot have been pruned hold their hour's increments. -/
  rows : ∀ matched : Int → Bool, (∀ start, matched start = true → world.latest - 7 * day ≤ start) →
    world.rows.sumWhere matched = world.incrementsAt fun instant => matched (hourStart instant)
  capped : ∀ start, (world.incrementsAt fun instant => hourStart instant = start : Int) ≤ max cap 1
  /-- An increment a worker holds has not been called on, and is held by nobody else. -/
  held : ∀ worker index, world.holding worker = some index →
    index < world.increments.length ∧ (∀ call ∈ world.calls, call.2 ≠ some index) ∧
      ∀ other, world.holding other = some index → other = worker
  paid : ∀ call ∈ world.calls, ∃ index, call.2 = some index ∧ index < world.increments.length
  own : (world.calls.map Prod.snd).Nodup
  read : ∀ worker read, world.read worker = some read → read.known ≤ world.increments.length ∧
    read.sum = (world.increments.take read.known).countP fun instant =>
      read.instant - day < hourStart instant

theorem books_start (now cap : Int) :
    Books cap (World.start now : World W) where
  clock := by
    show now - World.lag ≤ now ∧ now ≤ now
    unfold World.lag day hour
    omega
  rows _ _ := rfl
  capped _ := by
    show (0 : Int) ≤ max cap 1
    omega
  held _ _ impossible := absurd impossible (by simp [World.start])
  paid _ impossible := absurd impossible (by simp [World.start])
  own := List.nodup_nil
  read _ _ impossible := absurd impossible (by simp [World.start])

section Steps

variable {cap : Int} {world : World W}

/-- The current hour's row has never been pruned. -/
theorem Books.hour_kept (books : Books cap world) :
    world.latest - 7 * day ≤ hourStart world.now := by
  have clock := books.clock.1
  have start := lt_hourStart world.now
  unfold World.lag at clock
  unfold day hour at *
  omega

/-- The row of an hour that cannot have been pruned. -/
theorem Books.row (books : Books cap world) {start : Int}
    (kept : world.latest - 7 * day ≤ start) :
    (world.rows.lookup start).getD 0 =
      world.incrementsAt fun instant => hourStart instant = start := by
  rw [← Table.sumWhere_key, books.rows _ fun other same => by
    rw [of_decide_eq_true same]
    exact kept]

theorem books_clock {after : World W} (books : Books cap world) (moved : World.Clock world after) :
    Books cap after := by
  obtain ⟨reading, behind, rfl⟩ := moved
  refine { books with clock := ?_, rows := ?_ }
  · show max world.latest reading - World.lag ≤ reading ∧ reading ≤ max world.latest reading
    unfold World.lag day hour at *
    omega
  · intro matched kept
    refine books.rows matched fun start held => ?_
    have recent : max world.latest reading - 7 * day ≤ start := kept start held
    omega

/-- The hour's row admits one more increment. -/
def HasRoom (hourlyCap : Int) (world : World W) : Prop :=
  ∀ calls, world.rows.lookup (hourStart world.now) = some calls → calls < hourlyCap

theorem spendSql_room {hourlyCap : Int} (room : HasRoom hourlyCap world) :
    spendSql world.now hourlyCap world.rows =
      (some ((world.rows.lookup (hourStart world.now)).getD 0 + 1),
        world.rows.insert (hourStart world.now)
          ((world.rows.lookup (hourStart world.now)).getD 0 + 1)) := by
  unfold spendSql
  cases found : world.rows.lookup (hourStart world.now) with
  | none => rfl
  | some calls => simp [room calls found]

theorem spendSql_full {hourlyCap : Int} (full : ¬ HasRoom hourlyCap world) :
    spendSql world.now hourlyCap world.rows = (none, world.rows) := by
  unfold spendSql
  cases found : world.rows.lookup (hourStart world.now) with
  | none =>
    refine absurd (fun calls row => ?_) full
    rw [found] at row
    exact absurd row.symm (Option.some_ne_none calls)
  | some calls =>
    have beyond : ¬ calls < hourlyCap := by
      intro below
      refine full fun other row => ?_
      rw [found] at row
      exact Option.some_injective _ row ▸ below
    simp [beyond]

/-- One more increment at `now`, counted. -/
theorem countP_snoc (matched : Int → Bool) (instants : List Int) (now : Int) :
    ((instants ++ [now]).countP matched : Int) =
      instants.countP matched + if matched now then 1 else 0 := by
  rw [List.countP_append, List.countP_singleton]
  split_ifs <;> simp

theorem books_spend (books : Books cap world) (worker : W)
    (room : HasRoom cap world) : Books cap (world.executed worker (.spend cap)) := by
  have stmt : Stmt.exec world.now world.rows (.spend cap) = _ := spendSql_room room
  have row := books.row books.hour_kept
  have grown : (world.executed worker (.spend cap)).increments =
      world.increments ++ [world.now] := by
    simp only [World.executed, stmt, World.noted]
  have written : (world.executed worker (.spend cap)).rows =
      world.rows.insert (hourStart world.now)
        ((world.rows.lookup (hourStart world.now)).getD 0 + 1) := by
    simp only [World.executed, stmt]
  have holding : (world.executed worker (.spend cap)).holding =
      Function.update world.holding worker (some world.increments.length) := by
    simp only [World.executed, stmt, World.noted]
  have calls : (world.executed worker (.spend cap)).calls = world.calls := by
    simp only [World.executed, stmt, World.noted]
  have reads : (world.executed worker (.spend cap)).read = world.read := by
    simp only [World.executed, stmt, World.noted]
  have clock : (world.executed worker (.spend cap)).now = world.now ∧
      (world.executed worker (.spend cap)).latest = world.latest := by
    simp only [World.executed, stmt, World.noted, and_self]
  have counted : ∀ matched : Int → Bool,
      ((world.executed worker (.spend cap)).incrementsAt matched : Int) =
        world.incrementsAt matched + if matched world.now then 1 else 0 := by
    intro matched
    unfold World.incrementsAt
    rw [grown, countP_snoc]
  refine ⟨?_, ?_, ?_, ?_, ?_, ?_, ?_⟩
  · rw [clock.1, clock.2]
    exact books.clock
  · intro matched kept
    rw [clock.2] at kept
    rw [counted, written, Table.sumWhere_insert, books.rows matched kept]
    unfold Table.share
    split_ifs <;> simp
    omega
  · intro start
    rw [counted]
    have before := books.capped start
    split_ifs with same
    · have here : hourStart world.now = start := of_decide_eq_true same
      rw [← here, ← row]
      cases found : world.rows.lookup (hourStart world.now) with
      | none =>
        show (0 : Int) + 1 ≤ max cap 1
        omega
      | some calls =>
        have below := room calls found
        show calls + 1 ≤ max cap 1
        omega
    · omega
  · intro other index held
    rw [holding] at held
    rw [grown, calls, holding, List.length_append, List.length_singleton]
    by_cases same : other = worker
    · subst same
      rw [Function.update_self] at held
      obtain rfl : world.increments.length = index := Option.some_injective _ held
      refine ⟨by omega, fun call member used => ?_, fun third held => ?_⟩
      · obtain ⟨earlier, paid, bound⟩ := books.paid call member
        rw [used] at paid
        have := Option.some_injective _ paid
        omega
      · by_contra apart
        rw [Function.update_of_ne apart] at held
        have := (books.held third _ held).1
        omega
    · rw [Function.update_of_ne same] at held
      obtain ⟨bound, unused, alone⟩ := books.held other index held
      refine ⟨by omega, unused, fun third held => ?_⟩
      by_cases third_worker : third = worker
      · subst third_worker
        rw [Function.update_self] at held
        have := Option.some_injective _ held
        omega
      · rw [Function.update_of_ne third_worker] at held
        exact alone third held
  · intro call member
    rw [calls] at member
    obtain ⟨index, paid, bound⟩ := books.paid call member
    refine ⟨index, paid, ?_⟩
    rw [grown, List.length_append]
    omega
  · rw [calls]
    exact books.own
  · intro other read known
    rw [reads] at known
    obtain ⟨bound, sum⟩ := books.read other read known
    rw [grown, List.length_append, List.take_append_of_le_length bound]
    exact ⟨by omega, sum⟩

/-- A statement that writes nothing but the clock's readings of the history keeps the books. -/
theorem books_executed (books : Books cap world) (worker : W) (stmt : Stmt)
    (capped : ∀ hourlyCap, stmt = .spend hourlyCap → hourlyCap = cap) :
    Books cap (world.executed worker stmt) := by
  cases stmt with
  | day =>
    refine { books with read := ?_ }
    intro other read known
    by_cases same : other = worker
    · subst same
      have noted : (⟨world.now, daySql world.now world.rows, world.increments.length⟩ : DayRead) =
          read := Option.some_injective _ ((Function.update_self other _ world.read).symm.trans known)
      subst noted
      refine ⟨le_refl _, ?_⟩
      show daySql world.now world.rows = ((world.increments.take world.increments.length).countP
        fun instant => decide (world.now - day < hourStart instant) : Nat)
      rw [List.take_length]
      refine books.rows _ fun start recent => ?_
      have inside : world.now - day < start := of_decide_eq_true recent
      have clock := books.clock.1
      unfold World.lag at clock
      unfold day hour at *
      omega
    · exact books.read other read ((Function.update_of_ne same _ world.read).symm.trans known)
  | spend hourlyCap =>
    obtain rfl := capped hourlyCap rfl
    by_cases room : HasRoom hourlyCap world
    · exact books_spend books worker room
    · have stmt : Stmt.exec world.now world.rows (.spend hourlyCap) = _ := spendSql_full room
      have same : world.executed worker (.spend hourlyCap) = world := by
        simp only [World.executed, stmt, World.noted, if_true]
      rw [same]
      exact books
  | spent => exact { books with }
  | prune =>
    refine { books with rows := ?_ }
    intro matched kept
    show (pruneSql world.now world.rows).sumWhere matched =
      world.incrementsAt fun instant => matched (hourStart instant)
    rw [← books.rows matched kept]
    refine Table.sumWhere_deleteWhere (fun start _ counted => ?_) world.rows
    have recent := kept start counted
    have clock := books.clock.2
    refine decide_eq_false fun old => ?_
    have late : world.latest - 7 * day ≤ start := recent
    omega

theorem books_called {worker : W} {index : Nat} (books : Books cap world)
    (holding : world.holding worker = some index) : Books cap (world.called worker) := by
  obtain ⟨bound, unused, alone⟩ := books.held worker index holding
  refine { books with held := ?_, paid := ?_, own := ?_ }
  · intro other held_index held
    by_cases same : other = worker
    · subst same
      exact absurd ((Function.update_self other _ world.holding).symm.trans held).symm
        (Option.some_ne_none held_index)
    · have before := (Function.update_of_ne same _ world.holding).symm.trans held
      obtain ⟨below, others, only⟩ := books.held other held_index before
      refine ⟨below, fun call member => ?_, fun third third_held => ?_⟩
      · rcases List.mem_cons.mp member with rfl | earlier
        · intro used
          exact same (only worker used).symm
        · exact others call earlier
      · by_cases third_worker : third = worker
        · subst third_worker
          exact absurd ((Function.update_self third _ world.holding).symm.trans third_held).symm
            (Option.some_ne_none held_index)
        · exact only third ((Function.update_of_ne third_worker _ world.holding).symm.trans
            third_held)
  · intro call member
    rcases List.mem_cons.mp member with rfl | earlier
    · exact ⟨index, holding, bound⟩
    · exact books.paid call earlier
  · refine List.nodup_cons.mpr ⟨fun member => ?_, books.own⟩
    obtain ⟨call, earlier, same⟩ := List.mem_map.mp member
    exact unused call earlier (same.trans holding)

end Steps

/-! ### Every run -/

/-- The books are kept, and each worker stands where its program says. -/
structure Kept (composer : BudgetedComposer) (world : World W) (phases : W → Phase) : Prop where
  books : Books composer.hourlyCap world
  checked : ∀ worker, phases worker = .checked →
    ∃ read, world.read worker = some read ∧ read.sum < composer.dailyCap
  paid : ∀ worker, phases worker = .paid → ∃ index, world.holding worker = some index

theorem kept_start (now : Int) : Kept composer (World.start now : World W) fun _ => .rest where
  books := books_start now composer.hourlyCap
  checked _ impossible := absurd impossible (by simp)
  paid _ impossible := absurd impossible (by simp)

theorem kept_clock {world after : World W} {phases : W → Phase} (kept : Kept composer world phases)
    (moved : World.Clock world after) : Kept composer after phases := by
  refine ⟨books_clock kept.books moved, ?_, ?_⟩
  · obtain ⟨reading, behind, rfl⟩ := moved
    exact kept.checked
  · obtain ⟨reading, behind, rfl⟩ := moved
    exact kept.paid

/-- What is known of the other workers stays, and a worker at rest owes nothing. -/
theorem Kept.moved {world after : World W} {phases : W → Phase} (kept : Kept composer world phases)
    (worker : W) {phase : Phase} (books : Books composer.hourlyCap after)
    (read : ∀ other, other ≠ worker → after.read other = world.read other)
    (holding : ∀ other, other ≠ worker → after.holding other = world.holding other)
    (checked : phase = .checked →
      ∃ read, after.read worker = some read ∧ read.sum < composer.dailyCap)
    (paid : phase = .paid → ∃ index, after.holding worker = some index) :
    Kept composer after (Function.update phases worker phase) := by
  refine ⟨books, fun other at_other => ?_, fun other at_other => ?_⟩
  · by_cases same : other = worker
    · subst same
      rw [Function.update_self] at at_other
      exact checked at_other
    · rw [Function.update_of_ne same] at at_other
      rw [read other same]
      exact kept.checked other at_other
  · by_cases same : other = worker
    · subst same
      rw [Function.update_self] at at_other
      exact paid at_other
    · rw [Function.update_of_ne same] at at_other
      rw [holding other same]
      exact kept.paid other at_other

/-- Only the worker's own entries of the history change with its statements. -/
theorem executed_others (world : World W) (worker : W) (stmt : Stmt) {other : W}
    (apart : other ≠ worker) :
    (world.executed worker stmt).read other = world.read other ∧
      (world.executed worker stmt).holding other = world.holding other := by
  cases stmt with
  | day => exact ⟨Function.update_of_ne apart _ _, rfl⟩
  | spend hourlyCap =>
    by_cases room : HasRoom hourlyCap world
    · have stmt : Stmt.exec world.now world.rows (.spend hourlyCap) = _ := spendSql_room room
      simp only [World.executed, stmt, World.noted, true_and]
      exact Function.update_of_ne apart _ _
    · have stmt : Stmt.exec world.now world.rows (.spend hourlyCap) = _ := spendSql_full room
      simp only [World.executed, stmt, World.noted, and_self]
  | spent => exact ⟨rfl, rfl⟩
  | prune => exact ⟨rfl, rfl⟩

/-- A statement whose answer was lost leaves its worker at rest. -/
theorem kept_executed {world : World W} {phases : W → Phase} (kept : Kept composer world phases)
    (worker : W) (stmt : Stmt)
    (capped : ∀ hourlyCap, stmt = .spend hourlyCap → hourlyCap = composer.hourlyCap) :
    Kept composer (world.executed worker stmt) (Function.update phases worker .rest) := by
  refine kept.moved worker (books_executed kept.books worker stmt capped)
    (fun other apart => (executed_others world worker stmt apart).1)
    (fun other apart => (executed_others world worker stmt apart).2) ?_ ?_
  · intro impossible
    exact absurd impossible (by simp)
  · intro impossible
    exact absurd impossible (by simp)

theorem kept_rest {world : World W} {phases : W → Phase} (kept : Kept composer world phases)
    (worker : W) : Kept composer world (Function.update phases worker .rest) := by
  refine kept.moved worker kept.books (fun _ _ => rfl) (fun _ _ => rfl) ?_ ?_
  · intro impossible
    exact absurd impossible (by simp)
  · intro impossible
    exact absurd impossible (by simp)

/-- A protocol step, and what it keeps. -/
def Advances (composer : BudgetedComposer) (phases : W → Phase) (worker : W) (op : Op H)
    (answer : Except Exn op.Ans) (after : World W) : Prop :=
  ∃ phase, (attemptProtocol H composer).step op (phases worker) answer phase ∧
    Kept composer after (Function.update phases worker phase)

theorem kept_answered {world : World W} {phases : W → Phase} (kept : Kept composer world phases)
    (worker : W) (stmt : Stmt) (safe : (attemptProtocol H composer).safe (.sql stmt) (phases worker)) :
    Advances composer phases worker (.sql stmt : Op H) (.ok (stmt.exec world.now world.rows).1)
      (world.executed worker stmt) := by
  cases stmt with
  | day =>
    refine ⟨if daySql world.now world.rows < composer.dailyCap then .checked else .rest, rfl, ?_⟩
    refine kept.moved worker (books_executed kept.books worker .day (by simp))
      (fun other apart => (executed_others world worker .day apart).1)
      (fun other apart => (executed_others world worker .day apart).2) ?_ ?_
    · intro at_checked
      refine ⟨_, Function.update_self .., ?_⟩
      show daySql world.now world.rows < composer.dailyCap
      by_contra beyond
      rw [if_neg beyond] at at_checked
      exact absurd at_checked (by simp)
    · intro at_paid
      split_ifs at at_paid
  | spend hourlyCap =>
    obtain rfl := safe.2
    have books := books_executed kept.books worker (.spend composer.hourlyCap) (by simp)
    have others := fun other (apart : other ≠ worker) =>
      executed_others world worker (.spend composer.hourlyCap) apart
    by_cases room : HasRoom composer.hourlyCap world
    · have stmt : Stmt.exec world.now world.rows (.spend composer.hourlyCap) = _ := spendSql_room room
      refine ⟨.paid, by rw [stmt]; rfl, ?_⟩
      refine kept.moved worker books (fun other apart => (others other apart).1)
        (fun other apart => (others other apart).2) (by simp) ?_
      intro _
      refine ⟨world.increments.length, ?_⟩
      simp only [World.executed, stmt, World.noted, Function.update_self]
    · have stmt : Stmt.exec world.now world.rows (.spend composer.hourlyCap) = _ := spendSql_full room
      exact ⟨.rest, by rw [stmt]; rfl, kept_executed kept worker _ (by simp)⟩
  | spent => exact ⟨.rest, rfl, kept_executed kept worker _ (by simp)⟩
  | prune => exact ⟨.rest, rfl, kept_executed kept worker _ (by simp)⟩

/-- **Every call that the protocol permits keeps the books.** -/
theorem kept_call {world after : World W} {phases : W → Phase} (kept : Kept composer world phases)
    (worker : W) (op : Op H) (answer : Except Exn op.Ans)
    (safe : (attemptProtocol H composer).safe op (phases worker))
    (step : World.Calls worker op world answer after) : Advances composer phases worker op answer after := by
  cases op with
  | sql stmt =>
    rcases step with ⟨rfl, rfl⟩ | ⟨text, rfl, rfl | rfl⟩
    · exact kept_answered kept worker stmt safe
    · refine ⟨.rest, by cases stmt <;> rfl, kept_rest kept worker⟩
    · refine ⟨.rest, by cases stmt <;> rfl, kept_executed kept worker stmt fun cap same => ?_⟩
      subst same
      exact safe.2
  | inner question hits =>
    obtain ⟨answered, rfl⟩ := step
    obtain ⟨index, holding⟩ := kept.paid worker safe
    refine ⟨.rest, by cases answer <;> rfl, ?_⟩
    exact kept.moved worker (books_called kept.books holding) (fun _ _ => rfl)
      (fun other apart => Function.update_of_ne apart _ _) (by simp) (by simp)

/-- In every reachable pool the books are kept. -/
theorem kept_of_reaches {now : Int} {last : Pool (sig H) Exn (World W) W}
    (run : Pool.Reaches (budgetSystem W H composer) (Pool.idle (World.start now)) last) :
    ∃ phases, Kept composer last.shared phases := by
  obtain ⟨phases, kept, _⟩ := @Pool.protocol _ _ _ _ _ (budgetSystem W H composer) _
    (attemptProtocol H composer) .rest (Kept composer) _ _ run
    (fun worker program taken => by
      obtain ⟨job, rfl⟩ := taken
      exact job_follows job)
    (kept_start now)
    (fun worker op s phases answer after kept safe step =>
      kept_call kept worker op answer safe step)
    (fun s phases after kept moved => kept_clock kept moved)
    (fun worker s phases kept _ => kept_rest kept worker)
  exact ⟨phases, kept⟩

/-! ### The hourly cap -/

/-- Counting a list's matches by their positions. -/
theorem countP_positions (matched : Int → Bool) (instants : List Int) :
    (List.range instants.length).countP (fun index => (instants[index]?).any matched) =
      instants.countP matched := by
  induction instants using List.reverseRecOn with
  | nil => rfl
  | append_singleton instants last ih =>
    rw [List.length_append, List.length_singleton, List.range_succ, List.countP_append,
      List.countP_append, ← ih]
    congr 1
    · refine List.countP_congr fun index inside => ?_
      rw [List.getElem?_append_left (List.mem_range.mp inside)]
    · rw [List.countP_singleton, List.countP_singleton, List.getElem?_concat_length]
      rfl

/-- Inner calls are no more than the increments they were made on. -/
theorem Books.callsPaid_le {cap : Int} {world : World W} (books : Books cap world)
    (matched : Int → Bool) : world.callsPaid matched ≤ world.incrementsAt matched := by
  have positions : (world.calls.map Prod.snd).countP
        (fun held => (held.bind fun index => world.increments[index]?).any matched) ≤
      (((List.range world.increments.length).map some).countP
        fun held => (held.bind fun index => world.increments[index]?).any matched) := by
    refine List.Subperm.countP_le _ (List.subperm_of_subset books.own ?_)
    intro held member
    obtain ⟨call, called, rfl⟩ := List.mem_map.mp member
    obtain ⟨index, paid, bound⟩ := books.paid call called
    exact List.mem_map.mpr ⟨index, List.mem_range.mpr bound, paid.symm⟩
  rw [List.countP_map, List.countP_map] at positions
  refine le_trans positions (le_of_eq ?_)
  exact countP_positions matched world.increments

/-- What a refused attempt's own calls may do: only an admitted increment, a lost answer or an inner
call touches what the worker has changed. -/
def ownCalls (H : Type) : Machine (sig H) Exn (Nat × Nat) where
  safe _ _ := True
  step op before answer after := (∀ text, answer ≠ .error (.budgetExhausted text)) ∧
    match op, answer with
    | .sql .day, .ok _ => after = before
    | .sql (.spend _), .ok none => after = before
    | _, _ => True

/-- An attempt that a cap refused: `BudgetExhausted`, and nothing of its own to show. -/
def RefusedFree (before : Nat × Nat) (outcome : Except Exn Unit) (after : Nat × Nat) : Prop :=
  ∀ text, outcome = .error (.budgetExhausted text) → after = before

theorem compose_refused_free (question : String) (hits : H) (own : Nat × Nat) :
    ((Job.compose question hits).program composer).wp (ownCalls H) (RefusedFree own) own := by
  have inner : ∀ later, (((ask (.inner question hits) : Budgeted H String)).bind
      fun _ => .ret ()).wp (ownCalls H) (RefusedFree own) later := by
    intro later
    refine ⟨trivial, fun answer after moved => ?_⟩
    cases answer with
    | ok text =>
      intro refusal impossible
      exact absurd impossible (by simp)
    | error exn =>
      intro refusal same
      exact absurd (congrArg Except.error (Except.error.inj same)) (moved.1 refusal)
  show ((composer.spend.bind fun _ => ask (.inner question hits)).bind fun _ => .ret ()).wp _ _ _
  rw [Prog.bind_assoc]
  unfold BudgetedComposer.spend
  split_ifs with disabled
  · intro refusal same
    rfl
  · refine ⟨trivial, fun answer after moved => ?_⟩
    cases answer with
    | error exn =>
      intro refusal same
      exact absurd (congrArg Except.error (Except.error.inj same)) (moved.1 refusal)
    | ok sum =>
      obtain rfl : after = own := moved.2
      show ((composer.underDaily sum).bind fun _ => _).wp _ _ _
      unfold BudgetedComposer.underDaily
      split_ifs with beyond
      · intro refusal same
        rfl
      · refine ⟨trivial, fun answer later moved => ?_⟩
        cases answer with
        | error exn =>
          intro refusal same
          exact absurd (congrArg Except.error (Except.error.inj same)) (moved.1 refusal)
        | ok row =>
          cases row with
          | some calls => exact inner later
          | none =>
            intro refusal same
            exact moved.2

/-- What a worker has to show: the rows it changed and the inner calls it made. -/
def World.own (world : World W) (worker : W) : Nat × Nat :=
  (world.changed worker, world.calls.countP fun call => decide (call.1 = worker))

/-- Reading the day changes no row. -/
theorem own_executed_of_rows {world : World W} {stmt : Stmt} (worker other : W)
    (unchanged : (stmt.exec world.now world.rows).2 = world.rows) :
    (world.executed worker stmt).own other = world.own other := by
  unfold World.own World.executed
  rw [if_pos unchanged]
  cases stmt with
  | spend hourlyCap =>
    cases answer : (Stmt.exec world.now world.rows (.spend hourlyCap)).1 <;>
      simp only [World.noted]
  | _ => rfl

theorem own_executed_other {world : World W} {worker other : W} (apart : other ≠ worker)
    (stmt : Stmt) : (world.executed worker stmt).own other = world.own other := by
  unfold World.own World.executed
  have same : (if (stmt.exec world.now world.rows).2 = world.rows then world.changed else
      Function.update world.changed worker (world.changed worker + 1)) other =
        world.changed other := by
    split_ifs
    · rfl
    · exact Function.update_of_ne apart _ _
  cases stmt with
  | spend hourlyCap =>
    cases answer : (Stmt.exec world.now world.rows (.spend hourlyCap)).1 <;>
      simp only [World.noted, same]
  | _ => simp only [World.noted, same]

theorem own_called_other {world : World W} {worker other : W} (apart : other ≠ worker) :
    (world.called worker).own other = world.own other := by
  unfold World.own World.called
  rw [List.countP_cons_of_neg (by simpa using Ne.symm apart)]

/-- A worker's calls, seen through what it has to show. -/
theorem own_calls {world after : World W} {worker : W} {op : Op H} {answer : Except Exn op.Ans}
    (step : World.Calls worker op world answer after) :
    (ownCalls H).step op (world.own worker) answer (after.own worker) := by
  cases op with
  | sql stmt =>
    rcases step with ⟨rfl, rfl⟩ | ⟨text, rfl, _⟩
    · refine ⟨fun text => by simp, ?_⟩
      cases stmt with
      | day => exact own_executed_of_rows worker worker rfl
      | spend hourlyCap =>
        by_cases room : HasRoom hourlyCap world
        · have stmt : Stmt.exec world.now world.rows (.spend hourlyCap) = _ := spendSql_room room
          rw [stmt]
          trivial
        · have stmt : Stmt.exec world.now world.rows (.spend hourlyCap) = _ := spendSql_full room
          rw [stmt]
          exact own_executed_of_rows worker worker (by rw [stmt])
      | spent => trivial
      | prune => trivial
    · refine ⟨fun refusal => by simp, ?_⟩
      cases stmt <;> trivial
  | inner question hits =>
    obtain ⟨⟨text, rfl⟩ | ⟨text, rfl⟩, _⟩ := step
    · exact ⟨fun refusal => by simp, trivial⟩
    · exact ⟨fun refusal => by simp, trivial⟩

/-- **A refused attempt changes no row and makes no inner call**, whatever the others do meanwhile. -/
theorem refused_free {worker : W} {question : String} {hits : H} {text : String}
    {first last : Pool (sig H) Exn (World W) W}
    (run : Pool.Reaches ((budgetSystem W H composer).busy worker) ⟨first.shared,
      Function.update first.prog worker ((Job.compose question hits).program composer)⟩ last)
    (refused : last.prog worker = .raise (.budgetExhausted text)) :
    last.shared.own worker = first.shared.own worker := by
  have ended := Pool.wp_view (ownCalls H) run
    (fun op s answer after step => own_calls step)
    (fun other op s answer after apart step => by
      cases op with
      | sql stmt =>
        rcases step with ⟨rfl, rfl⟩ | ⟨text, rfl, rfl | rfl⟩
        · exact own_executed_other (Ne.symm apart) stmt
        · rfl
        · exact own_executed_other (Ne.symm apart) stmt
      | inner question hits =>
        obtain ⟨_, rfl⟩ := step
        exact own_called_other (Ne.symm apart))
    (fun s after moved => by
      obtain ⟨reading, _, rfl⟩ := moved
      rfl)
    (compose_refused_free question hits (first.shared.own worker))
  rw [refused] at ended
  exact ended text rfl

/-- **The hourly cap is hard.** In every run of any number of workers, the inner calls paid for in one
clock hour never exceed the cap; every inner call has an increment of its own, made before it; and an
attempt that either cap refuses makes no inner call and changes no row. -/
theorem hourly_cap_hard (hourly : 1 ≤ composer.hourlyCap) {now : Int}
    {last : Pool (sig H) Exn (World W) W}
    (run : Pool.Reaches (budgetSystem W H composer) (Pool.idle (World.start now)) last) :
    (∀ start, (last.shared.callsPaid fun instant => hourStart instant = start : Int) ≤
      composer.hourlyCap) ∧
    ((last.shared.calls.map Prod.snd).Nodup ∧ ∀ call ∈ last.shared.calls,
      ∃ instant, last.shared.paidAt call = some instant) ∧
    ∀ worker question hits text later, (last.prog worker).Finished →
      Pool.Reaches ((budgetSystem W H composer).busy worker) ⟨last.shared,
        Function.update last.prog worker ((Job.compose question hits).program composer)⟩ later →
      later.prog worker = .raise (.budgetExhausted text) →
      later.shared.own worker = last.shared.own worker := by
  obtain ⟨phases, kept⟩ := kept_of_reaches run
  refine ⟨fun start => ?_, ⟨kept.books.own, fun call member => ?_⟩, ?_⟩
  · have capped := kept.books.capped start
    have calls := kept.books.callsPaid_le fun instant => decide (hourStart instant = start)
    omega
  · obtain ⟨index, paid, bound⟩ := kept.books.paid call member
    refine ⟨last.shared.increments[index], ?_⟩
    unfold World.paidAt
    rw [paid]
    exact List.getElem?_eq_getElem bound
  · intro worker question hits text later _ attempt refused
    exact refused_free attempt refused

/-- Two workers' servers: every statement succeeds, every answer is a dash. -/
def smoothServer (worker : W) : (op : Op H) → World W → Except Exn op.Ans × World W
  | .sql stmt, world => (.ok (stmt.exec world.now world.rows).1, world.executed worker stmt)
  | .inner _ _, world => (.ok "-", world.called worker)

theorem calls_smooth (worker : W) (op : Op H) (world : World W) :
    World.Calls worker op world (smoothServer worker op world).1
      (smoothServer worker op world).2 := by
  cases op with
  | sql stmt => exact Or.inl ⟨rfl, rfl⟩
  | inner question hits => exact ⟨Or.inl ⟨_, rfl⟩, rfl⟩

/-- Two workers have taken up an attempt each, and then make their calls in this order. -/
def twoAttempts (composer : BudgetedComposer) (schedule : List Bool) :
    Pool (sig Unit) Exn (World Bool) Bool :=
  schedule.foldl (Pool.advance smoothServer)
    ⟨World.start 0, fun worker =>
      if worker ∈ [true, false] then (Job.compose "?" ()).program composer else .ret ()⟩

theorem reaches_twoAttempts (composer : BudgetedComposer) (schedule : List Bool) :
    Pool.Reaches (budgetSystem Bool Unit composer) (Pool.idle (World.start 0))
      (twoAttempts composer schedule) :=
  (@Pool.reaches_started _ _ _ _ _ (budgetSystem Bool Unit composer) (Pool.idle (World.start 0))
    (fun _ => (Job.compose "?" ()).program composer) [true, false]
    (fun _ => trivial) (by decide) (fun _ => ⟨.compose "?" (), rfl⟩)).trans
    (Pool.reaches_schedule (fun worker op world => calls_smooth worker op world) schedule _)

/-- Two attempts in one hour under a cap of one: one inner call. -/
theorem hourly_cap_hard_twoAttempts :
    ((twoAttempts ⟨1, 5⟩ [true, false, true, false, true, false]).shared.callsPaid
      fun instant => hourStart instant = 0 : Int) ≤ 1 ∧
    (twoAttempts ⟨1, 5⟩ [true, false, true, false, true, false]).shared.calls.length = 1 :=
  ⟨(hourly_cap_hard (by decide) (reaches_twoAttempts ⟨1, 5⟩ _)).1 0, by decide⟩

/-! ### The daily cap -/

/-- **What an increment must meet**, where it finds room: nobody has made another since the worker read
the day, and no increment of the last 24 hours is in a row that began 24 hours or more before that. -/
def Undisturbed (composer : BudgetedComposer) (world : World W) (worker : W) : Prop :=
  HasRoom composer.hourlyCap world → ∀ read, world.read worker = some read →
    world.increments.length = read.known ∧
    ∀ instant ∈ world.increments, world.now - day < instant → read.instant - day < hourStart instant

/-- The workers, when every increment is undisturbed. -/
def carefulSystem (W H : Type) [DecidableEq W] (composer : BudgetedComposer) :
    System (sig H) Exn (World W) W where
  job := (budgetSystem W H composer).job
  step worker op before answer after := World.Calls worker op before answer after ∧
    ∀ hourlyCap, op = .sql (.spend hourlyCap) → Undisturbed composer before worker
  env := World.Clock
  kill _ _ := True

/-- An instant of the day that begins at `start`. -/
def inDay (start instant : Int) : Bool := start ≤ instant && instant < start + day

/-- No day has more increments than the cap. -/
def Spread (dailyCap : Int) (world : World W) : Prop :=
  ∀ start, (world.incrementsAt (inDay start) : Int) ≤ max dailyCap 0

/-- The increments of a day that ends with an undisturbed one were counted by its check. -/
theorem incrementsAt_le_read {cap : Int} {world : World W} (books : Books cap world) {worker : W}
    {read : DayRead} (known : world.read worker = some read)
    (alone : world.increments.length = read.known)
    (counted : ∀ instant ∈ world.increments, world.now - day < instant →
      read.instant - day < hourStart instant) {start : Int}
    (now_inside : inDay start world.now = true) :
    (world.incrementsAt (inDay start) : Int) ≤ read.sum := by
  have inside : start ≤ world.now ∧ world.now < start + day := by
    simpa [inDay] using now_inside
  obtain ⟨_, sum⟩ := books.read worker read known
  rw [← alone, List.take_length] at sum
  rw [sum]
  unfold World.incrementsAt
  refine Int.ofNat_le.mpr (List.countP_mono_left fun instant member held => ?_)
  have bounds : start ≤ instant ∧ instant < start + day := by simpa [inDay] using held
  exact decide_eq_true (counted instant member (by omega))

theorem spread_executed {world : World W} {worker : W} (books : Books composer.hourlyCap world)
    (spread : Spread composer.dailyCap world) (stmt : Stmt)
    (careful : ∀ hourlyCap, stmt = .spend hourlyCap → hourlyCap = composer.hourlyCap ∧
      Undisturbed composer world worker ∧
        ∃ read, world.read worker = some read ∧ read.sum < composer.dailyCap) :
    Spread composer.dailyCap (world.executed worker stmt) := by
  cases stmt with
  | spend hourlyCap =>
    obtain ⟨rfl, undisturbed, read, known, below⟩ := careful hourlyCap rfl
    by_cases room : HasRoom composer.hourlyCap world
    · have stmt : Stmt.exec world.now world.rows (.spend composer.hourlyCap) = _ :=
        spendSql_room room
      have grown : (world.executed worker (.spend composer.hourlyCap)).increments =
          world.increments ++ [world.now] := by
        simp only [World.executed, stmt, World.noted]
      intro start
      unfold World.incrementsAt
      rw [grown, countP_snoc]
      split_ifs with inside
      · obtain ⟨alone, counted⟩ := undisturbed room read known
        have before := incrementsAt_le_read books known alone counted inside
        unfold World.incrementsAt at before
        omega
      · have before := spread start
        unfold World.incrementsAt at before
        omega
    · have stmt : Stmt.exec world.now world.rows (.spend composer.hourlyCap) = _ :=
        spendSql_full room
      have same : world.executed worker (.spend composer.hourlyCap) = world := by
        simp only [World.executed, stmt, World.noted, if_true]
      rw [same]
      exact spread
  | _ => exact spread

/-- **The daily cap holds in every run whose increments are undisturbed**: at most `dailyCap` inner
calls are paid for in any 24 hours. -/
theorem daily_cap_of_undisturbed {now : Int} {last : Pool (sig H) Exn (World W) W}
    (run : Pool.Reaches (carefulSystem W H composer) (Pool.idle (World.start now)) last)
    (start : Int) : (last.shared.callsPaid (inDay start) : Int) ≤ max composer.dailyCap 0 := by
  obtain ⟨phases, ⟨kept, spread⟩, _⟩ := @Pool.protocol _ _ _ _ _ (carefulSystem W H composer) _
    (attemptProtocol H composer) .rest
    (fun world phases => Kept composer world phases ∧ Spread composer.dailyCap world) _ _ run
    (fun worker program taken => by
      obtain ⟨job, rfl⟩ := taken
      exact job_follows job)
    ⟨kept_start now, fun start => le_max_right _ _⟩
    (fun worker op world phases answer after both safe step => by
      obtain ⟨phase, moved, kept⟩ := kept_call both.1 worker op answer safe step.1
      refine ⟨phase, moved, kept, ?_⟩
      cases op with
      | sql stmt =>
        have careful : ∀ hourlyCap, stmt = .spend hourlyCap → hourlyCap = composer.hourlyCap ∧
            Undisturbed composer world worker ∧
              ∃ read, world.read worker = some read ∧ read.sum < composer.dailyCap := by
          intro hourlyCap same
          subst same
          exact ⟨safe.2, step.2 hourlyCap rfl, both.1.checked worker safe.1⟩
        rcases step.1 with ⟨_, rfl⟩ | ⟨_, _, rfl | rfl⟩
        · exact spread_executed both.1.books both.2 stmt careful
        · exact both.2
        · exact spread_executed both.1.books both.2 stmt careful
      | inner question hits =>
        obtain ⟨_, rfl⟩ := step.1
        exact both.2)
    (fun s phases after both moved => by
      refine ⟨kept_clock both.1 moved, ?_⟩
      obtain ⟨reading, _, rfl⟩ := moved
      exact both.2)
    (fun worker s phases both _ => ⟨kept_rest both.1 worker, both.2⟩)
  have calls := kept.books.callsPaid_le (inDay start)
  have day_total := spread start
  omega

/-- Two attempts under a daily cap of one, one after the other: the check refuses the second. -/
theorem daily_cap_of_undisturbed_twoAttempts :
    ((twoAttempts ⟨1, 1⟩ [true, true, true, false]).shared.callsPaid (inDay 0) : Int) ≤ 1 ∧
    (twoAttempts ⟨1, 1⟩ [true, true, true, false]).shared.calls.length = 1 ∧
    (twoAttempts ⟨1, 1⟩ [true, true, true, false]).shared.read false = some ⟨0, 1, 1⟩ := by
  have started : Pool.Reaches (carefulSystem Bool Unit ⟨1, 1⟩) (Pool.idle (World.start 0))
      (twoAttempts ⟨1, 1⟩ []) :=
    @Pool.reaches_started _ _ _ _ _ (carefulSystem Bool Unit ⟨1, 1⟩) (Pool.idle (World.start 0))
      (fun _ => (Job.compose "?" ()).program ⟨1, 1⟩) [true, false] (fun _ => trivial) (by decide)
      (fun _ => ⟨.compose "?" (), rfl⟩)
  have advanced : ∀ (calls : List Bool) (worker : Bool),
      Undisturbed ⟨1, 1⟩ (twoAttempts ⟨1, 1⟩ calls).shared worker →
      Pool.Reaches (carefulSystem Bool Unit ⟨1, 1⟩) (twoAttempts ⟨1, 1⟩ calls)
        (Pool.advance smoothServer (twoAttempts ⟨1, 1⟩ calls) worker) := by
    intro calls worker undisturbed
    exact Pool.reaches_advance worker fun op =>
      ⟨calls_smooth worker op _, fun _ _ => undisturbed⟩
  have read := advanced [] true fun _ read known => absurd known.symm (Option.some_ne_none read)
  have paid := advanced [true] true fun _ read known => by
    obtain rfl : (⟨0, 0, 0⟩ : DayRead) = read := Option.some_injective _ known
    exact ⟨by decide, by decide⟩
  have called := advanced [true, true] true fun room => absurd (room 1 (by decide)) (by decide)
  have refused := advanced [true, true, true] false fun room =>
    absurd (room 1 (by decide)) (by decide)
  have run := (((started.trans read).trans paid).trans called).trans refused
  exact ⟨daily_cap_of_undisturbed run 0, by decide, rfl⟩

/-- **Two workers exceed the daily cap**: both read the day before either spends. -/
theorem daily_cap_exceeded :
    ¬ ∀ (composer : BudgetedComposer) (now start : Int)
      (last : Pool (sig Unit) Exn (World Bool) Bool),
      Pool.Reaches (budgetSystem Bool Unit composer) (Pool.idle (World.start now)) last →
      (last.shared.callsPaid (inDay start) : Int) ≤ max composer.dailyCap 0 := by
  intro capped
  have two := capped ⟨60, 1⟩ 0 0 _ (reaches_twoAttempts _ [true, false, true, false, true, false])
  exact absurd two (by decide)

/-- One worker's attempt at a reading of the clock. -/
def attemptAt (composer : BudgetedComposer) (reading : Int) (world : World Unit) : World Unit :=
  (((Job.compose "?" ()).program composer : Budgeted Unit Unit).run (smoothServer ())
    { world with now := reading, latest := max world.latest reading }).2

/-- **One worker alone exceeds it as well**: a call at 00:59 leaves the sum at midnight, with the row
that began at 00:00. -/
theorem daily_cap_exceeded_alone : ∃ last : Pool (sig Unit) Exn (World Unit) Unit,
    Pool.Reaches (budgetSystem Unit Unit ⟨60, 1⟩) (Pool.idle (World.start 0)) last ∧
    last.shared.callsPaid (inDay (59 * 60 * 1000000)) = 2 := by
  have attempt : ∀ (reading : Int) (world : World Unit) (prog : Unit → Budgeted Unit Unit),
      (prog ()).Finished → world.latest - World.lag ≤ reading →
      ∃ after, Pool.Reaches (budgetSystem Unit Unit ⟨60, 1⟩) ⟨world, prog⟩
        ⟨attemptAt ⟨60, 1⟩ reading world, after⟩ ∧ (after ()).Finished := by
    intro reading world prog finished late
    have ticked : Pool.Reaches (budgetSystem Unit Unit ⟨60, 1⟩) ⟨world, prog⟩
        ⟨{ world with now := reading, latest := max world.latest reading }, prog⟩ :=
      .tail .refl (.env _ ⟨reading, late, rfl⟩)
    have done := @Pool.reaches_run _ _ _ _ _ (budgetSystem Unit Unit ⟨60, 1⟩) ()
      ⟨{ world with now := reading, latest := max world.latest reading }, prog⟩
      ((Job.compose "?" ()).program ⟨60, 1⟩) (smoothServer ()) finished ⟨_, rfl⟩
      (fun op world => calls_smooth () op world)
    refine ⟨_, ticked.trans done, ?_⟩
    rw [Function.update_self]
    exact Prog.finished_ofOutcome _
  obtain ⟨prog, first, idle⟩ := attempt (59 * 60 * 1000000) (World.start 0)
    (fun _ => .ret ()) trivial (by decide)
  obtain ⟨last, second, _⟩ := attempt (24 * hour + hour / 2)
    (attemptAt ⟨60, 1⟩ (59 * 60 * 1000000) (World.start 0)) prog idle (by decide)
  refine ⟨_, first.trans second, ?_⟩
  show (attemptAt ⟨60, 1⟩ (24 * hour + hour / 2) (attemptAt ⟨60, 1⟩ (59 * 60 * 1000000)
    (World.start 0))).callsPaid (inDay (59 * 60 * 1000000)) = 2
  decide

end Freshet.Rag
