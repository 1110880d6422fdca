/-
**A pool of workers that run programs against one shared state.**

Each worker runs one program at a time, one call at a time, in any interleaving with the others.
A worker whose program has finished may take up another job; a worker may be killed between any
two of its calls; the environment (the clock, other writers) may change the shared state at any
moment.

Three rules turn this into proofs.

* `Pool.invariant`: a property of the pool kept by every step holds in every reachable pool.
* `Pool.wp_busy`, `Pool.handles_post`: a fact about one job, proved with any interference that a relation `grows`
  allows between its calls (`System.rely`), holds when the worker has finished the job.
* `Pool.protocol`: if every job follows a *protocol* (a `Machine` on a worker's own phase, checked
  by `Prog.wp` on the program text alone), then every reachable pool has a phase for each worker,
  and a relation between the shared state and the phases holds as soon as each protocol step keeps
  it. The program text is looked at once, and the interleaving argument never sees it.
-/

import Freshet.Lib.Prog
import Mathlib.Logic.Function.Basic

set_option linter.unusedSectionVars false

namespace Freshet.Lib

/-- What a pool of workers `W` over the shared state `S` may do. -/
structure System (σ : Sig) (X S W : Type) where
  /-- The programs a worker may take up. -/
  job : W → Prog σ X Unit → Prop
  /-- What one call of a worker may answer and do to the shared state. -/
  step : W → (op : σ.Op) → S → Except X (σ.Ans op) → S → Prop
  /-- What the environment may do. -/
  env : S → S → Prop
  /-- Whether a worker may be killed here. -/
  kill : W → S → Prop

/-- One worker's calls, as a machine. -/
def System.alone {σ : Sig} {X S W : Type} (sys : System σ X S W) (worker : W) : Machine σ X S where
  safe _ _ := True
  step := sys.step worker

/-- The same system, in which one worker neither takes up a job nor is killed. -/
def System.busy {σ : Sig} {X S W : Type} (sys : System σ X S W) (worker : W) : System σ X S W where
  job other program := other ≠ worker ∧ sys.job other program
  step := sys.step
  env := sys.env
  kill other s := other ≠ worker ∧ sys.kill other s

/-- One worker's calls, each after whatever `grows` lets the others do. -/
def System.rely {σ : Sig} {X S W : Type} (sys : System σ X S W) (grows : S → S → Prop)
    (worker : W) : Machine σ X S where
  safe _ _ := True
  step op s answer after := ∃ before, grows s before ∧ sys.step worker op before answer after

/-- The shared state and what is left of every worker's program. -/
structure Pool (σ : Sig) (X S W : Type) where
  shared : S
  prog : W → Prog σ X Unit

namespace Pool

variable {σ : Sig} {X S W : Type} [DecidableEq W] (sys : System σ X S W)

/-- **One step of the pool.** -/
inductive Step : Pool σ X S W → Pool σ X S W → Prop where
  | call (pool : Pool σ X S W) (worker : W) {op : σ.Op}
      {next : Except X (σ.Ans op) → Prog σ X Unit} {answer : Except X (σ.Ans op)} {after : S}
      (running : pool.prog worker = .call op next)
      (step : sys.step worker op pool.shared answer after) :
      Step pool ⟨after, Function.update pool.prog worker (next answer)⟩
  | start (pool : Pool σ X S W) (worker : W) {program : Prog σ X Unit}
      (finished : (pool.prog worker).Finished) (taken : sys.job worker program) :
      Step pool ⟨pool.shared, Function.update pool.prog worker program⟩
  | kill (pool : Pool σ X S W) (worker : W) (killed : sys.kill worker pool.shared) :
      Step pool ⟨pool.shared, Function.update pool.prog worker (.ret ())⟩
  | env (pool : Pool σ X S W) {after : S} (moved : sys.env pool.shared after) :
      Step pool ⟨after, pool.prog⟩

/-- The pools a run can reach. -/
def Reaches : Pool σ X S W → Pool σ X S W → Prop := Relation.ReflTransGen (Step sys)

/-- A pool in which nobody has started: every worker is idle. -/
def idle (shared : S) : Pool σ X S W := ⟨shared, fun _ => .ret ()⟩

variable {sys}

/-- **The invariant rule.** -/
theorem invariant (kept : Pool σ X S W → Prop) {first last : Pool σ X S W}
    (run : Reaches sys first last) (init : kept first)
    (step : ∀ before after, kept before → Step sys before after → kept after) : kept last := by
  induction run with
  | refl => exact init
  | tail _ one ih => exact step _ _ ih one

/-- A relation on the shared state that every call and the environment respect, and that can be
chained, holds between the ends of a run. -/
theorem shared_relation {grows : S → S → Prop} {first last : Pool σ X S W}
    (run : Reaches sys first last) (refl : ∀ s, grows s s)
    (trans : ∀ {a b c}, grows a b → grows b c → grows a c)
    (call : ∀ worker op s answer after, sys.step worker op s answer after → grows s after)
    (env : ∀ s after, sys.env s after → grows s after) :
    grows first.shared last.shared := by
  refine invariant (fun pool => grows first.shared pool.shared) run (refl _) ?_
  intro before after kept one
  cases one with
  | call worker running step => exact trans kept (call _ _ _ _ _ step)
  | start worker finished taken => exact kept
  | kill worker killed => exact kept
  | env moved => exact trans kept (env _ _ moved)

/-- **The protocol rule.** `proto` is a machine on one worker's phase. When every job follows it
from `idle` back to `idle`, and `related` is kept by every call that the protocol permits, every
reachable pool is related to some phases, and each worker's remaining program follows the protocol
from its phase. -/
theorem protocol {Φ : Type} (proto : Machine σ X Φ) (rest : Φ)
    {related : S → (W → Φ) → Prop} {shared : S} {last : Pool σ X S W}
    (run : Reaches sys (idle shared) last)
    (follows : ∀ worker program, sys.job worker program →
      program.wp proto (fun _ phase => phase = rest) rest)
    (init : related shared fun _ => rest)
    (call : ∀ worker op s phases answer after, related s phases →
      proto.safe op (phases worker) → sys.step worker op s answer after →
      ∃ phase, proto.step op (phases worker) answer phase ∧
        related after (Function.update phases worker phase))
    (env : ∀ s phases after, related s phases → sys.env s after → related after phases)
    (kill : ∀ worker s phases, related s phases → sys.kill worker s →
      related s (Function.update phases worker rest)) :
    ∃ phases : W → Φ, related last.shared phases ∧
      ∀ worker, (last.prog worker).wp proto (fun _ phase => phase = rest) (phases worker) := by
  refine invariant (fun pool => ∃ phases : W → Φ, related pool.shared phases ∧
    ∀ worker, (pool.prog worker).wp proto (fun _ phase => phase = rest) (phases worker)) run
    ⟨fun _ => rest, init, fun _ => rfl⟩ ?_
  rintro before after ⟨phases, kept, following⟩ one
  cases one with
  | @call worker op next answer after running step =>
    have here := following worker
    rw [running] at here
    obtain ⟨phase, moved, again⟩ := call worker op _ phases answer after kept here.1 step
    refine ⟨Function.update phases worker phase, again, fun other => ?_⟩
    by_cases same : other = worker
    · subst same
      simpa using here.2 answer phase moved
    · simpa [Function.update_of_ne same] using following other
  | @start worker program finished taken =>
    refine ⟨phases, kept, fun other => ?_⟩
    by_cases same : other = worker
    · subst same
      have resting : phases other = rest := by
        have here := following other
        cases left : before.prog other with
        | ret value => rw [left] at here; exact here
        | raise exn => rw [left] at here; exact here
        | call op next => rw [left] at finished; exact finished.elim
      simpa [resting] using follows other program taken
    · simpa [Function.update_of_ne same] using following other
  | kill worker killed =>
    refine ⟨Function.update phases worker rest, kill worker _ phases kept killed, fun other => ?_⟩
    by_cases same : other = worker
    · subst same
      simp [Prog.wp]
    · simpa [Function.update_of_ne same] using following other
  | env moved => exact ⟨phases, env _ _ _ kept moved, following⟩

/-- **The protocol rule for jobs that leave something behind**: a worker's phase may end as it likes,
and starts anew with the next job. -/
theorem protocol_anew {Φ : Type} (proto : Machine σ X Φ) (rest : Φ)
    {related : S → (W → Φ) → Prop} {shared : S} {last : Pool σ X S W}
    (run : Reaches sys (idle shared) last)
    (follows : ∀ worker program, sys.job worker program →
      program.wp proto (fun _ _ => True) rest)
    (init : related shared fun _ => rest)
    (call : ∀ worker op s phases answer after, related s phases →
      proto.safe op (phases worker) → sys.step worker op s answer after →
      ∃ phase, proto.step op (phases worker) answer phase ∧
        related after (Function.update phases worker phase))
    (env : ∀ s phases after, related s phases → sys.env s after → related after phases)
    (anew : ∀ worker s phases, related s phases → related s (Function.update phases worker rest)) :
    ∃ phases : W → Φ, related last.shared phases ∧
      ∀ worker, (last.prog worker).wp proto (fun _ _ => True) (phases worker) := by
  refine invariant (fun pool => ∃ phases : W → Φ, related pool.shared phases ∧
    ∀ worker, (pool.prog worker).wp proto (fun _ _ => True) (phases worker)) run
    ⟨fun _ => rest, init, fun _ => trivial⟩ ?_
  rintro before after ⟨phases, kept, following⟩ one
  -- the phase of one worker and its program are replaced together
  have replaced : ∀ (worker : W) (program : Prog σ X Unit) (phase : Φ),
      program.wp proto (fun _ _ => True) phase → ∀ other,
      (Function.update before.prog worker program other).wp proto (fun _ _ => True)
        (Function.update phases worker phase other) := by
    intro worker program phase here other
    by_cases same : other = worker
    · subst same
      simpa using here
    · simpa [Function.update_of_ne same] using following other
  cases one with
  | @call worker op next answer after running step =>
    have here := following worker
    rw [running] at here
    obtain ⟨phase, moved, again⟩ := call worker op _ phases answer after kept here.1 step
    exact ⟨_, again, replaced worker _ phase (here.2 answer phase moved)⟩
  | @start worker program finished taken =>
    exact ⟨_, anew worker _ phases kept, replaced worker _ rest (follows worker program taken)⟩
  | kill worker killed => exact ⟨_, anew worker _ phases kept, replaced worker _ rest trivial⟩
  | env moved => exact ⟨phases, env _ _ _ kept moved, following⟩

/-! ### One worker at a time -/

/-- The steps of one worker's program are steps of the pool. -/
theorem reaches_of_steps {worker : W} {program last : Prog σ X Unit} {s after : S}
    (run : Prog.Steps (sys.alone worker) program s last after) (prog : W → Prog σ X Unit)
    (running : prog worker = program) :
    Reaches sys ⟨s, prog⟩ ⟨after, Function.update prog worker last⟩ := by
  induction run generalizing prog with
  | refl program s =>
    subst running
    rw [Function.update_eq_self]
    exact .refl
  | call step rest ih =>
    refine .head (Step.call ⟨_, prog⟩ worker running step) ?_
    simpa [Reaches] using ih (Function.update prog worker _) (Function.update_self ..)

/-- A finished worker takes up a job and runs it to its end. -/
theorem reaches_run {worker : W} {pool : Pool σ X S W} {program : Prog σ X Unit}
    {handler : (op : σ.Op) → S → Except X (σ.Ans op) × S}
    (finished : (pool.prog worker).Finished) (taken : sys.job worker program)
    (allowed : ∀ op s, sys.step worker op s (handler op s).1 (handler op s).2) :
    Reaches sys pool ⟨(program.run handler pool.shared).2,
      Function.update pool.prog worker
        (Prog.ofOutcome (program.run handler pool.shared).1)⟩ := by
  refine .head (Step.start pool worker finished taken) ?_
  have run := @Prog.steps_run σ X Unit S (sys.alone worker) handler program pool.shared allowed
  simpa [Reaches] using reaches_of_steps run (Function.update pool.prog worker program)
    (Function.update_self ..)

/-- One worker runs a list of jobs, one after the other. -/
def runAll (handler : (op : σ.Op) → S → Except X (σ.Ans op) × S) (s : S)
    (programs : List (Prog σ X Unit)) : S :=
  programs.foldl (fun s program => (program.run handler s).2) s

theorem reaches_runAll {worker : W} {handler : (op : σ.Op) → S → Except X (σ.Ans op) × S}
    (allowed : ∀ op s, sys.step worker op s (handler op s).1 (handler op s).2)
    {programs : List (Prog σ X Unit)} (taken : ∀ program ∈ programs, sys.job worker program)
    {pool : Pool σ X S W} (finished : (pool.prog worker).Finished) :
    ∃ prog, Reaches sys pool ⟨runAll handler pool.shared programs, prog⟩ ∧
      (prog worker).Finished := by
  induction programs generalizing pool with
  | nil => exact ⟨pool.prog, .refl, finished⟩
  | cons program later ih =>
    have one := reaches_run finished (taken program List.mem_cons_self) allowed
    obtain ⟨prog, reaches, done⟩ :=
      @ih (fun other member => taken other (List.mem_cons_of_mem _ member))
        ⟨(program.run handler pool.shared).2, Function.update pool.prog worker
          (Prog.ofOutcome (program.run handler pool.shared).1)⟩
        (by simpa using Prog.finished_ofOutcome (program.run handler pool.shared).1)
    exact ⟨prog, one.trans reaches, done⟩

/-- In a list of jobs, one after the other, every call meets a condition on the state before it. -/
def runAllMeet (handler : (op : σ.Op) → S → Except X (σ.Ans op) × S) (meets : σ.Op → S → Bool) :
    List (Prog σ X Unit) → S → Bool
  | [], _ => true
  | program :: later, s =>
    program.runMeets handler meets s && runAllMeet handler meets later (program.run handler s).2

/-- One worker runs jobs whose calls meet what the system asks of them. -/
theorem reaches_runAll_of_meets {worker : W}
    {handler : (op : σ.Op) → S → Except X (σ.Ans op) × S} {meets : σ.Op → S → Bool}
    (allowed : ∀ op s, meets op s = true →
      sys.step worker op s (handler op s).1 (handler op s).2)
    {programs : List (Prog σ X Unit)} (taken : ∀ program ∈ programs, sys.job worker program)
    {pool : Pool σ X S W} (finished : (pool.prog worker).Finished)
    (met : runAllMeet handler meets programs pool.shared = true) :
    ∃ prog, Reaches sys pool ⟨runAll handler pool.shared programs, prog⟩ ∧
      (prog worker).Finished := by
  induction programs generalizing pool with
  | nil => exact ⟨pool.prog, .refl, finished⟩
  | cons program later ih =>
    obtain ⟨here, rest⟩ := Bool.and_eq_true_iff.mp met
    have run := @Prog.steps_run_of_meets σ X Unit S (sys.alone worker) handler meets program
      pool.shared allowed here
    have first : Reaches sys pool ⟨(program.run handler pool.shared).2,
        Function.update pool.prog worker (Prog.ofOutcome (program.run handler pool.shared).1)⟩ := by
      refine .head (Step.start pool worker finished (taken program List.mem_cons_self)) ?_
      simpa [Reaches] using
        reaches_of_steps run (Function.update pool.prog worker program) (Function.update_self ..)
    obtain ⟨prog, reaches, done⟩ :=
      @ih (fun other member => taken other (List.mem_cons_of_mem _ member))
        ⟨(program.run handler pool.shared).2, Function.update pool.prog worker
          (Prog.ofOutcome (program.run handler pool.shared).1)⟩
        (by simpa using Prog.finished_ofOutcome (program.run handler pool.shared).1) rest
    exact ⟨prog, first.trans reaches, done⟩

/-! ### A schedule -/

/-- One call of a worker that has a call to make. -/
def advance (handler : W → (op : σ.Op) → S → Except X (σ.Ans op) × S) (pool : Pool σ X S W)
    (worker : W) : Pool σ X S W :=
  match pool.prog worker with
  | .call op next => ⟨(handler worker op pool.shared).2,
      Function.update pool.prog worker (next (handler worker op pool.shared).1)⟩
  | _ => pool

/-- A call that the system allows here is a step. -/
theorem reaches_advance {handler : W → (op : σ.Op) → S → Except X (σ.Ans op) × S}
    {pool : Pool σ X S W} (worker : W)
    (allowed : ∀ op, sys.step worker op pool.shared (handler worker op pool.shared).1
      (handler worker op pool.shared).2) : Reaches sys pool (advance handler pool worker) := by
  unfold advance
  cases running : pool.prog worker with
  | ret value => exact .refl
  | raise exn => exact .refl
  | call op next => exact .tail .refl (.call pool worker running (allowed op))

/-- Calls made in the order of a schedule are a run. -/
theorem reaches_schedule {handler : W → (op : σ.Op) → S → Except X (σ.Ans op) × S}
    (allowed : ∀ worker op s,
      sys.step worker op s (handler worker op s).1 (handler worker op s).2)
    (schedule : List W) (pool : Pool σ X S W) :
    Reaches sys pool (schedule.foldl (advance handler) pool) := by
  induction schedule generalizing pool with
  | nil => exact .refl
  | cons worker later ih =>
    exact (reaches_advance worker fun op => allowed worker op _).trans (ih _)

/-- Workers that have finished take up jobs. -/
theorem reaches_started {pool : Pool σ X S W} (prog : W → Prog σ X Unit) (workers : List W)
    (finished : ∀ worker, (pool.prog worker).Finished) (distinct : workers.Nodup)
    (taken : ∀ worker, sys.job worker (prog worker)) :
    Reaches sys pool ⟨pool.shared, fun worker =>
      if worker ∈ workers then prog worker else pool.prog worker⟩ := by
  induction workers with
  | nil =>
    simp only [List.not_mem_nil, if_false]
    exact .refl
  | cons worker later ih =>
    obtain ⟨absent, rest⟩ := List.nodup_cons.mp distinct
    refine (ih rest).tail ?_
    have started := @Step.start _ _ _ _ _ sys ⟨pool.shared, fun other =>
      if other ∈ later then prog other else pool.prog other⟩ worker (prog worker)
      (by simpa [absent] using finished worker) (taken worker)
    have same : (fun other => if other ∈ worker :: later then prog other else pool.prog other) =
        Function.update (fun other => if other ∈ later then prog other else pool.prog other)
          worker (prog worker) := by
      funext other
      by_cases here : other = worker
      · subst here
        simp
      · simp [here]
    rw [same]
    exact started

/-! ### One job among the others -/

variable (sys) in
/-- From `first` to `last` a worker takes up a program and finishes it normally, while the others do
what they like. -/
structure Handles (worker : W) (program : Prog σ X Unit) (first last : Pool σ X S W) : Prop where
  free : (first.prog worker).Finished
  run : Reaches (sys.busy worker) ⟨first.shared, Function.update first.prog worker program⟩ last
  done : last.prog worker = .ret ()

/-- A system that allows more reaches more. -/
theorem reaches_mono {more : System σ X S W} {first last : Pool σ X S W}
    (job : ∀ worker program, sys.job worker program → more.job worker program)
    (step : ∀ worker op s answer after, sys.step worker op s answer after →
      more.step worker op s answer after)
    (env : ∀ s after, sys.env s after → more.env s after)
    (kill : ∀ worker s, sys.kill worker s → more.kill worker s)
    (run : Reaches sys first last) : Reaches more first last := by
  refine invariant (fun pool => Reaches more first pool) run .refl fun before after reached one =>
    reached.tail ?_
  cases one with
  | call worker running moved => exact .call _ worker running (step _ _ _ _ _ moved)
  | start worker finished taken => exact .start _ worker finished (job _ _ taken)
  | kill worker killed => exact .kill _ worker (kill _ _ killed)
  | env moved => exact .env _ (env _ _ moved)

/-- **The simulation rule**: a run of one system is a run of another, with the same programs, on a state
that a relation ties to it. -/
theorem reaches_related {T : Type} {other : System σ X T W} {rel : S → T → Prop}
    {first last : Pool σ X S W} {t : T}
    (job : ∀ worker program, sys.job worker program → other.job worker program)
    (call : ∀ worker op s answer after t, rel s t → sys.step worker op s answer after →
      ∃ after', other.step worker op t answer after' ∧ rel after after')
    (env : ∀ s after t, rel s t → sys.env s after → ∃ after', other.env t after' ∧ rel after after')
    (kill : ∀ worker s t, rel s t → sys.kill worker s → other.kill worker t)
    (run : Reaches sys first last) (start : rel first.shared t) :
    ∃ shared, Reaches other ⟨t, first.prog⟩ ⟨shared, last.prog⟩ ∧ rel last.shared shared := by
  refine invariant (fun pool => ∃ shared, Reaches other ⟨t, first.prog⟩ ⟨shared, pool.prog⟩ ∧
    rel pool.shared shared) run ⟨t, .refl, start⟩ ?_
  rintro before after ⟨shared, reached, related⟩ one
  cases one with
  | call worker running moved =>
    obtain ⟨after', moved', related'⟩ := call worker _ _ _ _ shared related moved
    exact ⟨after', reached.tail (.call ⟨shared, before.prog⟩ worker running moved'), related'⟩
  | start worker finished taken =>
    exact ⟨shared, reached.tail (.start ⟨shared, before.prog⟩ worker finished (job _ _ taken)),
      related⟩
  | kill worker killed =>
    exact ⟨shared, reached.tail (.kill ⟨shared, before.prog⟩ worker (kill _ _ _ related killed)),
      related⟩
  | env moved =>
    obtain ⟨after', moved', related'⟩ := env _ _ shared related moved
    exact ⟨after', reached.tail (.env ⟨shared, before.prog⟩ moved'), related'⟩

theorem Handles.reaches {worker : W} {program : Prog σ X Unit} {first last : Pool σ X S W}
    (handles : Handles sys worker program first last) (taken : sys.job worker program) :
    Reaches sys first last :=
  .head (.start first worker handles.free taken)
    (@reaches_mono _ _ _ _ _ (sys.busy worker) sys _ _ (fun _ _ allowed => allowed.2)
      (fun _ _ _ _ _ step => step) (fun _ _ moved => moved) (fun _ _ allowed => allowed.2)
      handles.run)

/-- What the workers and the environment may do to the shared state lies within `grows`. -/
structure Within (sys : System σ X S W) (grows : S → S → Prop) : Prop where
  refl : ∀ s, grows s s
  trans : ∀ {a b c}, grows a b → grows b c → grows a c
  call : ∀ worker op s answer after, sys.step worker op s answer after → grows s after
  env : ∀ s after, sys.env s after → grows s after

section Rely

variable {grows : S → S → Prop} (within : Within sys grows) {worker : W} {α : Type}

include within

/-- Interference before a program starts changes nothing about it. -/
theorem wp_rely_of_grows {program : Prog σ X α} {post : Except X α → S → Prop} {s after : S}
    (stable : ∀ outcome s after, post outcome s → grows s after → post outcome after)
    (holds : program.wp (sys.rely grows worker) post s) (grown : grows s after) :
    program.wp (sys.rely grows worker) post after := by
  cases program with
  | ret value => exact stable _ _ _ holds grown
  | raise exn => exact stable _ _ _ holds grown
  | call op next =>
    refine ⟨trivial, ?_⟩
    rintro answer last ⟨before, more, step⟩
    exact holds.2 answer last ⟨before, within.trans grown more, step⟩

/-- A fact that interference and calls keep holds however a program ends. -/
theorem wp_rely_of_stable {program : Prog σ X α} {kept : S → Prop} {s : S}
    (stable : ∀ s after, kept s → grows s after → kept after) (here : kept s) :
    program.wp (sys.rely grows worker) (fun _ after => kept after) s := by
  induction program generalizing s with
  | ret value => exact here
  | raise exn => exact here
  | call op next ih =>
    refine ⟨trivial, ?_⟩
    rintro answer last ⟨before, more, step⟩
    exact ih answer (stable _ _ (stable _ _ here more) (within.call _ _ _ _ _ step))

/-- **A job among the others**: what is left of it meets what the job promised. -/
theorem wp_busy {program : Prog σ X Unit} {post : Except X Unit → S → Prop}
    {first last : Pool σ X S W}
    (run : Reaches (sys.busy worker) ⟨first.shared, Function.update first.prog worker program⟩ last)
    (stable : ∀ outcome s after, post outcome s → grows s after → post outcome after)
    (holds : program.wp (sys.rely grows worker) post first.shared) :
    (last.prog worker).wp (sys.rely grows worker) post last.shared := by
  refine invariant (fun pool : Pool σ X S W =>
    (pool.prog worker).wp (sys.rely grows worker) post pool.shared) run ?_ ?_
  · simpa using holds
  · intro before after kept one
    cases one with
    | call other running step =>
      by_cases same : other = worker
      · subst same
        rw [running] at kept
        simpa using kept.2 _ _ ⟨_, within.refl _, step⟩
      · have grown := wp_rely_of_grows within stable kept (within.call _ _ _ _ _ step)
        simpa [Function.update_of_ne (Ne.symm same)] using grown
    | start other finished taken => simpa [Function.update_of_ne (Ne.symm taken.1)] using kept
    | kill other killed => simpa [Function.update_of_ne (Ne.symm killed.1)] using kept
    | env moved => exact wp_rely_of_grows within stable kept (within.env _ _ moved)

omit within in
/-- **A job and what is its own**: when the others leave a worker's `view` of the state alone, and
its own calls are those of a machine on that view, what is left of the job meets what the job
promised on that machine. -/
theorem wp_view {Φ : Type} {view : S → Φ} (own : Machine σ X Φ) {program : Prog σ X Unit}
    {post : Except X Unit → Φ → Prop} {first last : Pool σ X S W}
    (run : Reaches (sys.busy worker) ⟨first.shared, Function.update first.prog worker program⟩ last)
    (call : ∀ op s answer after, sys.step worker op s answer after →
      own.step op (view s) answer (view after))
    (others : ∀ other op s answer after, other ≠ worker → sys.step other op s answer after →
      view after = view s)
    (env : ∀ s after, sys.env s after → view after = view s)
    (holds : program.wp own post (view first.shared)) :
    (last.prog worker).wp own post (view last.shared) := by
  refine invariant (fun pool : Pool σ X S W =>
    (pool.prog worker).wp own post (view pool.shared)) run ?_ ?_
  · simpa using holds
  · intro before after kept one
    cases one with
    | call other running step =>
      by_cases same : other = worker
      · subst same
        rw [running] at kept
        simpa using kept.2 _ _ (call _ _ _ _ step)
      · simpa [Function.update_of_ne (Ne.symm same), others _ _ _ _ _ same step] using kept
    | start other finished taken => simpa [Function.update_of_ne (Ne.symm taken.1)] using kept
    | kill other killed => simpa [Function.update_of_ne (Ne.symm killed.1)] using kept
    | env moved => simpa [env _ _ moved] using kept

/-- **The rule for one job**: what the job establishes under interference is there at its end. -/
theorem handles_post {program : Prog σ X Unit} {post : Except X Unit → S → Prop}
    {first last : Pool σ X S W} (handles : Handles sys worker program first last)
    (stable : ∀ outcome s after, post outcome s → grows s after → post outcome after)
    (holds : program.wp (sys.rely grows worker) post first.shared) :
    post (.ok ()) last.shared := by
  have finished := wp_busy within handles.run stable holds
  rw [handles.done] at finished
  exact finished

end Rely

/-- A worker that is left alone handles the jobs it runs without an exception. -/
theorem handles_run {worker : W} {pool : Pool σ X S W} {program : Prog σ X Unit}
    {handler : (op : σ.Op) → S → Except X (σ.Ans op) × S}
    (free : (pool.prog worker).Finished)
    (allowed : ∀ op s, sys.step worker op s (handler op s).1 (handler op s).2)
    (returned : (program.run handler pool.shared).1 = .ok ()) :
    Handles sys worker program pool ⟨(program.run handler pool.shared).2,
      Function.update pool.prog worker (.ret ())⟩ where
  free := free
  run := by
    have run := @Prog.steps_run σ X Unit S ((sys.busy worker).alone worker) handler program
      pool.shared allowed
    rw [returned] at run
    simpa [Reaches, Prog.ofOutcome] using reaches_of_steps run
      (Function.update pool.prog worker program) (Function.update_self ..)
  done := Function.update_self ..

end Pool

end Freshet.Lib
