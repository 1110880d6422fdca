/-
**The supervisor**: it starts every child, restarts the ones that exit, and stops them all at the end.

One loop polls the children in turn. Before a dead child is restarted the loop sleeps the rest of its
backoff, and the children behind it wait. A child that dies too often too fast halts the loop.

* `supervise`: the program text; its `while` loop gets the number of its turns as an argument, and
  `running` is the outcome of a run that has used them up;
* `ledger`: what has become of every process, whatever `spawn`, `poll` and `wait` answer;
* `Tracked`: the children's processes are those that were started and not seen to exit, which every
  step of the loop keeps;
* `supervise_leaves_no_orphan`: at the end all of them have been stopped, but where `spawn` raises:
  `supervise` then ends without `_shutdown`.
-/

import Freshet.Lib.Prog
import Mathlib.Data.List.Nodup
import Mathlib.Data.Rat.Defs

namespace Freshet.Ops.Supervisor

open Freshet.Lib

/-! ### The program -/

structure Child where
  name : String
  argv : List String
  logPath : String
  proc : Option ℕ := none
  startedAt : ℚ := 0
  restarts : ℕ := 0
  fastDeaths : ℕ := 0
deriving DecidableEq

inductive Exn where
  | dependencyDown (name : String) (fastDeathS : ℚ) (times : ℕ)
  | attributeError
  | raised (text : String)
deriving DecidableEq

/-- What is logged. -/
inductive LogLine where
  | started (name : String) (restarts : ℕ)
  | died (name : String) (waited pause : ℚ)
  | stopping (name : String) (restarts : ℕ)
  | stuck (name : String)
  | unkillable (name : String)
deriving DecidableEq

/-- What `supervise` calls; a child is spawned by its place in the list. -/
inductive Op where
  | spawn (place : ℕ) (child : Child)
  | clock
  | sleep (seconds : ℚ)
  | shouldStop
  | poll (proc : ℕ)
  | terminate (proc : ℕ)
  | wait (proc : ℕ) (timeout : ℚ)
  | kill (proc : ℕ)
  | log (line : LogLine)

abbrev Op.Ans : Op → Type
  | .spawn .. => ℕ
  | .clock => ℚ
  | .shouldStop => Bool
  | .poll _ => Option ℤ
  | .wait .. => ℤ
  | .sleep _ | .terminate _ | .kill _ | .log _ => Unit

abbrev sig : Sig := ⟨Op, Op.Ans⟩

abbrev Supervising (α : Type) := Prog sig Exn α

abbrev ask (op : Op) : Supervising op.Ans := @Prog.perform sig Exn op

/-- The keyword arguments of `supervise`. -/
structure Settings where
  backoffS : ℚ := 30
  pollS : ℚ := 1
  fastDeathS : ℚ := 15
  maxFastDeaths : ℕ := 6

/-- `child.proc`, of which a method is called. -/
def Child.running (child : Child) : Supervising ℕ :=
  match child.proc with
  | none => .raise .attributeError
  | some proc => pure proc

/-- `_start`. -/
def start (place : ℕ) (child : Child) : Supervising Child := do
  let proc ← ask (.spawn place child)
  let startedAt ← ask .clock
  ask (.log (.started child.name child.restarts))
  pure { child with proc := some proc, startedAt := startedAt }

/-- The first loop of `_shutdown`. -/
def terminateAll : List Child → Supervising Unit
  | [] => pure ()
  | child :: rest => do
    ask (.log (.stopping child.name child.restarts))
    let proc ← child.running
    ask (.terminate proc)
    terminateAll rest

/-- The body of the second loop of `_shutdown`. -/
def confirm (child : Child) : Supervising Unit := do
  let first ← (child.running.bind fun proc => ask (.wait proc 20)).attempt
  match first with
  | .ok _ => pure ()
  | .error _ => do
    ask (.log (.stuck child.name))
    let proc ← child.running
    ask (.kill proc)
    let second ← (child.running.bind fun proc => ask (.wait proc 5)).attempt
    match second with
    | .ok _ => pure ()
    | .error _ => ask (.log (.unkillable child.name))

/-- The second loop of `_shutdown`. -/
def confirmAll : List Child → Supervising Unit
  | [] => pure ()
  | child :: rest => do
    confirm child
    confirmAll rest

/-- `_shutdown`. -/
def shutdown (children : List Child) : Supervising Unit := do
  terminateAll children
  confirmAll children

/-- The end of the loop's body. -/
def restart (place : ℕ) (child : Child) : Supervising Child :=
  start place { child with restarts := child.restarts + 1 }

/-- The sleep before a restart. -/
def throttle (settings : Settings) (child : Child) (waited : ℚ) : Supervising Unit :=
  if waited < settings.backoffS then do
    ask (.log (.died child.name waited (settings.backoffS - waited)))
    ask (.sleep (settings.backoffS - waited))
  else pure ()

/-- The loop's body for a child; `before` and `after` are the other children. -/
def tend (settings : Settings) (before : List Child) (child : Child) (after : List Child) :
    Supervising Child := do
  let proc ← child.running
  let code ← ask (.poll proc)
  match code with
  | none => pure child
  | some _ => do
    let now ← ask .clock
    let waited := now - child.startedAt
    throttle settings child waited
    if waited < settings.fastDeathS then
      let counted := { child with fastDeaths := child.fastDeaths + 1 }
      if settings.maxFastDeaths ≤ counted.fastDeaths then do
        shutdown (before ++ counted :: after)
        .raise (.dependencyDown child.name settings.fastDeathS counted.fastDeaths)
      else restart before.length counted
    else restart before.length { child with fastDeaths := 0 }

/-- `for child in children`, with the children that have been polled. -/
def sweep (settings : Settings) (before : List Child) : List Child → Supervising (List Child)
  | [] => pure before
  | child :: after => do
    let child ← tend settings before child after
    sweep settings (before ++ [child]) after

inductive Ending where
  | stopped
  | running
deriving DecidableEq

/-- The `while` loop and what follows it. -/
def turns (settings : Settings) : ℕ → List Child → Supervising Ending
  | 0, _ => pure .running
  | n + 1, children => do
    let stop ← ask .shouldStop
    if stop then do
      shutdown children
      pure .stopped
    else do
      ask (.sleep settings.pollS)
      let children ← sweep settings [] children
      turns settings n children

/-- `for child in children: _start(…)`, with the children that have been started. -/
def startAll (before : List Child) : List Child → Supervising (List Child)
  | [] => pure before
  | child :: after => do
    let child ← start before.length child
    startAll (before ++ [child]) after

/-- **`supervise`.** -/
def supervise (settings : Settings) (n : ℕ) (children : List Child) : Supervising Ending := do
  let children ← startAll [] children
  turns settings n children

/-! ### What becomes of the processes -/

/-- The processes, numbered as they were started. `late` are those whose first wait timed out. -/
structure Ledger where
  started : ℕ := 0
  exited : List ℕ := []
  terminated : List ℕ := []
  waited : List ℕ := []
  late : List ℕ := []
  killed : List ℕ := []
  refused : Bool := false
deriving DecidableEq

def Ledger.wait (s : Ledger) (proc : ℕ) : Ledger := { s with waited := proc :: s.waited }

def Ledger.timeOut (s : Ledger) (proc : ℕ) : Ledger :=
  { s with
    waited := proc :: s.waited
    late := if proc ∈ s.waited then s.late else proc :: s.late }

/-- **Any behaviour of the processes**: `spawn` and `wait` may raise. -/
def ledger : Machine sig Exn Ledger where
  safe _ _ := True
  step
    | .spawn .., s, answer, after =>
      (answer = .ok s.started ∧ after = { s with started := s.started + 1 }) ∨
        ∃ text, answer = .error (.raised text) ∧ after = { s with refused := true }
    | .poll proc, s, answer, after => ∃ code, answer = .ok code ∧
      after = if code.isSome then { s with exited := proc :: s.exited } else s
    | .terminate proc, s, answer, after =>
      answer = .ok () ∧ after = { s with terminated := proc :: s.terminated }
    | .wait proc _, s, answer, after => (∃ code, answer = .ok code ∧ after = s.wait proc) ∨
      ∃ text, answer = .error (.raised text) ∧ after = s.timeOut proc
    | .kill proc, s, answer, after => answer = .ok () ∧ after = { s with killed := proc :: s.killed }
    | _, s, answer, after => ∃ value, answer = .ok value ∧ after = s

/-- **No orphan**: what was started and not seen to exit was terminated, and killed if it outlived
the first wait. -/
def Ledger.Covered (s : Ledger) : Prop :=
  ∀ proc < s.started, proc ∉ s.exited →
    proc ∈ s.terminated ∧ proc ∈ s.waited ∧ (proc ∈ s.late → proc ∈ s.killed)

/-! ### What the parts of the loop do to the ledger -/

/-- The processes of the children. -/
def procs (children : List Child) : List ℕ := children.filterMap Child.proc

/-- Every child has been started. -/
def AllStarted (children : List Child) : Prop := ∀ child ∈ children, ∃ proc, child.proc = some proc

theorem procs_eq_nil_iff {children : List Child} (running : AllStarted children) :
    procs children = [] ↔ children = [] := by
  cases children with
  | nil => exact iff_of_true rfl rfl
  | cons child rest =>
    obtain ⟨proc, here⟩ := running child List.mem_cons_self
    unfold procs
    rw [List.filterMap_cons_some here]
    exact iff_of_false (List.cons_ne_nil _ _) (List.cons_ne_nil _ _)

/-- A call that is answered and changes nothing. -/
theorem wp_idle {op : Op} {raised : Exn → Ledger → Prop} {good : op.Ans → Ledger → Prop} {s : Ledger}
    (idle : ∀ answer after, ledger.step op s answer after → ∃ value, answer = .ok value ∧ after = s)
    (holds : ∀ value, good value s) : (ask op).wp ledger (Prog.Leads raised good) s := by
  refine Prog.wp_perform.mpr ⟨trivial, fun answer after step => ?_⟩
  obtain ⟨value, rfl, rfl⟩ := idle answer after step
  exact holds value

theorem wp_log {line : LogLine} {raised : Exn → Ledger → Prop} {good : Unit → Ledger → Prop}
    {s : Ledger} (holds : good () s) : (ask (.log line)).wp ledger (Prog.Leads raised good) s :=
  wp_idle (fun _ _ step => step) fun _ => holds

theorem wp_running {child : Child} {proc : ℕ} (here : child.proc = some proc)
    {raised : Exn → Ledger → Prop} {good : ℕ → Ledger → Prop} {s : Ledger} (holds : good proc s) :
    child.running.wp ledger (Prog.Leads raised good) s := by
  unfold Child.running
  rw [here]
  exact holds

theorem wp_start (place : ℕ) (child : Child) (s : Ledger) :
    (start place child).wp ledger (Prog.Leads (fun _ after => after = { s with refused := true })
      fun started after => started.proc = some s.started ∧
        after = { s with started := s.started + 1 }) s := by
  unfold start
  refine Prog.wp_then (fun proc after => proc = s.started ∧
    after = { s with started := s.started + 1 }) ?_ ?_
  · refine Prog.wp_perform.mpr ⟨trivial, fun answer after step => ?_⟩
    rcases step with ⟨rfl, rfl⟩ | ⟨text, rfl, rfl⟩
    · exact ⟨rfl, rfl⟩
    · rfl
  · rintro proc after ⟨rfl, rfl⟩
    refine Prog.wp_then (fun _ last => last = { s with started := s.started + 1 })
      (wp_idle (fun _ _ step => step) fun _ => rfl) ?_
    rintro startedAt last rfl
    refine Prog.wp_then (fun _ last => last = { s with started := s.started + 1 })
      (wp_log rfl) ?_
    rintro - last rfl
    exact ⟨rfl, rfl⟩

theorem wp_terminateAll {children : List Child} (running : AllStarted children) (s : Ledger) :
    (terminateAll children).wp ledger (Prog.Leads (fun _ _ => False) fun _ after =>
      after = { s with terminated := (procs children).reverse ++ s.terminated }) s := by
  induction children generalizing s with
  | nil => rfl
  | cons child rest ih =>
    obtain ⟨proc, here⟩ := running child List.mem_cons_self
    unfold terminateAll
    refine Prog.wp_then (fun _ after => after = s) (wp_log rfl) ?_
    rintro - after rfl
    refine Prog.wp_then (fun value last => value = proc ∧ last = after)
      (wp_running here ⟨rfl, rfl⟩) ?_
    rintro value last ⟨rfl, rfl⟩
    refine Prog.wp_then (fun _ next => next = { last with terminated := value :: last.terminated })
      ?_ ?_
    · refine Prog.wp_perform.mpr ⟨trivial, ?_⟩
      rintro answer next ⟨rfl, rfl⟩
      rfl
    · rintro - next rfl
      refine Prog.wp_mono ?_ (ih (fun other member => running other (List.mem_cons_of_mem _ member)) _)
      rintro (exn | done) ended leads
      · exact leads
      · have grown : procs (child :: rest) = value :: procs rest := List.filterMap_cons_some here
        rw [leads, grown, List.reverse_cons, List.append_assoc]
        rfl

/-- What the second loop of `_shutdown` has done: `done` were waited for, and who was late was
killed. -/
structure Confirmed (s : Ledger) (done : List ℕ) (after : Ledger) : Prop where
  started : after.started = s.started
  exited : after.exited = s.exited
  terminated : after.terminated = s.terminated
  refused : after.refused = s.refused
  waited : ∀ proc ∈ done, proc ∈ after.waited
  killed : ∀ proc ∈ after.late, proc ∈ after.killed

theorem Confirmed.wait {s after : Ledger} {done : List ℕ} (holds : Confirmed s done after)
    (proc : ℕ) : Confirmed s (proc :: done) (after.wait proc) where
  started := holds.started
  exited := holds.exited
  terminated := holds.terminated
  refused := holds.refused
  waited := List.forall_mem_cons.mpr
    ⟨List.mem_cons_self, fun other member => List.mem_cons_of_mem _ (holds.waited other member)⟩
  killed := holds.killed

/-- Who is killed after a first wait that timed out. -/
theorem Confirmed.kill {s after : Ledger} {done : List ℕ} (holds : Confirmed s done after)
    (proc : ℕ) : Confirmed s (proc :: done)
      { after.timeOut proc with killed := proc :: after.killed } where
  started := holds.started
  exited := holds.exited
  terminated := holds.terminated
  refused := holds.refused
  waited := List.forall_mem_cons.mpr
    ⟨List.mem_cons_self, fun other member => List.mem_cons_of_mem _ (holds.waited other member)⟩
  killed := by
    intro other late
    have cases' : other = proc ∨ other ∈ after.late := by
      unfold Ledger.timeOut at late
      dsimp only at late
      split_ifs at late with before
      · exact Or.inr late
      · exact List.mem_cons.mp late
    rcases cases' with rfl | late
    · exact List.mem_cons_self
    · exact List.mem_cons_of_mem _ (holds.killed other late)

/-- A second wait, which changes nothing for who is killed. -/
theorem Confirmed.again {s after : Ledger} {done : List ℕ} {proc : ℕ}
    (holds : Confirmed s (proc :: done) after) : Confirmed s (proc :: done) (after.timeOut proc) where
  started := holds.started
  exited := holds.exited
  terminated := holds.terminated
  refused := holds.refused
  waited := fun other member => List.mem_cons_of_mem _ (holds.waited other member)
  killed := by
    intro other late
    have before : proc ∈ after.waited := holds.waited proc List.mem_cons_self
    unfold Ledger.timeOut at late
    dsimp only at late
    rw [if_pos before] at late
    exact holds.killed other late

/-- The two ways a wait can end. -/
theorem wp_wait {proc : ℕ} {timeout : ℚ} {child : Child} (here : child.proc = some proc)
    {good : Except Exn ℤ → Ledger → Prop} {s : Ledger} (returned : ∀ code, good (.ok code) (s.wait proc))
    (raised : ∀ exn, good (.error exn) (s.timeOut proc)) :
    ((child.running.bind fun proc => ask (.wait proc timeout)).attempt).wp ledger
      (Prog.Leads (fun _ _ => False) good) s := by
  refine Prog.wp_attempt.mpr (Prog.wp_bind.mpr ?_)
  unfold Child.running
  rw [here]
  refine Prog.wp_perform.mpr ⟨trivial, fun answer after step => ?_⟩
  rcases step with ⟨code, rfl, rfl⟩ | ⟨text, rfl, rfl⟩
  · exact returned code
  · exact raised _

theorem wp_confirm {child : Child} {proc : ℕ} (here : child.proc = some proc) {s after : Ledger}
    {done : List ℕ} (holds : Confirmed s done after) :
    (confirm child).wp ledger (Prog.Leads (fun _ _ => False) fun _ last =>
      Confirmed s (proc :: done) last) after := by
  unfold confirm
  refine Prog.wp_then (fun first last => (∀ code, first = .ok code → last = after.wait proc) ∧
      ∀ exn, first = .error exn → last = after.timeOut proc)
    (wp_wait here (fun _ => ⟨fun _ _ => rfl, fun _ same => by cases same⟩)
      fun _ => ⟨fun _ same => (by cases same), fun _ _ => rfl⟩) ?_
  rintro (exn | code) last ⟨returned, timedOut⟩
  · obtain rfl := timedOut exn rfl
    refine Prog.wp_then (fun _ next => next = after.timeOut proc) (wp_log rfl) ?_
    rintro - next rfl
    refine Prog.wp_then (fun value next => value = proc ∧ next = after.timeOut proc)
      (wp_running here ⟨rfl, rfl⟩) ?_
    rintro value next ⟨rfl, rfl⟩
    refine Prog.wp_then (fun _ next => Confirmed s (value :: done) next) ?_ ?_
    · refine Prog.wp_perform.mpr ⟨trivial, ?_⟩
      rintro answer next ⟨rfl, rfl⟩
      exact holds.kill value
    · intro _ next killed
      refine Prog.wp_then (fun _ last => Confirmed s (value :: done) last)
        (wp_wait here (fun _ => ?_) fun _ => killed.again) ?_
      · exact ⟨killed.started, killed.exited, killed.terminated, killed.refused,
          fun other member => List.mem_cons_of_mem _ (killed.waited other member), killed.killed⟩
      · rintro (exn | code) last confirmed
        · exact wp_log confirmed
        · exact confirmed
  · obtain rfl := returned code rfl
    exact holds.wait proc

theorem wp_confirmAll {children : List Child} (running : AllStarted children) {s after : Ledger}
    {done : List ℕ} (holds : Confirmed s done after) :
    (confirmAll children).wp ledger (Prog.Leads (fun _ _ => False) fun _ last =>
      Confirmed s ((procs children).reverse ++ done) last) after := by
  induction children generalizing after done with
  | nil => exact holds
  | cons child rest ih =>
    obtain ⟨proc, here⟩ := running child List.mem_cons_self
    have grown : procs (child :: rest) = proc :: procs rest := List.filterMap_cons_some here
    rw [grown, List.reverse_cons, List.append_assoc]
    exact Prog.wp_then (fun _ last => Confirmed s (proc :: done) last) (wp_confirm here holds)
      fun _ _ confirmed => ih (fun other member => running other (List.mem_cons_of_mem _ member))
        confirmed

/-! ### Who is still running -/

/-- No one has been stopped yet, and the processes listed are those that were started and not seen to
exit. -/
structure Pending (listed : List ℕ) (s : Ledger) : Prop where
  pending : ∀ proc, proc ∈ listed ↔ proc < s.started ∧ proc ∉ s.exited
  seen : ∀ proc ∈ s.exited, proc < s.started
  untouched : s = { started := s.started, exited := s.exited }

/-- **The children's processes are those that were started and not seen to exit.** -/
structure Tracked (children : List Child) (s : Ledger) : Prop where
  running : AllStarted children
  distinct : (procs children).Nodup
  listed : Pending (procs children) s

/-- What is to be shown of the end: it is covered but where `spawn` was refused with another child
started. -/
def Settled (count : ℕ) (s : Ledger) : Prop :=
  s.Covered ↔ (s.refused = true → s.started = 0 ∨ count = 1)

/-- Where no one has been stopped, only the empty list is covered. -/
theorem Pending.covered_iff {listed : List ℕ} {s : Ledger} (holds : Pending listed s) :
    Ledger.Covered { s with refused := true } ↔ listed = [] := by
  constructor
  · intro covered
    rw [List.eq_nil_iff_forall_not_mem]
    intro proc inside
    obtain ⟨started, unseen⟩ := (holds.pending proc).mp inside
    obtain ⟨stopped, -⟩ := covered proc started unseen
    have quiet : s.terminated = [] := by rw [holds.untouched]
    have stopped' : proc ∈ s.terminated := stopped
    rw [quiet] at stopped'
    exact absurd stopped' List.not_mem_nil
  · rintro rfl proc started unseen
    exact absurd ((holds.pending proc).mpr ⟨started, unseen⟩) List.not_mem_nil

/-- **`_shutdown` covers all.** -/
theorem wp_shutdown {children : List Child} {s : Ledger} (running : AllStarted children)
    (listed : ∀ proc < s.started, proc ∉ s.exited → proc ∈ procs children)
    (untouched : s = { started := s.started, exited := s.exited }) :
    (shutdown children).wp ledger (Prog.Leads (fun _ _ => False) fun _ after =>
      after.Covered ∧ after.refused = false) s := by
  unfold shutdown
  refine Prog.wp_then _ (wp_terminateAll running s) ?_
  rintro - after rfl
  refine Prog.wp_mono ?_ (@wp_confirmAll _ running
    { s with terminated := (procs children).reverse ++ s.terminated } _ []
    ⟨rfl, rfl, rfl, rfl, fun _ member => absurd member List.not_mem_nil, ?_⟩)
  · rintro (exn | done) last leads
    · exact leads
    · have leads : Confirmed _ _ last := leads
      refine ⟨fun proc started unseen => ?_, ?_⟩
      · rw [leads.started] at started
        rw [leads.exited] at unseen
        have inside := List.mem_reverse.mpr (listed proc started unseen)
        rw [leads.terminated]
        exact ⟨List.mem_append_left _ inside, leads.waited proc (List.mem_append_left _ inside),
          leads.killed proc⟩
      · rw [leads.refused]
        show s.refused = false
        rw [untouched]
  · intro proc late
    have quiet : s.late = [] := by rw [untouched]
    have late' : proc ∈ s.late := late
    rw [quiet] at late'
    exact absurd late' List.not_mem_nil

theorem procs_append (before after : List Child) :
    procs (before ++ after) = procs before ++ procs after := List.filterMap_append

theorem procs_cons {child : Child} {proc : ℕ} (here : child.proc = some proc)
    (rest : List Child) : procs (child :: rest) = proc :: procs rest :=
  List.filterMap_cons_some here

/-- A child that has exited, between its exit and its restart. -/
theorem Tracked.exit {before after : List Child} {child : Child} {s : Ledger} {proc : ℕ}
    (holds : Tracked (before ++ child :: after) s) (here : child.proc = some proc) :
    Pending (procs (before ++ after)) { s with exited := proc :: s.exited } where
  pending other := by
    have split := holds.listed.pending other
    have distinct := holds.distinct
    rw [procs_append, procs_cons here] at split distinct
    rw [procs_append, List.mem_append]
    rw [List.mem_append, List.mem_cons] at split
    show _ ↔ other < s.started ∧ other ∉ proc :: s.exited
    rw [List.mem_cons, not_or]
    have apart := List.nodup_middle.mp distinct
    obtain ⟨fresh, -⟩ := List.nodup_cons.mp apart
    rw [List.mem_append] at fresh
    constructor
    · intro inside
      have tracked : other < s.started ∧ other ∉ s.exited := split.mp (inside.imp id Or.inr)
      refine ⟨tracked.1, ?_, tracked.2⟩
      rintro rfl
      exact fresh inside
    · rintro ⟨started, ne, unseen⟩
      rcases split.mpr ⟨started, unseen⟩ with early | same | late
      · exact Or.inl early
      · exact absurd same ne
      · exact Or.inr late
  seen := by
    have tracked : proc ∈ procs (before ++ child :: after) := by
      rw [procs_append, procs_cons here]
      exact List.mem_append_right _ List.mem_cons_self
    exact List.forall_mem_cons.mpr ⟨((holds.listed.pending proc).mp tracked).1, holds.listed.seen⟩
  untouched := by
    rw [holds.listed.untouched]

/-- A start puts the new process in the place of the child. -/
theorem Tracked.start {before after : List Child} {child : Child} {s : Ledger}
    (others : AllStarted (before ++ after)) (distinct : (procs (before ++ after)).Nodup)
    (holds : Pending (procs (before ++ after)) s) (here : child.proc = some s.started) :
    Tracked (before ++ child :: after) { s with started := s.started + 1 } := by
  have fresh : s.started ∉ procs (before ++ after) := fun inside =>
    Nat.lt_irrefl _ ((holds.pending _).mp inside).1
  have split : procs (before ++ child :: after) = procs before ++ s.started :: procs after := by
    rw [procs_append, procs_cons here]
  refine ⟨fun other member => ?_, ?_, fun other => ?_,
    fun other seen => Nat.lt_succ_of_lt (holds.seen other seen), ?_⟩
  · rcases List.mem_append.mp member with early | late
    · exact others other (List.mem_append_left _ early)
    · rcases List.mem_cons.mp late with rfl | late
      · exact ⟨_, here⟩
      · exact others other (List.mem_append_right _ late)
  · rw [split, List.nodup_middle, ← procs_append]
    exact List.nodup_cons.mpr ⟨fresh, distinct⟩
  · have tracked := holds.pending other
    rw [procs_append, List.mem_append] at tracked
    rw [split, List.mem_append, List.mem_cons]
    show _ ↔ other < s.started + 1 ∧ other ∉ s.exited
    constructor
    · rintro (early | rfl | late)
      · exact ⟨Nat.lt_succ_of_lt (tracked.mp (Or.inl early)).1, (tracked.mp (Or.inl early)).2⟩
      · exact ⟨Nat.lt_succ_self _, fun seen => Nat.lt_irrefl _ (holds.seen _ seen)⟩
      · exact ⟨Nat.lt_succ_of_lt (tracked.mp (Or.inr late)).1, (tracked.mp (Or.inr late)).2⟩
    · rintro ⟨started, live⟩
      rcases Nat.lt_or_eq_of_le (Nat.le_of_lt_succ started) with less | same
      · exact (tracked.mpr ⟨less, live⟩).imp id Or.inr
      · exact Or.inr (Or.inl same)
  · rw [holds.untouched]

theorem AllStarted.swap {before after : List Child} {child : Child}
    (running : AllStarted (before ++ child :: after)) : AllStarted (before ++ after) := by
  intro other member
  refine running other (List.mem_append.mpr ((List.mem_append.mp member).imp id ?_))
  exact List.mem_cons_of_mem _

/-- A start in the place of a child that has exited, or of one that was never started. -/
theorem wp_start_tracked {before after : List Child} {s : Ledger} {count : ℕ} (place : ℕ)
    (child : Child) (others : AllStarted (before ++ after))
    (distinct : (procs (before ++ after)).Nodup) (holds : Pending (procs (before ++ after)) s)
    (settled : before ++ after = [] ↔ s.started = 0 ∨ count = 1) :
    (start place child).wp ledger (Prog.Leads (fun _ => Settled count) fun started after' =>
      Tracked (before ++ started :: after) after' ∧
        after' = { s with started := s.started + 1 }) s := by
  refine Prog.wp_mono ?_ (wp_start place child s)
  rintro (exn | started) last leads
  · have leads : last = { s with refused := true } := leads
    subst leads
    show Ledger.Covered _ ↔ (true = true → s.started = 0 ∨ count = 1)
    rw [holds.covered_iff, procs_eq_nil_iff others, settled]
    exact ⟨fun either _ => either, fun either => either rfl⟩
  · obtain ⟨here, rfl⟩ := leads
    exact ⟨Tracked.start others distinct holds here, rfl⟩

/-- **One child's turn keeps the processes tracked.** -/
theorem wp_tend (settings : Settings) {before after : List Child} {child : Child} {s : Ledger}
    (holds : Tracked (before ++ child :: after) s) :
    (tend settings before child after).wp ledger
      (Prog.Leads (fun _ => Settled (before ++ child :: after).length) fun child' last =>
        Tracked (before ++ child' :: after) last) s := by
  obtain ⟨proc, here⟩ := holds.running child (List.mem_append_right _ List.mem_cons_self)
  have others := holds.running.swap
  have listed := holds.exit here
  have distinct : (procs (before ++ after)).Nodup := by
    have distinct := holds.distinct
    rw [procs_append, procs_cons here, List.nodup_middle, ← procs_append] at distinct
    exact (List.nodup_cons.mp distinct).2
  have alone : before ++ after = [] ↔
      s.started = 0 ∨ (before ++ child :: after).length = 1 := by
    have member : proc ∈ procs (before ++ child :: after) := by
      rw [procs_append, procs_cons here]
      exact List.mem_append_right _ List.mem_cons_self
    have some' := ((holds.listed.pending proc).mp member).1
    rw [← List.length_eq_zero_iff]
    simp only [List.length_append, List.length_cons]
    omega
  have again : ∀ child' : Child, (restart before.length child').wp ledger
      (Prog.Leads (fun _ => Settled (before ++ child :: after).length) fun child' last =>
        Tracked (before ++ child' :: after) last) { s with exited := proc :: s.exited } := by
    intro child'
    refine Prog.wp_mono ?_ (wp_start_tracked before.length _ others distinct listed alone)
    rintro (exn | started) last leads
    · exact leads
    · exact leads.1
  unfold tend
  refine Prog.wp_then (fun value last => value = proc ∧ last = s) (wp_running here ⟨rfl, rfl⟩) ?_
  rintro value last ⟨rfl, rfl⟩
  refine Prog.wp_then (fun code next =>
    next = if code.isSome then { last with exited := value :: last.exited } else last) ?_ ?_
  · refine Prog.wp_perform.mpr ⟨trivial, ?_⟩
    rintro answer next ⟨code, rfl, rfl⟩
    rfl
  rintro (_ | code) next rfl
  · exact holds
  · refine Prog.wp_then (fun _ next => next = { last with exited := value :: last.exited })
      (wp_idle (fun _ _ step => step) fun _ => rfl) ?_
    rintro now next rfl
    refine Prog.wp_then (fun _ next => next = { last with exited := value :: last.exited }) ?_ ?_
    · unfold throttle
      split_ifs
      · refine Prog.wp_then (fun _ next => next = { last with exited := value :: last.exited })
          (wp_log rfl) ?_
        rintro - next rfl
        exact wp_idle (fun _ _ step => step) fun _ => rfl
      · rfl
    · rintro - next rfl
      dsimp only
      split_ifs
      · refine Prog.wp_then (fun _ next => next.Covered ∧ next.refused = false)
          (Prog.wp_mono ?_ (wp_shutdown ?_ ?_ ?_)) ?_
        · rintro (exn | done) next leads
          · exact leads.elim
          · exact leads
        · intro other member
          rcases List.mem_append.mp member with early | late
          · exact others other (List.mem_append_left _ early)
          · rcases List.mem_cons.mp late with rfl | late
            · exact ⟨value, here⟩
            · exact others other (List.mem_append_right _ late)
        · intro other started unseen
          have inside := (listed.pending other).mpr ⟨started, unseen⟩
          rw [procs_append, List.mem_append] at inside
          rw [procs_append, List.mem_append]
          refine inside.imp id fun late => ?_
          have grown : procs ({ child with fastDeaths := child.fastDeaths + 1 } :: after) =
              value :: procs after := procs_cons here after
          exact grown ▸ List.mem_cons_of_mem _ late
        · exact listed.untouched
        · rintro - next ⟨covered, answered⟩
          show _ ↔ _
          rw [answered]
          exact iff_of_true covered fun refused => absurd refused Bool.false_ne_true
      · exact again _
      · exact again _

theorem wp_sweep (settings : Settings) {before children : List Child} {s : Ledger}
    (holds : Tracked (before ++ children) s) :
    (sweep settings before children).wp ledger
      (Prog.Leads (fun _ => Settled (before ++ children).length) fun children' last =>
        Tracked children' last ∧ children'.length = (before ++ children).length) s := by
  induction children generalizing before s with
  | nil =>
    rw [List.append_nil] at holds ⊢
    exact ⟨holds, rfl⟩
  | cons child rest ih =>
    unfold sweep
    refine Prog.wp_then _ (wp_tend settings holds) ?_
    intro child' last tracked
    have same : (before ++ [child'] ++ rest).length = (before ++ child :: rest).length := by
      simp
    rw [← same]
    exact ih (by rwa [List.append_assoc])

theorem wp_turns (settings : Settings) (n : ℕ) {children : List Child} {s : Ledger}
    (holds : Tracked children s) :
    (turns settings n children).wp ledger (Prog.Leads (fun _ => Settled children.length)
      fun ending last => ending = .stopped → Settled children.length last) s := by
  induction n generalizing children s with
  | zero => exact fun stopped => nomatch stopped
  | succ n ih =>
    unfold turns
    refine Prog.wp_then (fun _ last => last = s) (wp_idle (fun _ _ step => step) fun _ => rfl) ?_
    rintro stop last rfl
    split_ifs
    · refine Prog.wp_then (fun _ next => next.Covered ∧ next.refused = false)
        (Prog.wp_mono ?_ (wp_shutdown holds.running (fun proc started unseen =>
          (holds.listed.pending proc).mpr ⟨started, unseen⟩) holds.listed.untouched)) ?_
      · rintro (exn | done) next leads
        · exact leads.elim
        · exact leads
      · rintro - next ⟨covered, answered⟩ -
        show _ ↔ _
        rw [answered]
        exact iff_of_true covered fun refused => absurd refused Bool.false_ne_true
    · refine Prog.wp_then (fun _ next => next = last) (wp_idle (fun _ _ step => step) fun _ => rfl) ?_
      rintro - next rfl
      refine Prog.wp_then _ (@wp_sweep settings [] _ _ holds) ?_
      rintro children' last ⟨tracked, same⟩
      exact same ▸ ih tracked

theorem wp_startAll {before children : List Child} {s : Ledger} (holds : Tracked before s)
    (live : s.exited = []) :
    (startAll before children).wp ledger
      (Prog.Leads (fun _ => Settled (before ++ children).length) fun children' last =>
        Tracked children' last ∧ children'.length = (before ++ children).length) s := by
  induction children generalizing before s with
  | nil =>
    rw [List.append_nil]
    exact ⟨holds, rfl⟩
  | cons child rest ih =>
    have count : before ++ [] = [] ↔ s.started = 0 ∨ (before ++ child :: rest).length = 1 := by
      rw [List.append_nil]
      constructor
      · rintro rfl
        refine Or.inl (Nat.eq_zero_of_not_pos fun some' => ?_)
        have member := (holds.listed.pending 0).mpr ⟨some', live ▸ List.not_mem_nil⟩
        exact List.not_mem_nil member
      · rintro (none' | one)
        · rw [← procs_eq_nil_iff holds.running, List.eq_nil_iff_forall_not_mem]
          intro proc inside
          have below := ((holds.listed.pending proc).mp inside).1
          omega
        · rw [List.length_append, List.length_cons] at one
          exact List.length_eq_zero_iff.mp (by omega)
    unfold startAll
    refine Prog.wp_then (fun child' last => Tracked (before ++ [child']) last ∧ last.exited = []) ?_ ?_
    · refine Prog.wp_mono ?_ (@wp_start_tracked _ [] _ _ before.length child ?_ ?_ ?_ count)
      · rintro (exn | started) last leads
        · exact leads
        · obtain ⟨tracked, rfl⟩ := leads
          exact ⟨tracked, live⟩
      · rw [List.append_nil]
        exact holds.running
      · rw [List.append_nil]
        exact holds.distinct
      · rw [List.append_nil]
        exact holds.listed
    · rintro child' last ⟨tracked, live'⟩
      have same : (before ++ [child'] ++ rest).length = (before ++ child :: rest).length := by
        simp
      rw [← same]
      exact ih tracked live'

/-- **No orphan is left**, but where `spawn` raises while another child is running. -/
theorem supervise_leaves_no_orphan (settings : Settings) (n : ℕ) (children : List Child) :
    (supervise settings n children).wp ledger (fun outcome last => outcome ≠ .ok .running →
      (last.Covered ↔ (last.refused = true → last.started = 0 ∨ children.length = 1))) {} := by
  have begun : Tracked [] ({} : Ledger) := by
    refine ⟨fun _ member => absurd member List.not_mem_nil, List.nodup_nil, ?_, ?_, rfl⟩
    · exact fun proc => iff_of_false List.not_mem_nil fun started => Nat.not_lt_zero _ started.1
    · exact fun _ member => absurd member List.not_mem_nil
  have whole : (supervise settings n children).wp ledger (Prog.Leads
      (fun _ => Settled children.length) fun ending last =>
        ending = .stopped → Settled children.length last) {} := by
    refine Prog.wp_then _ (wp_startAll begun rfl) ?_
    rintro children' last ⟨tracked, same⟩
    exact same ▸ wp_turns settings n tracked
  refine Prog.wp_mono ?_ whole
  rintro (exn | ending) last leads running
  · exact leads
  · cases ending with
    | stopped => exact leads rfl
    | running => exact absurd rfl running

/-- A `spawn` that raises the second time, with processes that never exit. -/
def secondRefused : (op : sig.Op) → Ledger → Except Exn (sig.Ans op) × Ledger
  | .spawn .., s =>
    if s.started = 1 then (.error (.raised "OSError"), { s with refused := true })
    else (.ok s.started, { s with started := s.started + 1 })
  | .clock, s => (.ok 0, s)
  | .sleep _, s => (.ok (), s)
  | .shouldStop, s => (.ok false, s)
  | .poll _, s => (.ok none, s)
  | .terminate proc, s => (.ok (), { s with terminated := proc :: s.terminated })
  | .wait proc _, s => (.ok 0, s.wait proc)
  | .kill proc, s => (.ok (), { s with killed := proc :: s.killed })
  | .log _, s => (.ok (), s)

theorem secondRefused_allowed (op : sig.Op) (s : Ledger) :
    ledger.step op s (secondRefused op s).1 (secondRefused op s).2 := by
  cases op with
  | spawn place child =>
    unfold secondRefused
    by_cases one : s.started = 1
    · simp only [if_pos one]
      exact Or.inr ⟨_, rfl, rfl⟩
    · simp only [if_neg one]
      exact Or.inl ⟨rfl, rfl⟩
  | wait proc timeout => exact Or.inl ⟨_, rfl, rfl⟩
  | terminate proc => exact ⟨rfl, rfl⟩
  | kill proc => exact ⟨rfl, rfl⟩
  | poll proc => exact ⟨none, rfl, rfl⟩
  | clock => exact ⟨_, rfl, rfl⟩
  | sleep seconds => exact ⟨_, rfl, rfl⟩
  | shouldStop => exact ⟨_, rfl, rfl⟩
  | log line => exact ⟨_, rfl, rfl⟩

/-- **An orphan**: the poller runs on when the embedder cannot be started. -/
theorem secondRefused_leaves_orphan :
    ¬ ∀ (settings : Settings) (n : ℕ) (children : List Child),
      (supervise settings n children).wp ledger
        (fun outcome last => outcome ≠ .ok .running → last.Covered) {} := by
  intro claim
  have ended := Prog.wp_run secondRefused_allowed (claim {} 1
    [⟨"poller", ["poller"], "logs/poller.log", none, 0, 0, 0⟩,
      ⟨"embedder", ["embedder"], "logs/embedder.log", none, 0, 0, 0⟩])
  have covered := ended (by decide)
  have stopped := covered 0 (by decide) (by decide)
  exact absurd stopped.1 (by decide)

end Freshet.Ops.Supervisor
