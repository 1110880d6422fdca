/-
**Programs that call operations, may fail at any call, and may be stopped between two calls.**

A `Prog` is the tree of everything a piece of imperative code can do: it returns, it raises, or it
calls one operation and goes on with whatever the call answered. The answer of a call is an
`Except`, so every call may raise.

* `Machine` says what a call may do to a state, and which calls a state permits.
* `Prog.wp` is the weakest precondition. It checks `Machine.safe` before every call, so a state
  invariant put there holds at every point where the program can be killed.
* `Prog.Steps` is the small-step run; `wp_steps` carries `wp` along it, which is how a fact about
  the program text becomes a fact about every prefix of every run.
* `Prog.run` evaluates a program against a deterministic machine.
-/

import Mathlib.Logic.Relation

namespace Freshet.Lib

/-- The operations a program may call, and what each one answers. -/
structure Sig where
  Op : Type
  Ans : Op → Type

/-- A program over the operations of `σ`, raising exceptions of type `X`. -/
inductive Prog (σ : Sig) (X : Type) (α : Type) : Type where
  | ret (value : α)
  | raise (exn : X)
  | call (op : σ.Op) (next : Except X (σ.Ans op) → Prog σ X α)

namespace Prog

variable {σ : Sig} {X α β γ S : Type}

/-- Run the first program, then the second on its value; an exception skips the second. -/
def bind (first : Prog σ X α) (next : α → Prog σ X β) : Prog σ X β :=
  match first with
  | .ret value => next value
  | .raise exn => .raise exn
  | .call op rest => .call op fun answer => (rest answer).bind next

instance : Monad (Prog σ X) where
  pure := .ret
  bind := bind

/-- One call, whose failure is raised. -/
def perform (op : σ.Op) : Prog σ X (σ.Ans op) :=
  .call op fun
    | .ok answer => .ret answer
    | .error exn => .raise exn

/-- Run a program and hand its exception over as a value: the two arms of `try … except`. -/
def attempt : Prog σ X α → Prog σ X (Except X α)
  | .ret value => .ret (.ok value)
  | .raise exn => .ret (.error exn)
  | .call op rest => .call op fun answer => (rest answer).attempt

/-- The program has returned or raised. -/
def Finished : Prog σ X α → Prop
  | .ret _ => True
  | .raise _ => True
  | .call _ _ => False

@[simp] theorem pure_eq (value : α) : (pure value : Prog σ X α) = .ret value := rfl

@[simp] theorem bind_eq (first : Prog σ X α) (next : α → Prog σ X β) :
    (first >>= next) = first.bind next := rfl

@[simp] theorem ret_bind (value : α) (next : α → Prog σ X β) :
    (Prog.ret value : Prog σ X α).bind next = next value := rfl

@[simp] theorem raise_bind (exn : X) (next : α → Prog σ X β) :
    (Prog.raise exn : Prog σ X α).bind next = .raise exn := rfl

theorem bind_assoc (first : Prog σ X α) (second : α → Prog σ X β) (third : β → Prog σ X γ) :
    (first.bind second).bind third = first.bind fun value => (second value).bind third := by
  induction first with
  | ret value => rfl
  | raise exn => rfl
  | call op rest ih =>
    simp only [bind]
    congr 1
    funext answer
    exact ih answer

end Prog

/-- **A machine**: which calls a state permits, and what a permitted call may answer and do. -/
structure Machine (σ : Sig) (X S : Type) where
  safe : σ.Op → S → Prop
  step : (op : σ.Op) → S → Except X (σ.Ans op) → S → Prop

/-- The machine of a handler, which answers every call in one way. -/
def Machine.ofHandler {σ : Sig} {X S : Type}
    (handler : (op : σ.Op) → S → Except X (σ.Ans op) × S) : Machine σ X S where
  safe _ _ := True
  step op s answer after := answer = (handler op s).1 ∧ after = (handler op s).2

namespace Prog

variable {σ : Sig} {X α β γ S : Type} (m : Machine σ X S)

/-! ### The weakest precondition -/

/-- **Every call made is permitted, and `post` holds of the outcome.** -/
def wp : Prog σ X α → (Except X α → S → Prop) → S → Prop
  | .ret value, post, s => post (.ok value) s
  | .raise exn, post, s => post (.error exn) s
  | .call op next, post, s =>
    m.safe op s ∧ ∀ answer after, m.step op s answer after → (next answer).wp post after

variable {m}

theorem wp_mono {program : Prog σ X α} {post weaker : Except X α → S → Prop} {s : S}
    (implies : ∀ outcome after, post outcome after → weaker outcome after)
    (holds : program.wp m post s) : program.wp m weaker s := by
  induction program generalizing s with
  | ret value => exact implies _ _ holds
  | raise exn => exact implies _ _ holds
  | call op next ih =>
    exact ⟨holds.1, fun answer after step => ih answer (holds.2 answer after step)⟩

/-- Two postconditions at once. -/
theorem wp_and {program : Prog σ X α} {post other : Except X α → S → Prop} {s : S}
    (holds : program.wp m post s) (holds' : program.wp m other s) :
    program.wp m (fun outcome after => post outcome after ∧ other outcome after) s := by
  induction program generalizing s with
  | ret value => exact ⟨holds, holds'⟩
  | raise exn => exact ⟨holds, holds'⟩
  | call op next ih =>
    exact ⟨holds.1, fun answer after step =>
      ih answer (holds.2 answer after step) (holds'.2 answer after step)⟩

/-- A machine that permits more and does less. -/
theorem wp_permit {other : Machine σ X S} {program : Prog σ X α} {post : Except X α → S → Prop}
    {s : S} (safe : ∀ op s, m.safe op s → other.safe op s)
    (step : ∀ op s answer after, other.step op s answer after → m.step op s answer after)
    (holds : program.wp m post s) : program.wp other post s := by
  induction program generalizing s with
  | ret value => exact holds
  | raise exn => exact holds
  | call op next ih =>
    exact ⟨safe op s holds.1, fun answer after moved =>
      ih answer (holds.2 answer after (step op s answer after moved))⟩

/-- The rule for sequencing: the first program's value is passed on, its exception kept. -/
theorem wp_bind {first : Prog σ X α} {next : α → Prog σ X β} {post : Except X β → S → Prop}
    {s : S} :
    (first.bind next).wp m post s ↔
      first.wp m (fun outcome after => match outcome with
        | .ok value => (next value).wp m post after
        | .error exn => post (.error exn) after) s := by
  induction first generalizing s with
  | ret value => exact Iff.rfl
  | raise exn => exact Iff.rfl
  | call op rest ih =>
    constructor
    · exact fun holds => ⟨holds.1, fun answer after step => (ih answer).mp (holds.2 _ _ step)⟩
    · exact fun holds => ⟨holds.1, fun answer after step => (ih answer).mpr (holds.2 _ _ step)⟩

/-- Sequencing through an intermediate assertion. -/
theorem wp_bind_of (middle : α → S → Prop) {first : Prog σ X α} {next : α → Prog σ X β}
    {post : Except X β → S → Prop} {s : S}
    (start : first.wp m (fun outcome after => match outcome with
      | .ok value => middle value after
      | .error exn => post (.error exn) after) s)
    (rest : ∀ value after, middle value after → (next value).wp m post after) :
    (first.bind next).wp m post s := by
  rw [wp_bind]
  refine wp_mono ?_ start
  intro outcome after holds
  cases outcome with
  | ok value => exact rest value after holds
  | error exn => exact holds

/-- The rule for `try`: both outcomes arrive as values. -/
theorem wp_attempt {program : Prog σ X α} {post : Except X (Except X α) → S → Prop} {s : S} :
    program.attempt.wp m post s ↔ program.wp m (fun outcome after => post (.ok outcome) after) s := by
  induction program generalizing s with
  | ret value => exact Iff.rfl
  | raise exn => exact Iff.rfl
  | call op rest ih =>
    constructor
    · exact fun holds => ⟨holds.1, fun answer after step => (ih answer).mp (holds.2 _ _ step)⟩
    · exact fun holds => ⟨holds.1, fun answer after step => (ih answer).mpr (holds.2 _ _ step)⟩

/-- An outcome that is a value as `good` says, or an exception that leaves the state `bad`. -/
def Ends (bad : S → Prop) (good : α → S → Prop) : Except X α → S → Prop
  | .ok value, s => good value s
  | .error _, s => bad s

/-- Sequencing, when all that matters after an exception is one assertion. -/
theorem wp_seq (middle : α → S → Prop) {bad : S → Prop} {first : Prog σ X α} {next : α → Prog σ X β}
    {good : β → S → Prop} {s : S} (start : first.wp m (Ends bad middle) s)
    (rest : ∀ value s, middle value s → (next value).wp m (Ends bad good) s) :
    (first.bind next).wp m (Ends bad good) s := by
  refine wp_bind_of middle (wp_mono ?_ start) rest
  intro outcome after ends
  cases outcome <;> exact ends

/-- An outcome that is a value as `good` says, or an exception as `raised` says. -/
def Leads (raised : X → S → Prop) (good : α → S → Prop) : Except X α → S → Prop
  | .ok value, s => good value s
  | .error exn, s => raised exn s

/-- Sequencing, when it matters which exception was raised. -/
theorem wp_then (middle : α → S → Prop) {raised : X → S → Prop} {first : Prog σ X α}
    {next : α → Prog σ X β} {good : β → S → Prop} {s : S}
    (start : first.wp m (Leads raised middle) s)
    (rest : ∀ value s, middle value s → (next value).wp m (Leads raised good) s) :
    (first.bind next).wp m (Leads raised good) s := by
  refine wp_bind_of middle (wp_mono ?_ start) rest
  intro outcome after leads
  cases outcome <;> exact leads

/-- A `try` whose exception is caught and dropped. -/
theorem wp_try {bad : S → Prop} {good : Except X α → S → Prop} {program : Prog σ X α} {s : S}
    (holds : program.wp m good s) : program.attempt.wp m (Ends bad good) s :=
  wp_attempt.mpr holds

theorem wp_perform {op : σ.Op} {post : Except X (σ.Ans op) → S → Prop} {s : S} :
    (perform op).wp m post s ↔
      m.safe op s ∧ ∀ answer after, m.step op s answer after → post answer after := by
  constructor
  · intro holds
    refine ⟨holds.1, fun answer after step => ?_⟩
    have kept := holds.2 answer after step
    cases answer <;> exact kept
  · intro holds
    refine ⟨holds.1, fun answer after step => ?_⟩
    have kept := holds.2 answer after step
    cases answer <;> exact kept

/-! ### Programs that only make calls of one kind -/

/-- Every call of the program, whatever was answered before it, is an `allowed` one. -/
def Uses (allowed : σ.Op → Prop) : Prog σ X α → Prop
  | .ret _ => True
  | .raise _ => True
  | .call op next => allowed op ∧ ∀ answer, (next answer).Uses allowed

section Uses

variable {allowed : σ.Op → Prop}

@[simp] theorem uses_ret (value : α) : (Prog.ret value : Prog σ X α).Uses allowed := trivial

@[simp] theorem uses_raise (exn : X) : (Prog.raise exn : Prog σ X α).Uses allowed := trivial

theorem uses_perform {op : σ.Op} (permitted : allowed op) :
    (perform op : Prog σ X (σ.Ans op)).Uses allowed :=
  ⟨permitted, fun answer => by cases answer <;> trivial⟩

theorem uses_bind {first : Prog σ X α} {next : α → Prog σ X β} (start : first.Uses allowed)
    (rest : ∀ value, (next value).Uses allowed) : (first.bind next).Uses allowed := by
  induction first with
  | ret value => exact rest value
  | raise exn => trivial
  | call op more ih => exact ⟨start.1, fun answer => ih answer (start.2 answer)⟩

theorem uses_attempt {program : Prog σ X α} (uses : program.Uses allowed) :
    program.attempt.Uses allowed := by
  induction program with
  | ret value => trivial
  | raise exn => trivial
  | call op more ih => exact ⟨uses.1, fun answer => ih answer (uses.2 answer)⟩

theorem uses_mono {more : σ.Op → Prop} (implies : ∀ op, allowed op → more op)
    {program : Prog σ X α} (uses : program.Uses allowed) : program.Uses more := by
  induction program with
  | ret value => trivial
  | raise exn => trivial
  | call op next ih => exact ⟨implies op uses.1, fun answer => ih answer (uses.2 answer)⟩

/-- A program of calls that leave every state of `kept` in `kept` ends in `kept`. -/
theorem wp_of_uses {kept : S → Prop} {program : Prog σ X α} {s : S}
    (uses : program.Uses allowed) (here : kept s)
    (frame : ∀ op, allowed op → ∀ s, kept s → m.safe op s ∧
      ∀ answer after, m.step op s answer after → kept after) :
    program.wp m (fun _ after => kept after) s := by
  induction program generalizing s with
  | ret value => exact here
  | raise exn => exact here
  | call op next ih =>
    obtain ⟨safe, step⟩ := frame op uses.1 s here
    exact ⟨safe, fun answer after moved => ih answer (uses.2 answer) (step answer after moved)⟩

end Uses

/-! ### Runs, one call at a time -/

variable (m)

/-- **The small-step run** from a program and a state to what is left of both. -/
inductive Steps : Prog σ X α → S → Prog σ X α → S → Prop where
  | refl (program : Prog σ X α) (s : S) : Steps program s program s
  | call {op : σ.Op} {next : Except X (σ.Ans op) → Prog σ X α} {s : S}
      {answer : Except X (σ.Ans op)} {middle : S} {last : Prog σ X α} {after : S}
      (step : m.step op s answer middle) (rest : Steps (next answer) middle last after) :
      Steps (.call op next) s last after

variable {m}

/-- **`wp` is carried along every run.** -/
theorem wp_steps {program last : Prog σ X α} {post : Except X α → S → Prop} {s after : S}
    (run : Steps m program s last after) (holds : program.wp m post s) :
    last.wp m post after := by
  induction run with
  | refl program s => exact holds
  | call step rest ih => exact ih (holds.2 _ _ step)

/-- **A run of one machine is a run of another** that a relation ties to it, where the other one's
calls are permitted. -/
theorem related_of_steps {T : Type} {low : Machine σ X T} {rel : S → T → Prop}
    {program last : Prog σ X α} {post : Except X α → S → Prop} {s : S} {t t' : T}
    (simulates : ∀ op s t answer t', rel s t → m.safe op s → low.step op t answer t' →
      ∃ s', m.step op s answer s' ∧ rel s' t')
    (run : Steps low program t last t') (related : rel s t) (holds : program.wp m post s) :
    ∃ s', rel s' t' ∧ last.wp m post s' := by
  induction run generalizing s with
  | refl program t => exact ⟨s, related, holds⟩
  | call step rest ih =>
    obtain ⟨s', moved, related'⟩ := simulates _ _ _ _ _ related holds.1 step
    exact ih related' (holds.2 _ _ moved)

theorem Steps.trans {first second third : Prog σ X α} {s₁ s₂ s₃ : S}
    (one : Steps m first s₁ second s₂) (two : Steps m second s₂ third s₃) :
    Steps m first s₁ third s₃ := by
  induction one with
  | refl program s => exact two
  | call step rest ih => exact .call step (ih two)

/-- A run of one machine is a run of every machine that allows its steps. -/
theorem Steps.mono {other : Machine σ X S} {program last : Prog σ X α} {s after : S}
    (allowed : ∀ op s answer after, m.step op s answer after → other.step op s answer after)
    (run : Steps m program s last after) : Steps other program s last after := by
  induction run with
  | refl program s => exact .refl program s
  | call step rest ih => exact .call (allowed _ _ _ _ step) ih

/-- A call reached in a run is permitted where it is made. -/
theorem safe_of_steps {program : Prog σ X α} {op : σ.Op}
    {next : Except X (σ.Ans op) → Prog σ X α} {post : Except X α → S → Prop} {s after : S}
    (run : Steps m program s (.call op next) after) (holds : program.wp m post s) :
    m.safe op after :=
  (wp_steps run holds).1

/-! ### Deterministic evaluation -/

/-- Evaluate a program against a handler that answers every call. -/
def run (handler : (op : σ.Op) → S → Except X (σ.Ans op) × S) :
    Prog σ X α → S → Except X α × S
  | .ret value, s => (.ok value, s)
  | .raise exn, s => (.error exn, s)
  | .call op next, s => (next (handler op s).1).run handler (handler op s).2

variable {handler : (op : σ.Op) → S → Except X (σ.Ans op) × S}

@[simp] theorem run_ret (value : α) (s : S) :
    (Prog.ret value : Prog σ X α).run handler s = (.ok value, s) := rfl

@[simp] theorem run_raise (exn : X) (s : S) :
    (Prog.raise exn : Prog σ X α).run handler s = (.error exn, s) := rfl

theorem run_call (op : σ.Op) (next : Except X (σ.Ans op) → Prog σ X α) (s : S) :
    (Prog.call op next).run handler s = (next (handler op s).1).run handler (handler op s).2 := rfl

@[simp] theorem run_perform (op : σ.Op) (s : S) : (perform op).run handler s = handler op s := by
  rw [perform, run_call]
  rcases handler op s with ⟨answer, after⟩
  cases answer <;> rfl

theorem run_bind (first : Prog σ X α) (next : α → Prog σ X β) (s : S) :
    (first.bind next).run handler s =
      match first.run handler s with
      | (.ok value, after) => (next value).run handler after
      | (.error exn, after) => (.error exn, after) := by
  induction first generalizing s with
  | ret value => rfl
  | raise exn => rfl
  | call op rest ih => exact ih (handler op s).1 (handler op s).2

theorem run_attempt (program : Prog σ X α) (s : S) :
    program.attempt.run handler s =
      (.ok (program.run handler s).1, (program.run handler s).2) := by
  induction program generalizing s with
  | ret value => rfl
  | raise exn => rfl
  | call op rest ih => exact ih (handler op s).1 (handler op s).2

/-- A run against a handler whose answers the machine allows meets every `wp`. -/
theorem wp_run {program : Prog σ X α} {post : Except X α → S → Prop} {s : S}
    (allowed : ∀ op s, m.step op s (handler op s).1 (handler op s).2)
    (holds : program.wp m post s) :
    post (program.run handler s).1 (program.run handler s).2 := by
  induction program generalizing s with
  | ret value => exact holds
  | raise exn => exact holds
  | call op next ih => exact ih _ (holds.2 _ _ (allowed op s))

/-- **An evaluation meets exactly what `wp` promises for the handler's machine.** -/
theorem wp_ofHandler {program : Prog σ X α} {post : Except X α → S → Prop} {s : S} :
    program.wp (.ofHandler handler) post s ↔
      post (program.run handler s).1 (program.run handler s).2 := by
  induction program generalizing s with
  | ret value => exact Iff.rfl
  | raise exn => exact Iff.rfl
  | call op next ih =>
    constructor
    · exact fun holds => (ih _).mp (holds.2 _ _ ⟨rfl, rfl⟩)
    · intro holds
      refine ⟨trivial, ?_⟩
      rintro answer after ⟨rfl, rfl⟩
      exact (ih _).mpr holds

/-- What is left of a program once it has had its outcome. -/
def ofOutcome : Except X α → Prog σ X α
  | .ok value => .ret value
  | .error exn => .raise exn

theorem finished_ofOutcome (outcome : Except X α) : (ofOutcome outcome : Prog σ X α).Finished := by
  cases outcome <;> trivial

/-- An evaluation is one of the runs of every machine that allows its answers. -/
theorem steps_run (program : Prog σ X α) (s : S)
    (allowed : ∀ op s, m.step op s (handler op s).1 (handler op s).2) :
    Steps m program s (ofOutcome (program.run handler s).1) (program.run handler s).2 := by
  induction program generalizing s with
  | ret value => exact .refl _ _
  | raise exn => exact .refl _ _
  | call op next ih => exact .call (allowed op s) (ih _ _)

/-- Every call of an evaluation meets a condition on the state before it. -/
def runMeets (handler : (op : σ.Op) → S → Except X (σ.Ans op) × S) (meets : σ.Op → S → Bool) :
    Prog σ X α → S → Bool
  | .ret _, _ => true
  | .raise _, _ => true
  | .call op next, s =>
    meets op s && (next (handler op s).1).runMeets handler meets (handler op s).2

/-- Such an evaluation is one of the runs of every machine that allows those calls. -/
theorem steps_run_of_meets {meets : σ.Op → S → Bool} {program : Prog σ X α} {s : S}
    (allowed : ∀ op s, meets op s = true → m.step op s (handler op s).1 (handler op s).2)
    (met : program.runMeets handler meets s = true) :
    Steps m program s (ofOutcome (program.run handler s).1) (program.run handler s).2 := by
  induction program generalizing s with
  | ret value => exact .refl _ _
  | raise exn => exact .refl _ _
  | call op next ih =>
    obtain ⟨here, rest⟩ := Bool.and_eq_true_iff.mp met
    exact .call (allowed op s here) (ih _ rest)

theorem wp_run_of_meets {meets : σ.Op → S → Bool} {program : Prog σ X α}
    {post : Except X α → S → Prop} {s : S}
    (allowed : ∀ op s, meets op s = true → m.step op s (handler op s).1 (handler op s).2)
    (met : program.runMeets handler meets s = true) (holds : program.wp m post s) :
    post (program.run handler s).1 (program.run handler s).2 := by
  have ended := wp_steps (steps_run_of_meets allowed met) holds
  generalize (program.run handler s).1 = outcome at ended ⊢
  cases outcome with
  | ok value => exact ended
  | error exn => exact ended

/-- The first calls of an evaluation: what is left of the program and the state after them. -/
def runFor (handler : (op : σ.Op) → S → Except X (σ.Ans op) × S) :
    Nat → Prog σ X α → S → Prog σ X α × S
  | 0, program, s => (program, s)
  | calls + 1, program, s => match program with
    | .call op next => runFor handler calls (next (handler op s).1) (handler op s).2
    | finished => (finished, s)

/-- The first calls of an evaluation are a run. -/
theorem steps_runFor (calls : Nat) (program : Prog σ X α) (s : S)
    (allowed : ∀ op s, m.step op s (handler op s).1 (handler op s).2) :
    Steps m program s (program.runFor handler calls s).1 (program.runFor handler calls s).2 := by
  induction calls generalizing program s with
  | zero => exact .refl _ _
  | succ calls ih =>
    cases program with
    | ret value => exact .refl _ _
    | raise exn => exact .refl _ _
    | call op next => exact .call (allowed op s) (ih _ _)

end Prog

end Freshet.Lib
