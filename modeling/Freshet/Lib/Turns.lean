/-
**Programs run one after the other, beside surroundings that move on their own.**

A step is a call of the program under way, a move of the surroundings, or, once a program has ended,
the start of another. `Machine.within` lets the surroundings move before every answer, so the text of
a program is looked at once and alone; `wp_of_turns` makes of that a fact about every state reached,
and `along_of_turns` one about every two states of which one is reached from the other.
-/

import Freshet.Lib.Interpret

namespace Freshet.Lib

variable {σ : Sig} {X α S : Type}

/-- A machine whose surroundings may move before each answer. -/
def Machine.within (m : Machine σ X S) (moves : S → S → Prop) : Machine σ X S where
  safe := m.safe
  step op s answer after := ∃ middle, Relation.ReflTransGen moves s middle ∧
    m.step op middle answer after

/-- **One step** of the program under way, of its surroundings, or from one program to the next. -/
inductive Turn (m : Machine σ X S) (moves : S → S → Prop) (programs : Prog σ X α → Prop) :
    Prog σ X α × S → Prog σ X α × S → Prop where
  | call {op : σ.Op} {next : Except X (σ.Ans op) → Prog σ X α} {s after : S}
      {answer : Except X (σ.Ans op)} (step : m.step op s answer after) :
      Turn m moves programs (.call op next, s) (next answer, after)
  | move {program : Prog σ X α} {s after : S} (moved : moves s after) :
      Turn m moves programs (program, s) (program, after)
  | again {program next : Prog σ X α} {s : S} (ended : program.Finished) (taken : programs next) :
      Turn m moves programs (program, s) (next, s)

/-- Any number of steps. -/
abbrev Turns (m : Machine σ X S) (moves : S → S → Prop) (programs : Prog σ X α → Prop) :
    Prog σ X α × S → Prog σ X α × S → Prop :=
  Relation.ReflTransGen (Turn m moves programs)

/-- What holds whatever the surroundings do. -/
def Stable (moves : S → S → Prop) (kept : S → Prop) : Prop :=
  ∀ s after, moves s after → kept s → kept after

namespace Stable

variable {moves : S → S → Prop} {kept : S → Prop}

theorem many {s after : S} (stable : Stable moves kept)
    (moved : Relation.ReflTransGen moves s after) (here : kept s) : kept after := by
  induction moved with
  | refl => exact here
  | tail _ last ih => exact stable _ _ last ih

end Stable

variable {m : Machine σ X S} {moves : S → S → Prop} {programs : Prog σ X α → Prop}
  {good : S → Prop}

/-- The rule for one call: the surroundings move first. -/
theorem Prog.wp_perform_within {op : σ.Op} {post : Except X (σ.Ans op) → S → Prop} {s : S}
    (kept : S → Prop) (stable : Stable moves kept) (here : kept s) (safe : m.safe op s)
    (step : ∀ middle answer after, kept middle → m.step op middle answer after →
      post answer after) : (Prog.perform op).wp (m.within moves) post s := by
  refine Prog.wp_perform.mpr ⟨safe, ?_⟩
  rintro answer after ⟨middle, moved, stepped⟩
  exact step middle answer after (stable.many moved here) stepped

/-- What is promised of a program stays promised while the surroundings move. -/
theorem Prog.wp_of_move (safe : ∀ op, Stable moves (m.safe op)) (stable : Stable moves good)
    {program : Prog σ X α} {s after : S} (moved : moves s after)
    (holds : program.wp (m.within moves) (fun _ => good) s) :
    program.wp (m.within moves) (fun _ => good) after := by
  cases program with
  | ret value => exact stable s after moved holds
  | raise exn => exact stable s after moved holds
  | call op next =>
    refine ⟨safe op s after moved holds.1, ?_⟩
    rintro answer last ⟨middle, more, stepped⟩
    exact holds.2 answer last ⟨middle, .head moved more, stepped⟩

/-- **What is promised of every program is promised of the one under way, wherever the steps have
got to.** -/
theorem wp_of_turns (safe : ∀ op, Stable moves (m.safe op)) (stable : Stable moves good)
    (spec : ∀ program, programs program → ∀ s, good s →
      program.wp (m.within moves) (fun _ => good) s)
    {first last : Prog σ X α × S} (turns : Turns m moves programs first last)
    (holds : first.1.wp (m.within moves) (fun _ => good) first.2) :
    last.1.wp (m.within moves) (fun _ => good) last.2 := by
  induction turns with
  | refl => exact holds
  | tail _ turn ih =>
    cases turn with
    | call step => exact ih.2 _ _ ⟨_, .refl, step⟩
    | move moved => exact Prog.wp_of_move safe stable moved ih
    | @again program next s ended taken =>
      have here : good s := by
        cases program with
        | ret value => exact ih
        | raise exn => exact ih
        | call op next => exact ended.elim
      exact spec next taken s here

/-- **What every permitted call and every move of the surroundings keeps, the steps keep.** -/
theorem along_of_turns {along : S → S → Prop} (refl : ∀ s, along s s)
    (trans : ∀ {s middle after}, along s middle → along middle after → along s after)
    (calls : ∀ op s answer after, m.safe op s → m.step op s answer after → along s after)
    (around : ∀ s after, moves s after → along s after)
    (safe : ∀ op, Stable moves (m.safe op)) (stable : Stable moves good)
    (spec : ∀ program, programs program → ∀ s, good s →
      program.wp (m.within moves) (fun _ => good) s)
    {first last : Prog σ X α × S} (turns : Turns m moves programs first last)
    (holds : first.1.wp (m.within moves) (fun _ => good) first.2) : along first.2 last.2 := by
  induction turns with
  | refl => exact refl _
  | tail before turn ih =>
    have here := wp_of_turns safe stable spec before holds
    cases turn with
    | call step => exact trans ih (calls _ _ _ _ here.1 step)
    | move moved => exact trans ih (around _ _ moved)
    | again ended taken => exact ih

/-- A run of a program is such a sequence of steps. -/
theorem turns_of_steps {program last : Prog σ X α} {s after : S}
    (run : Prog.Steps m program s last after) :
    Turns m moves programs (program, s) (last, after) := by
  induction run with
  | refl program s => exact .refl
  | call step rest ih => exact .head (.call step) ih

end Freshet.Lib
