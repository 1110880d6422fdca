/-
**Processes that are killed and started again.**

A process runs one of its programs until it ends or is killed between two calls; then another life
starts, from the state the last one left. What does not survive the process is reset by the first
calls of its program. `kept_of_restarts` turns a `wp` of every program, with an assertion that each
call demands, into a property of every state that any number of lives can reach.
-/

import Freshet.Lib.Interpret

namespace Freshet.Lib

variable {σ : Sig} {X α S : Type}

/-- Any number of lives: each is a prefix of a run of one of the programs. -/
inductive Restarts (m : Machine σ X S) (programs : Prog σ X α → Prop) (first : S) :
    S → Prop where
  | never : Restarts m programs first first
  | again {s last : S} {program rest : Prog σ X α} (before : Restarts m programs first s)
      (taken : programs program) (life : Prog.Steps m program s rest last) :
      Restarts m programs first last

variable {m : Machine σ X S} {programs : Prog σ X α → Prop}

/-- **The invariant rule for restarts.** -/
theorem kept_of_restarts {kept : S → Prop} {post : Except X α → S → Prop} {first last : S}
    (lives : Restarts m programs first last) (init : kept first)
    (spec : ∀ program, programs program → ∀ s, kept s → program.wp m post s)
    (demanded : ∀ op s, m.safe op s → kept s) (ends : ∀ outcome s, post outcome s → kept s) :
    kept last := by
  induction lives with
  | never => exact init
  | again before taken life ih =>
    exact Prog.kept_of_steps demanded ends (spec _ taken _ ih) life

end Freshet.Lib
