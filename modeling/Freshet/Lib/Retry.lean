/-
**Trying again.**

`Prog.retry` runs a body until it returns, until it raises what is not worth another try, or until no
try is left; it pauses between two tries, and hands a value from pause to pause (a delay, the number of
the try). `wp_retry` is its rule: one assertion where a try begins, one where a pause begins.
-/

import Freshet.Lib.Prog
import Mathlib.Tactic.SplitIfs

namespace Freshet.Lib.Prog

variable {σ : Sig} {X α δ S : Type}

/-- The body is run at most `left + 1` times. -/
def retry (worth : X → Bool) (pause : δ → Prog σ X Unit) (next : δ → δ) (body : Prog σ X α) :
    (left : Nat) → δ → Prog σ X α
  | 0, _ => body
  | left + 1, d => body.attempt.bind fun
    | .ok value => .ret value
    | .error exn =>
      if worth exn then (pause d).bind fun _ => retry worth pause next body left (next d)
      else .raise exn

/-- What a try has to come to: the outcome of the whole, or a failure after which there is a pause. -/
def Tries (worth : X → Bool) (paused : Nat → S → Prop) (post : Except X α → S → Prop) :
    (left : Nat) → Except X α → S → Prop
  | left + 1, .error exn, s => if worth exn then paused left s else post (.error exn) s
  | _, outcome, s => post outcome s

variable {m : Machine σ X S} {worth : X → Bool} {pause : δ → Prog σ X Unit} {next : δ → δ}
  {body : Prog σ X α} {post : Except X α → S → Prop}

/-- **The rule for trying again.** -/
theorem wp_retry (begun paused : Nat → δ → S → Prop)
    (tried : ∀ left d s, begun left d s →
      body.wp m (Tries worth (fun rest => paused rest d) post left) s)
    (waited : ∀ left d s, paused left d s → (pause d).wp m (fun outcome after => match outcome with
      | .ok _ => begun left (next d) after
      | .error exn => post (.error exn) after) s)
    {left : Nat} {d : δ} {s : S} (start : begun left d s) :
    (retry worth pause next body left d).wp m post s := by
  induction left generalizing d s with
  | zero =>
    refine wp_mono ?_ (tried 0 d s start)
    intro outcome after holds
    cases outcome <;> exact holds
  | succ left ih =>
    unfold retry
    refine wp_bind.mpr (wp_attempt.mpr (wp_mono ?_ (tried (left + 1) d s start)))
    intro outcome after holds
    cases outcome with
    | ok value => exact holds
    | error exn =>
      have holds' : if worth exn then paused left d after else post (.error exn) after := holds
      show (if worth exn then (pause d).bind fun _ => retry worth pause next body left (next d)
        else .raise exn : Prog σ X α).wp m post after
      split_ifs at holds' ⊢ with again
      · refine wp_bind.mpr (wp_mono ?_ (waited left d after holds'))
        intro outcome last begins
        cases outcome with
        | ok _ => exact ih begins
        | error exn => exact begins
      · exact holds'

end Freshet.Lib.Prog
