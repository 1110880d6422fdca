/-
**Threads that share their calls' state, joined at the end.**

`interleave schedule threads` runs the programs of a list side by side: the schedule says which
thread makes the next call, and when it is used up the threads run to their ends one after the
other, so every interleaving of their calls is one of these. A call carries the number of its
thread. The outcomes come in the order of the threads, as a thread pool's `map` hands them out;
`collect` raises the first exception among them.

**`wp_interleave`** — the protocol rule. If every thread's text follows a protocol on a phase of
its own, and every call of every thread keeps a relation between the state and the phases, then
the relation holds at the join, with each thread's outcome as its phase says. The text of a thread
is looked at once and alone.
-/

import Freshet.Lib.Interpret
import Mathlib.Logic.Function.Basic

namespace Freshet.Lib

/-- Calls that carry the number of the thread they are made by. -/
abbrev Sig.tagged (σ : Sig) : Sig := ⟨Nat × σ.Op, fun op => σ.Ans op.2⟩

namespace Prog

variable {σ : Sig} {X α S P : Type}

/-- The calls of a program, made by one thread. -/
def tag (thread : Nat) (program : Prog σ X α) : Prog σ.tagged X α :=
  program.interpret fun op => @perform σ.tagged X (thread, op)

/-- Run threads to their ends, one after the other; `first` is the number of the first. -/
def finish (first : Nat) : List (Prog σ X α) → Prog σ.tagged X (List (Except X α))
  | [] => .ret []
  | thread :: rest => do
    let outcome ← (thread.tag first).attempt
    let outcomes ← finish (first + 1) rest
    pure (outcome :: outcomes)

/-- Run threads side by side. -/
def interleave : List Nat → List (Prog σ X α) → Prog σ.tagged X (List (Except X α))
  | [], threads => finish 0 threads
  | i :: schedule, threads => match threads[i]? with
    | some (.call op next) =>
      @call σ.tagged X _ (i, op) fun answer => interleave schedule (threads.set i (next answer))
    | _ => interleave schedule threads

/-- The values in order; the first exception is raised. -/
def collect {τ : Sig} : List (Except X α) → Prog τ X (List α)
  | [] => .ret []
  | .error exn :: _ => .raise exn
  | .ok value :: rest => do
    let values ← collect rest
    pure (value :: values)

/-- What collecting ends in: every outcome is a value, or one is the exception raised. -/
theorem wp_collect {τ : Sig} {m : Machine τ X S} {outcomes : List (Except X α)} {s : S}
    {post : Except X (List α) → S → Prop}
    (values : ∀ found, outcomes = found.map .ok → post (.ok found) s)
    (raised : ∀ exn, .error exn ∈ outcomes → post (.error exn) s) :
    (collect outcomes).wp m post s := by
  induction outcomes generalizing post with
  | nil => exact values [] rfl
  | cons outcome rest ih =>
    cases outcome with
    | error exn => exact raised exn List.mem_cons_self
    | ok value =>
      refine wp_bind.mpr (ih ?_ ?_)
      · exact fun found same => values (value :: found) (by rw [same]; rfl)
      · exact fun exn member => raised exn (List.mem_cons_of_mem _ member)

section Protocol

variable {protocol : Machine σ X P} {m : Machine σ.tagged X S} {inv : S → (Nat → P) → Prop}
  {post : Nat → Except X α → P → Prop}

/-- What is known at the join of `count` threads from `first` on: each one's outcome is as its phase
says, and all other phases stayed as they were. -/
def Joined (inv : S → (Nat → P) → Prop) (post : Nat → Except X α → P → Prop) (first count : Nat)
    (start : Nat → P) (outcome : Except X (List (Except X α))) (after : S) : Prop :=
  ∃ outcomes phases, outcome = .ok outcomes ∧ inv after phases ∧ outcomes.length = count ∧
    (∀ i o, outcomes[i]? = some o → post (first + i) o (phases (first + i))) ∧
    ∀ i, i < first ∨ first + count ≤ i → phases i = start i

/-- Each call of a thread follows the thread's protocol and keeps the relation. -/
def Follows (protocol : Machine σ X P) (m : Machine σ.tagged X S) (inv : S → (Nat → P) → Prop) :
    Prop :=
  ∀ i op s phases, inv s phases → protocol.safe op (phases i) → m.safe (i, op) s ∧
    ∀ answer after, m.step (i, op) s answer after → ∃ phase,
      protocol.step op (phases i) answer phase ∧ inv after (Function.update phases i phase)

/-- One thread runs to its end while the others stand still. -/
theorem wp_tag (follows : Follows protocol m inv) {program : Prog σ X α} {i : Nat} {s : S}
    {phases : Nat → P} {good : Except X α → P → Prop} (here : inv s phases)
    (holds : program.wp protocol good (phases i)) :
    (program.tag i).wp m (fun outcome after => ∃ phase, good outcome phase ∧
      inv after (Function.update phases i phase)) s := by
  have simulates : ∀ op phase after, inv after (Function.update phases i phase) →
      protocol.safe op phase → (@perform σ.tagged X (i, op)).wp m (fun answer last => ∃ phase',
        protocol.step op phase answer phase' ∧ inv last (Function.update phases i phase')) after := by
    intro op phase after here safe
    obtain ⟨allowed, step⟩ := follows i op after _ here (by rwa [Function.update_self])
    refine (@wp_perform σ.tagged X _ m (i, op) _ after).mpr ⟨allowed, fun answer last moved => ?_⟩
    obtain ⟨phase', protocolStep, kept⟩ := step answer last moved
    rw [Function.update_self] at protocolStep
    rw [Function.update_idem] at kept
    exact ⟨phase', protocolStep, kept⟩
  exact wp_interpret simulates (by rwa [Function.update_eq_self]) holds

theorem wp_finish (follows : Follows protocol m inv) (threads : List (Prog σ X α)) {first : Nat}
    {s : S} {phases : Nat → P} (here : inv s phases)
    (holds : ∀ (i : Nat) (thread : Prog σ X α), threads[i]? = some thread →
      thread.wp protocol (post (first + i)) (phases (first + i))) :
    (finish first threads).wp m (Joined inv post first threads.length phases) s := by
  induction threads generalizing first s phases with
  | nil => exact ⟨[], phases, rfl, here, rfl, fun i o found => (nomatch found), fun i _ => rfl⟩
  | cons thread rest ih =>
    refine wp_bind_of (fun outcome after => ∃ phase, post first outcome phase ∧
      inv after (Function.update phases first phase))
      (wp_attempt.mpr (wp_tag follows here (holds 0 thread rfl))) ?_
    rintro outcome middle ⟨phase, done, here⟩
    have others : ∀ (i : Nat) (later : Prog σ X α), rest[i]? = some later →
        later.wp protocol (post (first + 1 + i))
          (Function.update phases first phase (first + 1 + i)) := by
      intro i later found
      have apart : first + 1 + i ≠ first := by omega
      rw [Function.update_of_ne apart, Nat.add_assoc, Nat.add_comm 1 i]
      exact holds (i + 1) later found
    refine wp_bind.mpr (wp_mono ?_ (ih here others))
    rintro _ last ⟨outcomes, final, rfl, kept, count, posts, frame⟩
    -- The rest left the first thread's phase where its own run put it.
    have mine : final first = phase := by
      rw [frame first (.inl (Nat.lt_succ_self first)), Function.update_self]
    refine ⟨outcome :: outcomes, final, rfl, kept, congrArg (· + 1) count, ?_, ?_⟩
    · intro i o found
      cases i with
      | zero =>
        obtain rfl := Option.some.inj found
        rw [Nat.add_zero, mine]
        exact done
      | succ i =>
        rw [show first + (i + 1) = first + 1 + i by omega]
        exact posts i o found
    · intro i outside
      rw [List.length_cons] at outside
      rw [frame i (by omega), Function.update_of_ne (by omega)]

/-- What is known at the join of all threads. -/
def JoinedAll (inv : S → (Nat → P) → Prop) (post : Nat → Except X α → P → Prop) (count : Nat)
    (start : Nat → P) (outcome : Except X (List (Except X α))) (after : S) : Prop :=
  ∃ outcomes phases, outcome = .ok outcomes ∧ inv after phases ∧ outcomes.length = count ∧
    (∀ i o, outcomes[i]? = some o → post i o (phases i)) ∧ ∀ i, count ≤ i → phases i = start i

/-- **The protocol rule for threads.** -/
theorem wp_interleave (follows : Follows protocol m inv) (schedule : List Nat)
    {threads : List (Prog σ X α)} {s : S} {phases : Nat → P} (here : inv s phases)
    (holds : ∀ (i : Nat) (thread : Prog σ X α), threads[i]? = some thread →
      thread.wp protocol (post i) (phases i)) :
    (interleave schedule threads).wp m (JoinedAll inv post threads.length phases) s := by
  induction schedule generalizing threads s phases with
  | nil =>
    have run : (finish 0 threads).wp m (Joined inv post 0 threads.length phases) s :=
      wp_finish follows threads here fun i thread found => by
        rw [Nat.zero_add]
        exact holds i thread found
    refine wp_mono ?_ run
    rintro outcome after ⟨outcomes, final, rfl, kept, count, posts, frame⟩
    refine ⟨outcomes, final, rfl, kept, count, fun i o found => ?_, fun i outside => ?_⟩
    · simpa only [Nat.zero_add] using posts i o found
    · exact frame i (.inr (by rwa [Nat.zero_add]))
  | cons i schedule ih =>
    unfold interleave
    split
    · rename_i op next found
      obtain ⟨safe, rest⟩ := holds i _ found
      obtain ⟨allowed, step⟩ := follows i op s phases here safe
      refine ⟨allowed, fun answer after moved => ?_⟩
      obtain ⟨phase, protocolStep, kept⟩ := step answer after moved
      refine wp_mono ?_ (ih kept ?_)
      · rintro outcome last ⟨outcomes, final, same, kept, count, posts, frame⟩
        rw [List.length_set] at count frame
        refine ⟨outcomes, final, same, kept, count, posts, fun j outside => ?_⟩
        have inside : i < threads.length := (List.getElem?_eq_some_iff.mp found).1
        rw [frame j outside, Function.update_of_ne (by omega)]
      · intro j thread here
        by_cases same : j = i
        · subst same
          rw [Function.update_self]
          rw [List.getElem?_set_self (List.getElem?_eq_some_iff.mp found).1] at here
          exact Option.some.inj here ▸ rest answer phase protocolStep
        · rw [Function.update_of_ne same]
          rw [List.getElem?_set_ne (Ne.symm same)] at here
          exact holds j thread here
    · exact ih here holds

end Protocol

end Prog

end Freshet.Lib
