/-
**In which order the consume loop delivers.**

The handler is called with the message polled last and never polled before, when every other message
polled has been handled; an offset is committed, and the next message polled, when all of them have
(`InTurn`). A handler that is put in the loop's place may rely on it (`consumeLoop_inTurn`).
-/

import Freshet.Kafka.ConsumeLoop

namespace Freshet.Kafka

open Freshet.Lib

/-- The messages polled are those handled. -/
def AllHandled (log : List Entry) : Prop := ∀ m, .polled m ∈ log ↔ .handled m ∈ log

/-- **What holds where a call is made.** -/
def InTurn : loopSig.Op → List Entry → Prop
  | .inl .poll, log => AllHandled log
  | .inl (.commit m), log => AllHandled log ∧ .polled m ∈ log
  | .inr (.handler m value), log => m.value = some value ∧ ∃ older, log = .polled m :: older ∧
      AllHandled older ∧ .polled m ∉ older
  | _, _ => True

def turnMachine : Machine loopSig Exn (List Entry) where
  safe := InTurn
  step := loopStep

/-- Between two turns. -/
structure CaughtUp (locals : Locals) (log : List Entry) : Prop where
  handled : AllHandled log
  pending : ∀ key m, (key, m) ∈ locals.pending → .polled m ∈ log

/-- An entry about no message that is polled or handled changes nothing. -/
theorem AllHandled.cons {log : List Entry} {entry : Entry} (handled : AllHandled log)
    (other : ∀ m, entry ≠ .polled m ∧ entry ≠ .handled m) : AllHandled (entry :: log) := by
  intro m
  rw [List.mem_cons, List.mem_cons, handled m]
  constructor
  · rintro (same | inside)
    · exact absurd same.symm (other m).1
    · exact Or.inr inside
  · rintro (same | inside)
    · exact absurd same.symm (other m).2
    · exact Or.inr inside

theorem CaughtUp.cons {locals : Locals} {log : List Entry} {entry : Entry}
    (caught : CaughtUp locals log) (other : ∀ m, entry ≠ .polled m ∧ entry ≠ .handled m) :
    CaughtUp locals (entry :: log) :=
  ⟨caught.handled.cons other, fun key m member =>
    List.mem_cons_of_mem _ (caught.pending key m member)⟩

section Specs

variable {config : LoopConfig} {log : List Entry} {locals : Locals}

/-- After an exception the loop polls, handles and commits no more. -/
abbrev Ends {α : Type} (good : α → List Entry → Prop) : Except Exn α → List Entry → Prop :=
  Prog.Ends (fun _ => True) good

/-- A call that is no poll and no commit. -/
theorem turn_plain {op : ConsumerOp} (noPoll : op ≠ .poll) (noCommit : ∀ m, op ≠ .commit m)
    {good : op.Ans → List Entry → Prop} (holds : ∀ answer, good answer log) :
    (consumer op).wp turnMachine (Ends good) log := by
  have safe : InTurn (.inl op) log ∧ ∀ answer after, loopStep (.inl op) log answer after →
      after = log := by
    cases op with
    | poll => exact absurd rfl noPoll
    | commit m => exact absurd rfl (noCommit m)
    | makeConsumer => exact ⟨trivial, fun _ _ step => step⟩
    | stopIsSet => exact ⟨trivial, fun _ _ step => step⟩
    | monotonic => exact ⟨trivial, fun _ _ step => step⟩
    | close => exact ⟨trivial, fun _ _ step => step⟩
  refine (@Prog.wp_perform loopSig Exn _ turnMachine (.inl op) _ log).mpr ⟨safe.1, ?_⟩
  intro answer after step
  obtain rfl := safe.2 answer after step
  cases answer with
  | ok value => exact holds value
  | error exn => trivial

/-- A callback adds its entry, or a failure. -/
theorem turn_callback {op : CallbackOp} (safe : InTurn (.inr op) log)
    {good : Unit → List Entry → Prop} (holds : good () (op.entry :: log)) :
    (callback op).wp turnMachine (Ends good) log := by
  refine (@Prog.wp_perform loopSig Exn _ turnMachine (.inr op) _ log).mpr ⟨safe, ?_⟩
  rintro answer after rfl
  cases answer with
  | ok value => exact holds
  | error exn => trivial

/-- A callback that is not the handler, if it is there. -/
theorem turn_optional {given : Bool} {op : CallbackOp} (noHandler : ∀ m value, op ≠ .handler m value)
    (caught : CaughtUp locals log) :
    (ConsumeLoop.optional given op).wp turnMachine (Ends fun _ => CaughtUp locals) log := by
  have other : InTurn (.inr op) log ∧ ∀ m, op.entry ≠ .polled m ∧ op.entry ≠ .handled m := by
    cases op with
    | handler m value => exact absurd rfl (noHandler m value)
    | afterHandler => exact ⟨trivial, fun m => ⟨Entry.noConfusion, Entry.noConfusion⟩⟩
    | preCommit => exact ⟨trivial, fun m => ⟨Entry.noConfusion, Entry.noConfusion⟩⟩
    | idleHook => exact ⟨trivial, fun m => ⟨Entry.noConfusion, Entry.noConfusion⟩⟩
  cases given with
  | false => exact caught
  | true => exact turn_callback other.1 (caught.cons other.2)

theorem turn_commitEach {messages : List Message} (handled : AllHandled log)
    (polled : ∀ m ∈ messages, .polled m ∈ log) :
    (ConsumeLoop.commitEach messages).wp turnMachine (Ends fun _ => AllHandled) log := by
  induction messages generalizing log with
  | nil => exact handled
  | cons m rest ih =>
    obtain ⟨first, later⟩ := List.forall_mem_cons.mp polled
    refine Prog.wp_seq (fun _ after => after = .committed m :: log)
      ((@Prog.wp_perform loopSig Exn _ turnMachine (.inl (.commit m)) _ log).mpr
        ⟨⟨handled, first⟩, ?_⟩) ?_
    · intro answer after step
      cases answer with
      | error exn => trivial
      | ok value => exact step.resolve_right fun failed => failed.1 rfl
    · rintro value after rfl
      exact ih (handled.cons fun _ => ⟨by simp, by simp⟩)
        fun other member => List.mem_cons_of_mem _ (later other member)

theorem turn_commitPending (caught : CaughtUp locals log) :
    (ConsumeLoop.commitPending config locals).wp turnMachine (Ends CaughtUp) log := by
  unfold ConsumeLoop.commitPending
  split
  · exact caught
  · refine Prog.wp_seq _ (turn_optional (by simp) caught) ?_
    intro _ log caught
    have polled : ∀ m ∈ locals.pending.values, .polled m ∈ log := by
      intro m member
      obtain ⟨⟨key, other⟩, inside, rfl⟩ := List.mem_map.mp member
      exact caught.pending key other inside
    refine Prog.wp_seq _ (turn_commitEach caught.handled polled) ?_
    exact fun _ log handled => ⟨handled, fun key m member => absurd member List.not_mem_nil⟩

theorem turn_commitManual (caught : CaughtUp locals log) :
    (ConsumeLoop.commitManual config locals).wp turnMachine (Ends CaughtUp) log := by
  unfold ConsumeLoop.commitManual
  split
  · exact caught
  · exact turn_commitPending caught

/-- How a turn may end. -/
def TurnsUp : Turn → List Entry → Prop
  | .more locals, log => CaughtUp locals log
  | .stopped locals, log => CaughtUp locals log

theorem turn_idle (caught : CaughtUp locals log) :
    (ConsumeLoop.idle config locals).wp turnMachine (Ends TurnsUp) log := by
  refine Prog.wp_seq _ (turn_commitManual caught) ?_
  intro locals log caught
  refine Prog.wp_seq _ (turn_optional (by simp) caught) ?_
  intro _ log caught
  cases config.idleTimeout with
  | none => exact caught
  | some timeout =>
    refine Prog.wp_seq (fun _ after => CaughtUp locals after)
      (turn_plain (by simp) (by simp) fun _ => caught) ?_
    intro now log caught
    split <;> exact caught

/-- **A message just polled is handled.** -/
theorem turn_deliver {m : Message} (caught : CaughtUp locals log) (new : .polled m ∉ log) :
    (ConsumeLoop.deliver config locals m).wp turnMachine (Ends TurnsUp) (.polled m :: log) := by
  refine Prog.wp_seq (fun _ after => after = .polled m :: log)
    (turn_plain (by simp) (by simp) fun _ => rfl) ?_
  rintro now after rfl
  cases decoded : m.value with
  | none => trivial
  | some value =>
    have safe : InTurn (.inr (.handler m value)) (.polled m :: log) :=
      ⟨decoded, log, rfl, caught.handled, new⟩
    refine Prog.wp_seq (fun _ after => after = .handled m :: .polled m :: log)
      (turn_callback safe rfl) ?_
    rintro _ after rfl
    have handled : AllHandled (.handled m :: .polled m :: log) := by
      intro other
      have before := caught.handled other
      simp [before]
    -- the message is pending or will be, beside those that were
    have caught' : CaughtUp { locals with pending := (m.source, m) :: locals.pending }
        (.handled m :: .polled m :: log) := by
      refine ⟨handled, fun key x member => ?_⟩
      rcases List.mem_cons.mp member with new | old
      · obtain ⟨-, rfl⟩ := Prod.mk.inj new
        exact List.mem_cons_of_mem _ List.mem_cons_self
      · exact List.mem_cons_of_mem _ (List.mem_cons_of_mem _ (caught.pending key x old))
    refine Prog.wp_seq _ (turn_optional (by simp) caught') ?_
    rintro _ after caught
    have held : ∀ key x, (key, x) ∈ locals.pending.set m.source m → .polled x ∈ after := by
      intro key x member
      rcases Dict.mem_set member with ⟨rfl, rfl⟩ | old
      · exact caught.pending _ _ List.mem_cons_self
      · exact caught.pending key x (List.mem_cons_of_mem _ old)
    refine Prog.wp_seq CaughtUp ?_ fun locals log caught => ⟨caught.handled, caught.pending⟩
    unfold ConsumeLoop.account
    split
    · exact ⟨caught.handled, fun key x old => caught.pending key x (List.mem_cons_of_mem _ old)⟩
    · dsimp only
      split
      · exact turn_commitPending ⟨caught.handled, held⟩
      · exact ⟨caught.handled, held⟩

/-- What a poll adds, by what it hands out. -/
def PolledNew (log : List Entry) : Polled → List Entry → Prop
  | .message m, after => after = .polled m :: log ∧ .polled m ∉ log
  | _, after => after = log

theorem turn_pollOnce (caught : CaughtUp locals log) :
    (ConsumeLoop.pollOnce config locals).wp turnMachine (Ends TurnsUp) log := by
  refine Prog.wp_seq (PolledNew log) ((@Prog.wp_perform loopSig Exn _ turnMachine (.inl .poll) _ log).mpr
      ⟨caught.handled, ?_⟩) ?_
  · intro answer after step
    cases answer with
    | error exn => trivial
    | ok polled =>
      cases polled with
      | nothing => exact step
      | error text => exact step
      | message m =>
        exact ⟨step.1, fun before => absurd (step.2 m before rfl) (Int.lt_irrefl _)⟩
  · intro polled after step
    cases polled with
    | nothing => exact step ▸ turn_idle caught
    | error text => exact step ▸ caught
    | message m => exact step.1 ▸ turn_deliver caught step.2

/-- **The step lemma**: one turn of the loop. -/
theorem turn_turn (caught : CaughtUp locals log) :
    (ConsumeLoop.turn config locals).wp turnMachine (Ends TurnsUp) log := by
  unfold ConsumeLoop.turn
  split
  · refine Prog.wp_seq (fun _ after => after = log)
      (turn_plain (by simp) (by simp) fun _ => rfl) ?_
    rintro stop after rfl
    cases stop with
    | true => exact caught
    | false => exact turn_pollOnce caught
  · exact turn_pollOnce caught

/-- How the loop may end. -/
def LoopUp : Option Locals → List Entry → Prop
  | some locals, log => CaughtUp locals log
  | none, _ => True

theorem turn_turns (fuel : Nat) (caught : CaughtUp locals log) :
    (ConsumeLoop.turns config fuel locals).wp turnMachine (Ends LoopUp) log := by
  induction fuel generalizing locals log with
  | zero => trivial
  | succ fuel ih =>
    unfold ConsumeLoop.turns
    split
    · refine Prog.wp_seq _ (turn_turn caught) ?_
      intro turn log ends
      cases turn with
      | more locals => exact ih ends
      | stopped locals => exact ends
    · exact caught

theorem turn_body (fuel : Nat) (caught : CaughtUp locals log) :
    (ConsumeLoop.body config fuel locals).wp turnMachine (Ends fun _ _ => True) log := by
  refine Prog.wp_seq _ (turn_turns fuel caught) ?_
  intro left log ends
  cases left with
  | none => trivial
  | some locals => exact Prog.wp_seq _ (turn_commitManual ends) fun _ _ _ => trivial

/-- **The whole loop makes its calls in turn.** -/
theorem consumeLoop_inTurn (config : LoopConfig) (fuel : Nat) :
    (consumeLoop config fuel).wp turnMachine (Ends fun _ _ => True) [] := by
  refine Prog.wp_seq (fun _ after => after = [])
    (turn_plain (by simp) (by simp) fun _ => rfl) ?_
  rintro _ after rfl
  refine Prog.wp_seq (fun _ after => after = [])
    (turn_plain (by simp) (by simp) fun _ => rfl) ?_
  rintro lastMsg after rfl
  have start : CaughtUp { lastMsg } [] := by
    refine ⟨fun m => ⟨fun member => ?_, fun member => ?_⟩, fun key m member => ?_⟩
    · exact absurd member List.not_mem_nil
    · exact absurd member List.not_mem_nil
    · exact absurd member List.not_mem_nil
  refine Prog.wp_seq (fun _ _ => True)
    (Prog.wp_try (Prog.wp_mono (fun _ _ _ => trivial) (turn_body fuel start))) ?_
  intro outcome log _
  have close : ∀ {α : Type} (last : Consuming α), (∀ log,
      last.wp turnMachine (Ends fun _ _ => True) log) →
      ((consumer .close).bind fun _ => last).wp turnMachine (Ends fun _ _ => True) log :=
    fun last rest => Prog.wp_seq (fun _ _ => True)
      (turn_plain (by simp) (by simp) fun _ => trivial) fun _ log _ => rest log
  rcases outcome with exn | left
  · exact close _ fun _ => trivial
  · cases left with
    | none => trivial
    | some n => exact close _ fun _ => trivial

end Specs

end Freshet.Kafka
