/-
**`produce_sync`**: one message, and the wait for its report.

Its list of errors is new and belongs to the one call, so it is emptied first. A call that returns
has added its message to those sent, and the message is acknowledged.
-/

import Freshet.Kafka.BufferedProducer

namespace Freshet.Kafka

open Freshet.Lib BufferedProducer

/-- `produce_sync`. -/
def produceSync (topic value : String) (key : Option String := none) : Prog clientSig Exn Unit := do
  client .clearErrors
  client (.produce ⟨topic, value, key⟩)
  client .flush
  match ← client .errors with
  | [] => pure ()
  | err :: _ => .raise (.runtimeError ("produce to " ++ topic ++ " failed: " ++ err))

/-- A message is outstanding or acknowledged, unless an error is kept. -/
def Producer.Traced (delivery : Delivery) (p : Producer) : Prop :=
  delivery ∈ p.outstanding ∨ delivery ∈ p.acked ∨ p.errors ≠ []

theorem Producer.Serves.traced {delivery : Delivery} {p last : Producer} (served : Serves p last)
    (traced : p.Traced delivery) : last.Traced delivery := by
  induction served with
  | done p => exact traced
  | @acked p last other due rest ih =>
    refine ih ?_
    by_cases same : delivery = other
    · exact Or.inr (Or.inl (same ▸ List.mem_cons_self))
    · rcases traced with waits | acked | failed
      · exact Or.inl ((List.mem_erase_of_ne same).mpr waits)
      · exact Or.inr (Or.inl (List.mem_cons_of_mem _ acked))
      · exact Or.inr (Or.inr failed)
  | @failed p last other err due rest ih =>
    refine ih (Or.inr (Or.inr ?_))
    simp [Producer.reportError]

/-- One more message has been sent than before, and it is acknowledged. -/
def Synced (record : Record) (before after : Producer) : Prop :=
  after.sent = (before.sent.length, record) :: before.sent ∧
    (before.sent.length, record) ∈ after.acked

/-- **A call that returns has produced its message and had it acknowledged.** -/
theorem produceSync_spec (topic value : String) (key : Option String) (p : Producer) :
    (produceSync topic value key).wp clientMachine
      (Prog.Ends (fun _ => True) fun _ after => Synced ⟨topic, value, key⟩ p after) p := by
  refine ⟨trivial, ?_⟩
  rintro answer cleared ⟨rfl, rfl⟩
  refine ⟨trivial, ?_⟩
  intro answer taken moved
  cases answer with
  | error exn => trivial
  | ok value' =>
    obtain rfl := moved.resolve_right fun raised => raised.1 rfl
    refine ⟨trivial, ?_⟩
    rintro answer flushed ⟨served, waited⟩
    cases answer with
    | error exn => trivial
    | ok value'' =>
      refine ⟨trivial, ?_⟩
      rintro errors same ⟨rfl, rfl⟩
      cases clean : same.errors with
      | cons err more => trivial
      | nil =>
        refine ⟨served.sent_eq, ?_⟩
        have waits : Producer.Traced (p.sent.length, ⟨topic, value, key⟩)
            (Producer.enqueue ⟨topic, value, key⟩ { p with errors := [] }) :=
          Or.inl (List.mem_append_right _ (List.mem_singleton_self _))
        rcases served.traced waits with waits | acked | failed
        · rw [waited rfl] at waits
          exact absurd waits List.not_mem_nil
        · exact acked
        · exact absurd clean failed

end Freshet.Kafka
