/-
**The buffering producer** of `kafka_io`: `produce` enqueues and serves what has been reported so
far, `flush_checked` waits for every report and raises if one failed.

The Kafka client is not part of the repository. Its state is what its documentation promises:
a message produced stays outstanding until its delivery report is served, reports are served only
inside `poll` and `flush`, and a `flush` that returns has served them all. The callback of every
report is `BufferedProducer._cb`, which keeps the errors.
-/

import Freshet.Lib.Interpret

namespace Freshet.Kafka

open Freshet.Lib

/-- Exceptions, as far as their handlers tell them apart: `RetryAfter` carries its seconds. -/
inductive Exn
  | runtimeError (message : String)
  | retryAfter (seconds : Rat)
  | exception (message : String)
deriving DecidableEq, Repr

/-- What is produced: the arguments of `produce`. -/
structure Record where
  topic : String
  value : String
  key : Option String
deriving DecidableEq, Repr

/-- One produced message: its number on this producer and the record. -/
abbrev Delivery := Nat × Record

/-- A producer. `sent` and `acked` are history; `errors` is `BufferedProducer._errors`. -/
structure Producer where
  sent : List Delivery := []
  outstanding : List Delivery := []
  acked : List Delivery := []
  errors : List String := []
deriving DecidableEq, Repr

namespace Producer

/-- The client takes a message. -/
def enqueue (record : Record) (p : Producer) : Producer :=
  { p with sent := (p.sent.length, record) :: p.sent,
           outstanding := p.outstanding ++ [(p.sent.length, record)] }

/-- `_cb(None, msg)`: the broker has acknowledged a message. -/
def report (delivery : Delivery) (p : Producer) : Producer :=
  { p with outstanding := p.outstanding.erase delivery, acked := delivery :: p.acked }

/-- `_cb(err, msg)`: a message could not be delivered. -/
def reportError (delivery : Delivery) (err : String) (p : Producer) : Producer :=
  { p with outstanding := p.outstanding.erase delivery, errors := p.errors ++ [err] }

/-- Serving any number of the delivery reports that are due, in any order. -/
inductive Serves : Producer → Producer → Prop where
  | done (p : Producer) : Serves p p
  | acked {p last : Producer} {delivery : Delivery} (due : delivery ∈ p.outstanding)
      (rest : Serves (p.report delivery) last) : Serves p last
  | failed {p last : Producer} {delivery : Delivery} {err : String}
      (due : delivery ∈ p.outstanding) (rest : Serves (p.reportError delivery err) last) :
      Serves p last

/-- **Every message produced is outstanding or acknowledged, unless an error is kept.** -/
def Accounted (p : Producer) : Prop :=
  ∀ delivery ∈ p.sent, delivery ∈ p.outstanding ∨ delivery ∈ p.acked ∨ p.errors ≠ []

/-- Every message produced has been acknowledged. -/
def AllAcked (p : Producer) : Prop := ∀ delivery ∈ p.sent, delivery ∈ p.acked

theorem accounted_new : Accounted {} := fun _ member => (nomatch member)

theorem accounted_enqueue {p : Producer} (record : Record) (kept : p.Accounted) :
    (p.enqueue record).Accounted := by
  intro delivery member
  rcases List.mem_cons.mp member with rfl | member
  · exact .inl (List.mem_append_right _ List.mem_cons_self)
  · rcases kept delivery member with waits | done
    · exact .inl (List.mem_append_left _ waits)
    · exact .inr done

theorem accounted_report {p : Producer} (delivery : Delivery) (kept : p.Accounted) :
    (p.report delivery).Accounted := by
  intro other member
  by_cases same : other = delivery
  · exact .inr (.inl (same ▸ List.mem_cons_self))
  · rcases kept other member with waits | acked | failed
    · exact .inl ((List.mem_erase_of_ne same).mpr waits)
    · exact .inr (.inl (List.mem_cons_of_mem _ acked))
    · exact .inr (.inr failed)

theorem accounted_reportError {p : Producer} (delivery : Delivery) (err : String) :
    (p.reportError delivery err).Accounted :=
  fun _ _ => .inr (.inr (by simp [reportError]))

theorem Serves.accounted {p last : Producer} (served : Serves p last) (kept : p.Accounted) :
    last.Accounted := by
  induction served with
  | done p => exact kept
  | acked due rest ih => exact ih (accounted_report _ kept)
  | failed due rest ih => exact ih (accounted_reportError _ _)

/-- Serving reports produces nothing. -/
theorem Serves.sent_eq {p last : Producer} (served : Serves p last) : last.sent = p.sent := by
  induction served with
  | done p => rfl
  | acked due rest ih => exact ih
  | failed due rest ih => exact ih

/-- Serving reports takes no acknowledgement back. -/
theorem Serves.acked_subset {p last : Producer} (served : Serves p last) :
    p.acked ⊆ last.acked := by
  induction served with
  | done p => exact List.Subset.refl _
  | acked due rest ih => exact List.Subset.trans (List.subset_cons_self _ _) ih
  | failed due rest ih => exact ih

/-- **With nothing outstanding and no error kept, everything produced is acknowledged.** -/
theorem Accounted.allAcked {p : Producer} (kept : p.Accounted) (flushed : p.outstanding = [])
    (clean : p.errors = []) : p.AllAcked := by
  intro delivery member
  rcases kept delivery member with waits | acked | failed
  · rw [flushed] at waits; exact (nomatch waits)
  · exact acked
  · exact absurd clean failed

end Producer

/-! ### The methods -/

/-- What the methods call: the client, and the object's own list of errors. -/
inductive ClientOp
  | produce (record : Record)
  | poll
  | flush
  | errors
  | clearErrors
deriving DecidableEq, Repr

abbrev ClientOp.Ans : ClientOp → Type
  | errors => List String
  | _ => Unit

abbrev clientSig : Sig := ⟨ClientOp, ClientOp.Ans⟩

namespace BufferedProducer

abbrev client (op : ClientOp) : Prog clientSig Exn op.Ans := @Prog.perform clientSig Exn op

/-- `BufferedProducer.produce`. -/
def produce (record : Record) : Prog clientSig Exn Unit := do
  client (.produce record)
  client .poll

/-- `BufferedProducer.flush_checked`. -/
def flushChecked : Prog clientSig Exn Unit := do
  client .flush
  match ← client .errors with
  | [] => pure ()
  | err :: _ => do
    client .clearErrors
    .raise (.runtimeError ("batched produce failed: " ++ err))

end BufferedProducer

/-- **The client's behaviour.** A `produce` that raises may or may not have taken the message, a
`poll` or `flush` that raises may have served any reports. -/
def clientStep : (op : ClientOp) → Producer → Except Exn op.Ans → Producer → Prop
  | .produce record, p, answer, after =>
    after = p.enqueue record ∨ (answer ≠ .ok () ∧ after = p)
  | .poll, p, _, after => p.Serves after
  | .flush, p, answer, after => p.Serves after ∧ (answer = .ok () → after.outstanding = [])
  | .errors, p, answer, after => answer = .ok p.errors ∧ after = p
  | .clearErrors, p, answer, after => answer = .ok () ∧ after = { p with errors := [] }

def clientMachine : Machine clientSig Exn Producer where
  safe _ _ := True
  step := clientStep

/-- The calls that `produce` makes. -/
def IsProducing : ClientOp → Prop
  | .produce _ => True
  | .poll => True
  | _ => False

theorem uses_produce (record : Record) : (BufferedProducer.produce record).Uses IsProducing :=
  Prog.uses_bind (@Prog.uses_perform clientSig Exn _ (.produce record) trivial) fun _ =>
    @Prog.uses_perform clientSig Exn _ .poll trivial

/-- **Producing loses track of nothing.** -/
theorem accounted_of_producing {op : ClientOp} (producing : IsProducing op) {p after : Producer}
    {answer : Except Exn op.Ans} (step : clientStep op p answer after) (kept : p.Accounted) :
    after.Accounted := by
  cases op with
  | produce record =>
    rcases step with rfl | ⟨-, rfl⟩
    · exact Producer.accounted_enqueue record kept
    · exact kept
  | poll => exact Producer.Serves.accounted step kept
  | flush => exact producing.elim
  | errors => exact producing.elim
  | clearErrors => exact producing.elim

/-- The messages produced and those acknowledged only grow. -/
theorem clientStep_grows {op : ClientOp} {p after : Producer} {answer : Except Exn op.Ans}
    (step : clientStep op p answer after) : p.sent ⊆ after.sent ∧ p.acked ⊆ after.acked := by
  cases op with
  | produce record =>
    rcases step with rfl | ⟨-, rfl⟩
    · exact ⟨List.subset_cons_self _ _, List.Subset.refl _⟩
    · exact ⟨List.Subset.refl _, List.Subset.refl _⟩
  | poll =>
    exact ⟨(Producer.Serves.sent_eq step) ▸ List.Subset.refl _, Producer.Serves.acked_subset step⟩
  | flush =>
    exact ⟨(Producer.Serves.sent_eq step.1) ▸ List.Subset.refl _,
      Producer.Serves.acked_subset step.1⟩
  | errors => rw [step.2]; exact ⟨List.Subset.refl _, List.Subset.refl _⟩
  | clearErrors => rw [step.2]; exact ⟨List.Subset.refl _, List.Subset.refl _⟩

/-- A `produce` that returns has taken the record. -/
theorem produce_spec (record : Record) {p : Producer} (kept : p.Accounted) :
    (BufferedProducer.produce record).wp clientMachine (Prog.Ends (fun _ => True) fun _ after =>
      after.Accounted ∧ p.sent ⊆ after.sent ∧ ∃ delivery ∈ after.sent, delivery.2 = record) p := by
  refine ⟨trivial, ?_⟩
  intro answer taken moved
  cases answer with
  | error exn => trivial
  | ok value =>
    obtain rfl := moved.resolve_right fun raised => raised.1 rfl
    refine ⟨trivial, ?_⟩
    intro answer served moved
    cases answer with
    | error exn => trivial
    | ok value =>
      refine ⟨Producer.Serves.accounted moved (Producer.accounted_enqueue record kept), ?_⟩
      rw [Producer.Serves.sent_eq moved]
      exact ⟨List.subset_cons_self _ _, _, List.mem_cons_self, rfl⟩

/-- What `flush_checked` promises to a caller that comes to it with `before`. -/
def Flushed (before : Producer) : Except Exn Unit → Producer → Prop
  | .ok _, after => after.sent = before.sent ∧
      (before.Accounted → after.Accounted ∧ after.AllAcked)
  | .error _, after => after.sent = before.sent

/-- **A checked flush that returns leaves every message produced acknowledged.** -/
theorem flushChecked_spec (p : Producer) :
    BufferedProducer.flushChecked.wp clientMachine (Flushed p) p := by
  refine ⟨trivial, ?_⟩
  rintro answer flushed ⟨served, waited⟩
  cases answer with
  | error exn => exact served.sent_eq
  | ok value =>
    refine ⟨trivial, ?_⟩
    rintro errors same ⟨rfl, rfl⟩
    cases clean : same.errors with
    | nil =>
      exact ⟨served.sent_eq, fun kept =>
        ⟨served.accounted kept, (served.accounted kept).allAcked (waited rfl) clean⟩⟩
    | cons err more =>
      refine ⟨trivial, ?_⟩
      rintro answer cleared ⟨rfl, rfl⟩
      exact served.sent_eq

/-! ### A broker that takes everything -/

/-- Every report that is due is served, and every one is an acknowledgement. -/
def Producer.serveAll (p : Producer) : Producer := p.outstanding.foldl (fun p d => p.report d) p

theorem Producer.serves_serveAll (p : Producer) :
    p.Serves p.serveAll ∧ p.serveAll.outstanding = [] := by
  suffices all : ∀ (due : List Delivery) (p : Producer), p.outstanding = due →
      p.Serves (due.foldl (fun p d => p.report d) p) ∧
        (due.foldl (fun p d => p.report d) p).outstanding = [] from all _ p rfl
  intro due
  induction due with
  | nil => exact fun p none => ⟨.done p, none⟩
  | cons delivery due ih =>
    intro p some
    obtain ⟨served, empty⟩ := ih (p.report delivery) (by simp [report, some])
    exact ⟨.acked (by simp [some]) served, empty⟩

/-- A client whose calls all succeed, and whose broker acknowledges at the flush. -/
def calmClient : (op : ClientOp) → Producer → Except Exn op.Ans × Producer
  | .produce record, p => (.ok (), p.enqueue record)
  | .poll, p => (.ok (), p)
  | .flush, p => (.ok (), p.serveAll)
  | .errors, p => (.ok p.errors, p)
  | .clearErrors, p => (.ok (), { p with errors := [] })

theorem clientStep_calm (op : ClientOp) (p : Producer) :
    clientStep op p (calmClient op p).1 (calmClient op p).2 := by
  cases op with
  | produce record => exact .inl rfl
  | poll => exact .done p
  | flush => exact ⟨p.serves_serveAll.1, fun _ => p.serves_serveAll.2⟩
  | errors => exact ⟨rfl, rfl⟩
  | clearErrors => exact ⟨rfl, rfl⟩

end Freshet.Kafka
