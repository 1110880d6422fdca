/-
**Handlers that produce, with `flush_checked` before every commit.**

The callbacks of the loop become programs: they call `BufferedProducer.produce` on one producer and
any other operations of their own, whose answers are arbitrary. The loop with these callbacks is the
loop of `ConsumeLoop` interpreted, and it refines it (`simulates`): a callback that returned or
raised is one entry of the abstract history, and as long as none has raised the producer accounts
for every message. Where the abstract loop is permitted to commit, `flush_checked` has just
returned, so everything produced is acknowledged.
-/

import Freshet.Kafka.Commits

set_option linter.unusedSectionVars false

namespace Freshet.Kafka

open Freshet.Lib

/-- The one operation on the producer that a handler has. -/
abbrev produceSig : Sig := ⟨Record, fun _ => Unit⟩

/-- The callbacks, over the operation `produce` and operations of their own. -/
structure Callbacks (own : Sig) where
  handler : String → Prog (produceSig.sum own) Exn Unit
  afterHandler : Prog (produceSig.sum own) Exn Unit
  idleHook : Prog (produceSig.sum own) Exn Unit

/-- The operations of the loop with its callbacks: the consumer, the client, the callbacks' own. -/
abbrev producingSig (own : Sig) : Sig := consumerSig.sum (clientSig.sum own)

variable {own : Sig} {α : Type}

/-- `produce` is the buffered producer's. -/
def produceCall : (op : (produceSig.sum own).Op) →
    Prog (clientSig.sum own) Exn ((produceSig.sum own).Ans op)
  | .inl record => (BufferedProducer.produce record).inl
  | .inr op => @Prog.perform (clientSig.sum own) Exn (.inr op)

/-- A callback with `produce` run by the buffered producer. -/
def producing (program : Prog (produceSig.sum own) Exn α) : Prog (producingSig own) Exn α :=
  (program.interpret produceCall).inr

/-- What each operation of the loop runs; `pre_commit` is `flush_checked`. -/
def Callbacks.run (callbacks : Callbacks own) :
    (op : loopSig.Op) → Prog (producingSig own) Exn (loopSig.Ans op)
  | .inl op => @Prog.perform (producingSig own) Exn (.inl op)
  | .inr (.handler _ value) => producing (callbacks.handler value)
  | .inr .afterHandler => producing callbacks.afterHandler
  | .inr .preCommit => BufferedProducer.flushChecked.inl.inr
  | .inr .idleHook => producing callbacks.idleHook

/-- The history of polls and commits, and the producer. -/
structure Producing where
  log : List Entry := []
  producer : Producer := {}
deriving DecidableEq, Repr

/-- The client's calls, and the callbacks' own, which do nothing to the producer. -/
def callbackStep : (op : (clientSig.sum own).Op) → Producer →
    Except Exn ((clientSig.sum own).Ans op) → Producer → Prop
  | .inl op, p, answer, after => clientStep op p answer after
  | .inr _, p, _, after => after = p

def callbackMachine (own : Sig) : Machine (clientSig.sum own) Exn Producer where
  safe _ _ := True
  step := callbackStep

/-- What one call answers and does. -/
def producingStep : (op : (producingSig own).Op) → Producing →
    Except Exn ((producingSig own).Ans op) → Producing → Prop
  | .inl op, s, answer, after =>
    loopStep (.inl op) s.log answer after.log ∧ after.producer = s.producer
  | .inr op, s, answer, after =>
    callbackStep op s.producer answer after.producer ∧ after.log = s.log

/-- The calls, an offset committed only with everything acknowledged. -/
def producingMachine (own : Sig) : Machine (producingSig own) Exn Producing where
  safe op s := ∀ m, op = .inl (.commit m) → s.producer.AllAcked
  step := producingStep

/-- Polls and commits. -/
def isConsumer : Entry → Bool
  | .polled _ => true
  | .committed _ => true
  | _ => false

/-- **The abstract history against the producer.** -/
structure Tracks (log : List Entry) (s : Producing) : Prop where
  history : s.log = log.filter isConsumer
  produced : .failed ∈ log ∨ s.producer.Accounted ∧ (Fresh log → s.producer.AllAcked)

/-- The calls of a producing callback. -/
def IsCallback : (clientSig.sum own).Op → Prop
  | .inl op => IsProducing op
  | .inr _ => True

theorem uses_produceCall (op : (produceSig.sum own).Op) : (produceCall op).Uses IsCallback := by
  cases op with
  | inl record =>
    refine Prog.uses_inl ?_
    exact uses_produce record
  | inr op => exact @Prog.uses_perform (clientSig.sum own) Exn IsCallback (.inr op) trivial

/-- A program of the callbacks runs in the loop as it runs alone. -/
theorem wp_callback {program : Prog (clientSig.sum own) Exn α}
    {post : Except Exn α → Producer → Prop} {s : Producing}
    (holds : program.wp (callbackMachine own) post s.producer) :
    (program.inr : Prog (producingSig own) Exn α).wp (producingMachine own)
      (fun outcome after => post outcome after.producer ∧ after.log = s.log) s := by
  have simulates : ∀ op p before, before.producer = p ∧ before.log = s.log →
      (callbackMachine own).safe op p → (producingMachine own).safe (.inr op) before ∧
      ∀ answer after, (producingMachine own).step (.inr op) before answer after →
        ∃ p', (callbackMachine own).step op p answer p' ∧
          after.producer = p' ∧ after.log = s.log := by
    rintro op p before ⟨rfl, same⟩ _
    refine ⟨fun m is => (nomatch is), ?_⟩
    rintro answer after ⟨step, same'⟩
    exact ⟨after.producer, step, rfl, same'.trans same⟩
  refine Prog.wp_mono ?_ (Prog.wp_inr simulates ⟨rfl, rfl⟩ holds)
  rintro outcome after ⟨p, done, rfl, same⟩
  exact ⟨done, same⟩

/-- A callback that is not `pre_commit` keeps the accounts. -/
theorem producing_spec (program : Prog (produceSig.sum own) Exn α) (s : Producing) :
    (producing program).wp (producingMachine own)
      (fun _ after => (s.producer.Accounted → after.producer.Accounted) ∧ after.log = s.log) s := by
  have kept : ∀ op, IsCallback op → ∀ p, (s.producer.Accounted → p.Accounted) →
      (callbackMachine own).safe op p ∧ ∀ answer after,
        (callbackMachine own).step op p answer after → s.producer.Accounted → after.Accounted := by
    intro op allowed p kept
    refine ⟨trivial, fun answer after step accounted => ?_⟩
    cases op with
    | inl op => exact accounted_of_producing allowed step (kept accounted)
    | inr op => exact step ▸ kept accounted
  refine wp_callback (Prog.wp_of_uses ?_ ?_ kept)
  · exact Prog.uses_interpret uses_produceCall program
  · exact id

/-- `flush_checked` on the producer that the callbacks share. -/
theorem flushing_spec (s : Producing) :
    (BufferedProducer.flushChecked.inl.inr : Prog (producingSig own) Exn Unit).wp
      (producingMachine own)
      (fun outcome after => Flushed s.producer outcome after.producer ∧ after.log = s.log) s := by
  exact wp_callback (Prog.wp_inl_of (fun _ _ _ => trivial) (fun _ _ _ _ step => step)
    (flushChecked_spec s.producer))

theorem Tracks.callback {log : List Entry} {s after : Producing} {entry : Entry}
    (tracks : Tracks log s) (same : after.log = s.log) (callback : isConsumer entry = false)
    (produced : entry = .failed ∨
      ((s.producer.Accounted → after.producer.Accounted) ∧ (Fresh (entry :: log) →
        s.producer.Accounted → after.producer.AllAcked))) : Tracks (entry :: log) after where
  history := by rw [same, tracks.history, List.filter_cons_of_neg (by simp [callback])]
  produced := by
    rcases produced with rfl | ⟨kept, acked⟩
    · exact .inl List.mem_cons_self
    · rcases tracks.produced with failed | ⟨accounted, -⟩
      · exact .inl (List.mem_cons_of_mem _ failed)
      · exact .inr ⟨kept accounted, fun fresh => acked fresh accounted⟩

/-- A poll or a commit is an entry of both histories. -/
theorem Tracks.consumer {log : List Entry} {s after : Producing} {entry : Entry}
    (tracks : Tracks log s) (same : after.producer = s.producer)
    (logged : after.log = entry :: s.log) (consumer : isConsumer entry = true)
    (fresh : Fresh (entry :: log) → Fresh log) : Tracks (entry :: log) after where
  history := by rw [logged, tracks.history, List.filter_cons_of_pos consumer]
  produced := by
    rw [same]
    exact tracks.produced.imp (List.mem_cons_of_mem _) fun kept => ⟨kept.1, kept.2 ∘ fresh⟩

theorem Tracks.same {log : List Entry} {s after : Producing} (tracks : Tracks log s)
    (same : after.producer = s.producer) (logged : after.log = s.log) : Tracks log after where
  history := logged.trans tracks.history
  produced := same ▸ tracks.produced

/-- A callback that is not `pre_commit` is one entry of the abstract history. -/
theorem simulates_producing (program : Prog (produceSig.sum own) Exn Unit) {op : CallbackOp}
    (other : op ≠ .preCommit) {log : List Entry} {s : Producing} (tracks : Tracks log s) :
    (producing program).wp (producingMachine own) (fun answer after => ∃ log',
      loopStep (.inr op) log answer log' ∧ Tracks log' after) s := by
  refine Prog.wp_mono ?_ (producing_spec program s)
  rintro outcome after ⟨kept, same⟩
  refine ⟨_, rfl, ?_⟩
  cases outcome with
  | error exn => exact tracks.callback same rfl (.inl rfl)
  | ok value =>
    cases op with
    | preCommit => exact absurd rfl other
    | handler m value => exact tracks.callback same rfl (.inr ⟨kept, fun fresh => fresh.elim⟩)
    | afterHandler => exact tracks.callback same rfl (.inr ⟨kept, fun fresh => fresh.elim⟩)
    | idleHook => exact tracks.callback same rfl (.inr ⟨kept, fun fresh => fresh.elim⟩)

/-- A consumer's call is the abstract loop's own. -/
theorem simulates_consumer {config : LoopConfig} (flushes : config.preCommit = true)
    (op : ConsumerOp) {log : List Entry} {s : Producing} (tracks : Tracks log s)
    (safe : (loopMachine config).safe (.inl op) log) :
    (@Prog.perform (producingSig own) Exn (.inl op)).wp (producingMachine own)
      (fun answer after => ∃ log', loopStep (.inl op) log answer log' ∧ Tracks log' after) s := by
  refine (@Prog.wp_perform (producingSig own) Exn _ _ (.inl op) _ s).mpr ⟨?_, ?_⟩
  · rintro m is
    obtain rfl := Sum.inl.inj is
    have permitted := safe.2 m rfl
    rcases tracks.produced with failed | ⟨-, acked⟩
    · exact absurd failed permitted.clean
    · exact acked (permitted.flushed flushes)
  · rintro answer after ⟨step, same⟩
    cases op with
    | poll =>
      cases answer with
      | error exn => exact ⟨log, rfl, tracks.same same step⟩
      | ok polled =>
        cases polled with
        | nothing => exact ⟨log, rfl, tracks.same same step⟩
        | error text => exact ⟨log, rfl, tracks.same same step⟩
        | message m =>
          obtain ⟨logged, increasing⟩ := step
          refine ⟨_, ⟨rfl, fun earlier polled => increasing earlier ?_⟩,
            tracks.consumer same logged rfl fun fresh => fresh.elim⟩
          rw [tracks.history]
          exact List.mem_filter.mpr ⟨polled, rfl⟩
    | commit m =>
      rcases step with logged | ⟨raised, logged⟩
      · exact ⟨_, .inl rfl, tracks.consumer same logged rfl id⟩
      · exact ⟨_, .inr ⟨raised, rfl⟩, tracks.same same logged⟩
    | makeConsumer => exact ⟨log, rfl, tracks.same same step⟩
    | stopIsSet => exact ⟨log, rfl, tracks.same same step⟩
    | monotonic => exact ⟨log, rfl, tracks.same same step⟩
    | close => exact ⟨log, rfl, tracks.same same step⟩

/-- **The loop with producing callbacks refines the abstract loop.** -/
theorem simulates {config : LoopConfig} (flushes : config.preCommit = true)
    (callbacks : Callbacks own) (op : loopSig.Op) (log : List Entry) (s : Producing)
    (tracks : Tracks log s) (safe : (loopMachine config).safe op log) :
    (callbacks.run op).wp (producingMachine own) (fun answer after => ∃ log',
      (loopMachine config).step op log answer log' ∧ Tracks log' after) s := by
  cases op with
  | inl op => exact simulates_consumer flushes op tracks safe
  | inr op =>
    cases op with
    | handler m value => exact simulates_producing _ (by simp) tracks
    | afterHandler => exact simulates_producing _ (by simp) tracks
    | idleHook => exact simulates_producing _ (by simp) tracks
    | preCommit =>
      refine Prog.wp_mono ?_ (flushing_spec s)
      rintro outcome after ⟨flushed, same⟩
      refine ⟨_, rfl, ?_⟩
      cases outcome with
      | error exn => exact tracks.callback same rfl (.inl rfl)
      | ok value =>
        exact tracks.callback same rfl
          (.inr ⟨fun kept => (flushed.2 kept).1, fun _ kept => (flushed.2 kept).2⟩)

/-! ### The result -/

/-- **No offset is committed past unfinished work.** Wherever the loop has got to, at most a batch
of handled messages is uncommitted, and if it is about to commit, the commit is permitted. With
`flush_checked` as `pre_commit` and callbacks that produce on that producer, it is then also true
that everything they produced is acknowledged. -/
theorem no_commit_past_unfinished (config : LoopConfig) (manual : config.autoCommit = false)
    (fuel : Nat) :
    (∀ rest log, Prog.Steps (loopMachine config) (consumeLoop config fuel) [] rest log →
      Bounded config log ∧
        ∀ m next, rest = .call (.inl (.commit m)) next → Permitted config m log) ∧
    (config.preCommit = true → ∀ (own : Sig) (callbacks : Callbacks own) rest s,
      Prog.Steps (producingMachine own) ((consumeLoop config fuel).interpret callbacks.run) {}
        rest s →
      ∀ m next, rest = .call (.inl (.commit m)) next → s.producer.AllAcked) := by
  constructor
  · intro rest log run
    have holds := consumeLoop_spec manual fuel
    have demanded : ∀ op log, (loopMachine config).safe op log → Bounded config log :=
      fun _ _ safe => safe.1
    refine ⟨Prog.kept_of_steps demanded ?_ holds run, ?_⟩
    · intro outcome log ends
      cases outcome <;> exact ends
    · rintro m next rfl
      exact (Prog.safe_of_steps run holds).2 m rfl
  · rintro flushes own callbacks rest s run m next rfl
    have start : Tracks [] {} := ⟨rfl, .inr ⟨Producer.accounted_new, fun fresh => fresh.elim⟩⟩
    have holds := Prog.wp_interpret (simulates flushes callbacks) start
      (consumeLoop_spec manual fuel)
    exact Prog.safe_of_steps run holds m rfl

/-! One message of one partition, handled by a handler that passes its value on. -/

def calmMessage : Message := ⟨"in", 0, 7, some "v"⟩

/-- The first poll hands the message out; nothing fails. -/
def calmLoop : (op : loopSig.Op) → List Entry → Except Exn (loopSig.Ans op) × List Entry
  | .inl .poll, log =>
    if log = [] then (.ok (.message calmMessage), [.polled calmMessage]) else (.ok .nothing, log)
  | .inl .stopIsSet, log => (.ok false, log)
  | .inl .monotonic, log => (.ok (0 : Int), log)
  | .inl (.commit m), log => (.ok (), .committed m :: log)
  | .inl .makeConsumer, log => (.ok (), log)
  | .inl .close, log => (.ok (), log)
  | .inr op, log => (.ok (), op.entry :: log)

theorem loopStep_calm (op : loopSig.Op) (log : List Entry) :
    loopStep op log (calmLoop op log).1 (calmLoop op log).2 := by
  cases op with
  | inr op => exact rfl
  | inl op =>
    cases op with
    | poll =>
      by_cases first : log = []
      · subst first
        exact ⟨rfl, fun _ member => (nomatch member)⟩
      · simp only [calmLoop, if_neg first]
        exact rfl
    | commit m => exact .inl rfl
    | makeConsumer => exact rfl
    | stopIsSet => exact rfl
    | monotonic => exact rfl
    | close => exact rfl

/-- No operations of their own. -/
abbrev noSig : Sig := ⟨Empty, fun _ => Empty⟩

/-- The handler passes the value on. -/
def passOn : Callbacks noSig where
  handler value := @Prog.perform (produceSig.sum noSig) Exn (.inl ⟨"out", value, none⟩)
  afterHandler := .ret ()
  idleHook := .ret ()

def calmProducing : (op : (producingSig noSig).Op) → Producing →
    Except Exn ((producingSig noSig).Ans op) × Producing
  | .inl op, s => ((calmLoop (.inl op) s.log).1, { s with log := (calmLoop (.inl op) s.log).2 })
  | .inr (.inl op), s =>
    ((calmClient op s.producer).1, { s with producer := (calmClient op s.producer).2 })

theorem producingStep_calm (op : (producingSig noSig).Op) (s : Producing) :
    producingStep op s (calmProducing op s).1 (calmProducing op s).2 := by
  rcases op with op | op | op
  · exact ⟨loopStep_calm (.inl op) s.log, rfl⟩
  · exact ⟨clientStep_calm op s.producer, rfl⟩
  · exact op.elim

def calmLoopConfig : LoopConfig := { autoCommit := false, preCommit := true }

theorem no_commit_past_unfinished_oneMessage :
    Permitted calmLoopConfig calmMessage
        [.preCommitted, .handled calmMessage, .polled calmMessage] ∧
      Producer.AllAcked { sent := [(0, ⟨"out", "v", none⟩)], acked := [(0, ⟨"out", "v", none⟩)] } := by
  have high := Prog.steps_runFor (m := loopMachine calmLoopConfig) 6
    (consumeLoop calmLoopConfig 1) [] loopStep_calm
  have low := Prog.steps_runFor (m := producingMachine noSig) 8
    ((consumeLoop calmLoopConfig 1).interpret passOn.run) {} producingStep_calm
  exact ⟨((no_commit_past_unfinished calmLoopConfig rfl 1).1 _ _ high).2 calmMessage _ rfl,
    (no_commit_past_unfinished calmLoopConfig rfl 1).2 rfl noSig passOn _ _ low calmMessage _ rfl⟩

end Freshet.Kafka
