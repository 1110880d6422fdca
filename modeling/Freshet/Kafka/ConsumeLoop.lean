/-
**The consume loop** of `kafka_io`: the six exits, the three commit sites and the map of pending
messages, call by call.

The callbacks are operations of their own (`CallbackOp`), so that a callback is anything that
returns or raises at any call; a concrete handler is put in their place with `Prog.interpret`.
The `while` loop gets the number of its turns as an argument: a run that has used them up is
stopped there, before whatever it would have called next. `none` is the outcome of such a run.
-/

import Freshet.Kafka.BufferedProducer
import Freshet.Lib.Dict

namespace Freshet.Kafka

open Freshet.Lib

/-! ### Messages -/

/-- A message as the consumer hands it out. `value` is `msg.value().decode("utf-8")`, or none where
that raises. -/
structure Message where
  topic : String
  partition : Int
  offset : Int
  value : Option String
deriving DecidableEq, Repr

/-- `(msg.topic(), msg.partition())`. -/
def Message.source (m : Message) : String × Int := (m.topic, m.partition)

/-- What `poll` hands out: nothing, a consumer error, or a message. -/
inductive Polled
  | nothing
  | error (text : String)
  | message (m : Message)
deriving DecidableEq, Repr

/-! ### Operations -/

/-- What the loop calls besides its callbacks. -/
inductive ConsumerOp
  | makeConsumer
  | stopIsSet
  | poll
  | monotonic
  | commit (m : Message)
  | close
deriving DecidableEq, Repr

abbrev ConsumerOp.Ans : ConsumerOp → Type
  | stopIsSet => Bool
  | poll => Polled
  | monotonic => Int
  | _ => Unit

/-- The callbacks. The handler is given the value; the message it comes from is history. -/
inductive CallbackOp
  | handler (m : Message) (value : String)
  | afterHandler
  | preCommit
  | idleHook
deriving DecidableEq, Repr

abbrev consumerSig : Sig := ⟨ConsumerOp, ConsumerOp.Ans⟩

abbrev callbackSig : Sig := ⟨CallbackOp, fun _ => Unit⟩

/-- The operations of the loop. -/
abbrev loopSig : Sig := consumerSig.sum callbackSig

abbrev Consuming (α : Type) := Prog loopSig Exn α

abbrev consumer (op : ConsumerOp) : Consuming op.Ans := @Prog.perform loopSig Exn (.inl op)

abbrev callback (op : CallbackOp) : Consuming Unit := @Prog.perform loopSig Exn (.inr op)

/-! ### The loop -/

/-- The arguments of `consume_loop`. A callback is there or not. -/
structure LoopConfig where
  maxMessages : Option Int := none
  autoCommit : Bool := true
  stop : Bool := false
  idleTimeout : Option Int := none
  commitEvery : Int := 1
  preCommit : Bool := false
  idleHook : Bool := false
  afterHandler : Bool := false
deriving DecidableEq, Repr

/-- `pending`: the newest uncommitted message of each source. -/
abbrev Pending := Dict (String × Int) Message

/-- The local variables. -/
structure Locals where
  n : Nat := 0
  pending : Pending := []
  sinceCommit : Nat := 0
  lastMsg : Int
deriving DecidableEq, Repr

/-- How a turn of the loop ends. -/
inductive Turn
  | more (locals : Locals)
  | stopped (locals : Locals)
deriving DecidableEq, Repr

namespace ConsumeLoop

/-- A callback that may have been left out. -/
def optional (given : Bool) (op : CallbackOp) : Consuming Unit :=
  if given then callback op else pure ()

/-- `for m in pending.values(): c.commit(message=m, asynchronous=False)`. -/
def commitEach : List Message → Consuming Unit
  | [] => pure ()
  | m :: rest => do
    consumer (.commit m)
    commitEach rest

/-- `_commit_pending`. -/
def commitPending (config : LoopConfig) (locals : Locals) : Consuming Locals :=
  if locals.pending = [] then pure locals
  else do
    optional config.preCommit .preCommit
    commitEach locals.pending.values
    pure { locals with pending := [], sinceCommit := 0 }

/-- `if not auto_commit: _commit_pending()`. -/
def commitManual (config : LoopConfig) (locals : Locals) : Consuming Locals :=
  if config.autoCommit then pure locals else commitPending config locals

/-- The branch of an empty poll. -/
def idle (config : LoopConfig) (locals : Locals) : Consuming Turn := do
  let locals ← commitManual config locals
  optional config.idleHook .idleHook
  match config.idleTimeout with
  | none => pure (.more locals)
  | some timeout => do
    let now ← consumer .monotonic
    if now - locals.lastMsg ≥ timeout then pure (.stopped locals) else pure (.more locals)

/-- A handled message is pending, and a full batch is committed. -/
def account (config : LoopConfig) (m : Message) (locals : Locals) : Consuming Locals :=
  if config.autoCommit then pure locals
  else
    let locals := { locals with
      pending := locals.pending.set m.source m, sinceCommit := locals.sinceCommit + 1 }
    if (locals.sinceCommit : Int) ≥ max 1 config.commitEvery then commitPending config locals
    else pure locals

/-- The branch of a message. -/
def deliver (config : LoopConfig) (locals : Locals) (m : Message) : Consuming Turn := do
  let now ← consumer .monotonic
  match m.value with
  | none => .raise (.exception "the message's value cannot be decoded")
  | some value => do
    callback (.handler m value)
    optional config.afterHandler .afterHandler
    let locals ← account config m { locals with lastMsg := now }
    pure (.more { locals with n := locals.n + 1 })

/-- One poll and what follows it. -/
def pollOnce (config : LoopConfig) (locals : Locals) : Consuming Turn := do
  match ← consumer .poll with
  | .nothing => idle config locals
  | .error _ => pure (.more locals)
  | .message m => deliver config locals m

/-- The body of the `while` loop. -/
def turn (config : LoopConfig) (locals : Locals) : Consuming Turn :=
  if config.stop then do
    if ← consumer .stopIsSet then pure (.stopped locals) else pollOnce config locals
  else pollOnce config locals

/-- `while max_messages is None or n < max_messages`, for a number of turns. -/
def turns (config : LoopConfig) : Nat → Locals → Consuming (Option Locals)
  | 0, _ => pure none
  | fuel + 1, locals =>
    if config.maxMessages.all fun limit => (locals.n : Int) < limit then do
      match ← turn config locals with
      | .more locals => turns config fuel locals
      | .stopped locals => pure (some locals)
    else pure (some locals)

/-- The body of `try … finally`: the loop, and the commit of a clean exit. -/
def body (config : LoopConfig) (fuel : Nat) (locals : Locals) : Consuming (Option Nat) := do
  match ← turns config fuel locals with
  | none => pure none
  | some locals => do
    let locals ← commitManual config locals
    pure (some locals.n)

end ConsumeLoop

open ConsumeLoop in
/-- **`consume_loop`.** -/
def consumeLoop (config : LoopConfig) (fuel : Nat) : Consuming (Option Nat) := do
  consumer .makeConsumer
  let start ← consumer .monotonic
  match ← (body config fuel { lastMsg := start }).attempt with
  | .ok none => pure none
  | .ok (some n) => do
    consumer .close
    pure (some n)
  | .error exn => do
    consumer .close
    .raise exn

/-! ### History -/

/-- What happened, as far as offsets are concerned. `failed` is a callback that raised. -/
inductive Entry
  | polled (m : Message)
  | handled (m : Message)
  | preCommitted
  | returned
  | failed
  | committed (m : Message)
deriving DecidableEq, Repr

/-- The entry of a callback that returned. -/
def CallbackOp.entry : CallbackOp → Entry
  | handler m _ => .handled m
  | preCommit => .preCommitted
  | _ => .returned

/-- What a callback adds to the history. -/
def CallbackOp.outcome (op : CallbackOp) : Except Exn Unit → Entry
  | .ok _ => op.entry
  | .error _ => .failed

/-- What one call answers and adds to the history, newest first. Polled offsets increase in each
partition; a commit that raises may have taken effect. -/
def loopStep : (op : loopSig.Op) → List Entry → Except Exn (loopSig.Ans op) → List Entry → Prop
  | .inl .poll, log, answer, after => match answer with
    | .ok (.message m) => after = .polled m :: log ∧
        ∀ earlier, .polled earlier ∈ log → earlier.source = m.source → earlier.offset < m.offset
    | _ => after = log
  | .inl (.commit m), log, answer, after =>
    after = .committed m :: log ∨ (answer ≠ .ok () ∧ after = log)
  | .inl _, log, _, after => after = log
  | .inr op, log, answer, after => after = op.outcome answer :: log

end Freshet.Kafka
