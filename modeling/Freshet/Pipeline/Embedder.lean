/-
**The embedding worker's handler**: parse, embed with retries, write the chunks and their receipt,
or write the message to the dead-letter topic.

Every database statement, every call of the encoder, the producer and the clock is an operation, so
the handler can be stopped between any two of them and any of them can raise. `handle` answers at
which of its returns it left, or that it raises `EmbedderUnhealthy`; every other exception is the
program's. `wp_handle` cuts it into its four ways, once for all that is proved of it.
-/

import Freshet.Kafka.ProduceSync
import Freshet.Pipeline.Chunking
import Freshet.Pipeline.Deadletter
import Freshet.Pipeline.Index

namespace Freshet.Pipeline

open Freshet.Lib Freshet.Kafka
open Freshet.Autopilot (Time)

/-! ### Events -/

structure Event where
  eventId : String
  v : Int
  ts : Time
  service : String
  source : EventSource
  type : String
  severity : Option Severity
  incidentId : Option String
  title : Option String
  text : List Char
deriving DecidableEq

/-- A validated message. The two fields that have a `default_factory` may be missing. -/
structure Fields where
  eventId : Option String
  v : Int
  ts : Option Time
  service : String
  source : EventSource
  type : String
  severity : Option Severity
  incidentId : Option String
  title : Option String
  text : List Char
deriving DecidableEq

/-- The event, with what the factories make where a field is missing. -/
def Fields.event (fields : Fields) (newId : String) (utcnow : Time) : Event where
  eventId := fields.eventId.getD newId
  v := fields.v
  ts := fields.ts.getD utcnow
  service := fields.service
  source := fields.source
  type := fields.type
  severity := fields.severity
  incidentId := fields.incidentId
  title := fields.title
  text := fields.text

/-! ### Records -/

/-- `text.partition(": ")`, where the separator is found. -/
def partition : List Char → Option (List Char × List Char)
  | [] => none
  | c :: rest =>
    if c = ':' ∧ rest.head? = some ' ' then some ([], rest.tail)
    else (partition rest).map fun parts => (c :: parts.1, parts.2)

def maxTitleLen : Nat := 120

/-- `title_of`. -/
def titleOf (text : List Char) : Option String :=
  match partition text with
  | none => none
  | some (head, rest) =>
    if strip rest = [] then none
    else
      let head := strip head
      if 0 < head.length ∧ head.length ≤ maxTitleLen then some (String.ofList head) else none

/-- `ev.title or title_of(ev.text)`. -/
def Event.recordTitle (ev : Event) : Option String :=
  match ev.title with
  | some title => if title = "" then titleOf ev.text else some title
  | none => titleOf ev.text

/-- The record of a chunk. -/
def Event.record (ev : Event) (stamp : Time) (i : Nat) (chunk : List Char) : VectorRecord where
  chunkId := chunkId ev.eventId i
  chunkIndex := i
  eventId := ev.eventId
  incidentId := ev.incidentId
  service := ev.service
  ts := ev.ts
  indexedAt := stamp
  text := chunk
  title := ev.recordTitle
  source := ev.source
  severity := ev.severity
  type := ev.type

/-- `records_for_event`. -/
def recordsForEvent (ev : Event) (stamp : Time) : List VectorRecord :=
  (chunkText ev.text).zipIdx.map fun (chunk, i) => ev.record stamp i chunk

/-! ### Operations -/

/-- What the handler calls besides the producer. -/
inductive WorkerOp
  | modelValidateJson (value : String)
  | newId
  | utcnow
  | encode (texts : List (List Char))
  | sleep (attempt : Nat)
  | execute (statement : Statement)
  | deadletters
  | setDeadletters (count : Nat)
  | beat

abbrev WorkerOp.Ans : WorkerOp → Type
  | modelValidateJson _ => Fields
  | newId => String
  | utcnow => Time
  | encode _ => List Embedding
  | execute statement => statement.Ans
  | deadletters => Nat
  | _ => Unit

abbrev workerSig : Sig := ⟨WorkerOp, WorkerOp.Ans⟩

abbrev handlerSig : Sig := clientSig.sum workerSig

abbrev Handling (α : Type) := Prog handlerSig Exn α

abbrev worker (op : WorkerOp) : Handling op.Ans := @Prog.perform handlerSig Exn (.inr op)

abbrev execute (statement : Statement) : Handling statement.Ans := worker (.execute statement)

/-! ### The handler -/

def embeddingDim : Nat := 768

def maxConsecutiveDeadletters : Nat := 10

/-- What `make_handler` is given, with `str` of an exception and the ISO form of a time. `name` is
`getattr(emb, "name", None)`, and `shownName` the `repr` that the message about the dimension shows.
`asVector` is the connection's `%s::vector`: what pgvector makes of a literal, or what the driver raises
where it refuses one. -/
structure HandlerConfig where
  topic : String := "normalized.updates"
  deadletterTopic : String := deadletterTopic
  attempts : Int := 3
  name : Option String
  shownName : String
  str : Exn → String
  isoformat : Time → String
  asVector : String → Except Exn Column

/-- Where `handle` leaves: at one of its four returns, or by raising `EmbedderUnhealthy`. -/
inductive Leaving
  | malformed
  | blank
  | exhausted
  | indexed
  | unhealthy (message : String)
deriving DecidableEq, Repr

/-- `ensure_incident`. -/
def ensureIncident (ev : Event) : Handling Unit :=
  match ev.incidentId with
  | none => pure ()
  | some incidentId =>
    if incidentId = "" then pure ()
    else do
      execute (.ensureIncident incidentId (ev.title.getD "") ev.ts ev.service)
      execute (.ensureService incidentId ev.service)

/-- `if ev.incident_id: conn.execute(_INCIDENT_EVENT_SQL, …)`. -/
def linkEvent (ev : Event) : Handling Unit :=
  match ev.incidentId with
  | none => pure ()
  | some incidentId =>
    if incidentId = "" then pure () else execute (.incidentEvent incidentId ev.eventId)

/-- `upsert_record`. A literal that is refused changes nothing. -/
def upsertRecord (config : HandlerConfig) (rec : VectorRecord) (embedding : Embedding) :
    Handling Unit :=
  match config.asVector (vecLiteral embedding) with
  | .error exn => .raise exn
  | .ok column => execute (.upsertRecord rec column config.name)

/-- The loop over the records and their vectors. -/
def upsertRecords (config : HandlerConfig) : List (VectorRecord × Embedding) → Handling Unit
  | [] => pure ()
  | (rec, vector) :: rest => do
    let now ← worker .utcnow
    upsertRecord config { rec with indexedAt := now } vector
    upsertRecords config rest

/-- From the registration to the receipt. -/
def store (config : HandlerConfig) (ev : Event) (pairs : List (VectorRecord × Embedding)) :
    Handling Unit := do
  execute (.registerIndexing ev.eventId)
  upsertRecords config pairs
  execute (.deleteOrphanChunks ev.eventId pairs.length)
  ensureIncident ev
  linkEvent ev
  match ← execute (.completeIndexing ev.eventId) with
  | none => .raise (.exception "'NoneType' object is not subscriptable")
  | some _ => pure ()

/-- The `for attempt` loop: the vectors, or the exception of the last attempt, or neither when it
has no turn. -/
def encodeFrom (texts : List (List Char)) :
    (left attempt : Nat) → Handling (Option (Except Exn (List Embedding)))
  | 0, _ => pure none
  | left + 1, attempt => do
    match ← (worker (.encode texts)).attempt with
    | .ok vectors => pure (some (.ok vectors))
    | .error exn =>
      if left = 0 then pure (some (.error exn))
      else do
        worker (.sleep attempt)
        encodeFrom texts left (attempt + 1)

section Handler

variable (config : HandlerConfig)

/-- `_dead_letter`: the streak as it is afterwards. -/
def deadLetter (error value : String) (systemic : Bool) : Handling Nat := do
  let now ← worker .utcnow
  (produceSync config.deadletterTopic
    (buildDeadletter error value config.topic (config.isoformat now))).inl
  let streak ← worker .deadletters
  let streak := if systemic then streak + 1 else 0
  worker (.setDeadletters streak)
  pure streak

/-- The `if` at its end, and the `return` behind the call. -/
def leave (error : String) (streak : Nat) (leaving : Leaving) : Leaving :=
  if streak ≥ maxConsecutiveDeadletters then
    .unhealthy (toString streak ++ " consecutive embed failures; last: " ++ error)
  else leaving

/-- The message of an exhausted embedding. -/
def exhaustedError (exn : Exn) : String :=
  "embed failed after " ++ toString config.attempts ++ " attempts: " ++ config.str exn

/-- What is done with the vectors. -/
def index (ev : Event) (records : List VectorRecord) (vectors : List Embedding) :
    Handling Leaving :=
  if vectors.length ≠ records.length then
    .raise (.runtimeError ("embedder returned " ++ toString vectors.length ++ " vectors for " ++
      toString records.length ++ " chunks"))
  else match vectors.find? fun v => decide (v.length ≠ embeddingDim) with
    | some v =>
      .raise (.runtimeError ("embedder " ++ config.shownName ++ " returned " ++
        toString v.length ++ "-dim vectors, but the schema is vector(" ++ toString embeddingDim ++
        ") — re-index with a " ++ toString embeddingDim ++ "-dim model or fix FRESHET_EMBEDDER"))
    | none => do
      store config ev (records.zip vectors)
      worker (.setDeadletters 0)
      worker .beat
      pure .indexed

/-- What is done with an event. -/
def handleEvent (ev : Event) (value : String) : Handling Leaving := do
  let stamp ← worker .utcnow
  let records := recordsForEvent ev stamp
  if records = [] then
    ensureIncident ev
    pure .blank
  else
    match ← encodeFrom (records.map VectorRecord.text) config.attempts.toNat 1 with
    | none => .raise (.exception 
      "cannot access local variable 'vectors' where it is not associated with a value")
    | some (.error exn) =>
      let streak ← deadLetter config (exhaustedError config exn) value true
      pure (leave (exhaustedError config exn) streak .exhausted)
    | some (.ok vectors) => index config ev records vectors

/-- **`handle`.** -/
def handle (value : String) : Handling Leaving := do
  match ← (worker (.modelValidateJson value)).attempt with
  | .error exn =>
    let streak ← deadLetter config (config.str exn) value false
    pure (leave (config.str exn) streak .malformed)
  | .ok fields =>
    let newId ← worker .newId
    let now ← worker .utcnow
    handleEvent config (fields.event newId now) value

/-- The handler as the consume loop calls it. -/
def handler (value : String) : Handling Unit := do
  match ← handle config value with
  | .unhealthy message => .raise (.runtimeError message)
  | _ => pure ()

end Handler

/-! ### What the operations do -/

/-- A statement that took effect, when, and on what. -/
structure Executed where
  statement : Statement
  time : Time
  before : Index

/-- The database, the producer and the handler's streak. `log` is history, newest first. -/
structure World where
  index : Index
  clock : Time
  producer : Producer := {}
  streak : Nat := 0
  log : List Executed := []

/-- A statement takes effect. -/
def World.exec (w : World) (now : Time) (statement : Statement) : World :=
  { w with
    index := w.index.exec now statement
    clock := now
    log := ⟨statement, now, w.index⟩ :: w.log }

/-- **Any number of tries that took effect**: `ResilientConnection.execute` tries again after a
broken connection, and the statement may or may not have run before it broke. -/
inductive Tried (statement : Statement) : World → World → Prop
  | none (w : World) : Tried statement w w
  | again {w last : World} {now : Time} (later : w.clock ≤ now)
      (rest : Tried statement (w.exec now statement) last) : Tried statement w last

/-- What is not part of the repository: the validation of a message, and what the encoder does. -/
structure Surroundings where
  validate : String → Except String Fields
  encodes : List (List Char) → Except Exn (List Embedding) → Prop

variable (around : Surroundings)

/-- **What one call answers and does.** -/
def workerStep : (op : WorkerOp) → World → Except Exn op.Ans → World → Prop
  | .modelValidateJson value, w, answer, after =>
    answer = (around.validate value).mapError .exception ∧ after = w
  | .newId, w, answer, after => (∃ id, answer = .ok id) ∧ after = w
  | .utcnow, w, answer, after => (∃ now, answer = .ok now) ∧ after = w
  | .encode texts, w, answer, after => around.encodes texts answer ∧ after = w
  | .sleep _, w, answer, after => answer = .ok () ∧ after = w
  | .execute statement, w, answer, after => match answer with
    | .ok result => ∃ before now, Tried statement w before ∧ before.clock ≤ now ∧
        result = before.index.answer now statement ∧ after = before.exec now statement
    | .error _ => Tried statement w after
  | .deadletters, w, answer, after => answer = .ok w.streak ∧ after = w
  | .setDeadletters count, w, answer, after => answer = .ok () ∧ after = { w with streak := count }
  | .beat, w, _, after => after = w

def handlerStep : (op : handlerSig.Op) → World → Except Exn (handlerSig.Ans op) → World → Prop
  | .inl op, w, answer, after =>
    clientStep op w.producer answer after.producer ∧ after = { w with producer := after.producer }
  | .inr op, w, answer, after => workerStep around op w answer after

/-- The handler's machine, with an assertion to be kept at every call. -/
def handlerMachine (kept : World → Prop) : Machine handlerSig Exn World where
  safe _ w := kept w
  step := handlerStep around

/-- A run is one whatever is to be kept. -/
theorem Steps.demanding {around : Surroundings} {α : Type} {kept : World → Prop}
    {program rest : Handling α} {w after : World}
    (run : Prog.Steps (handlerMachine around kept) program w rest after) (kept' : World → Prop) :
    Prog.Steps (handlerMachine around kept') program w rest after :=
  Prog.Steps.mono (m := handlerMachine around kept) (fun _ _ _ _ step => step) run

/-! ### Rules for the calls -/

section Rules

variable {around} {kept : World → Prop} {w : World}

/-- The calls that leave the world as it is. -/
def Quiet : WorkerOp → Prop
  | .execute _ => False
  | .setDeadletters _ => False
  | _ => True

theorem quiet_step {op : WorkerOp} (quiet : Quiet op) {answer : Except Exn op.Ans} {after : World}
    (step : workerStep around op w answer after) : after = w := by
  cases op with
  | execute statement => exact quiet.elim
  | setDeadletters count => exact quiet.elim
  | modelValidateJson value => exact step.2
  | newId => exact step.2
  | utcnow => exact step.2
  | encode texts => exact step.2
  | sleep attempt => exact step.2
  | deadletters => exact step.2
  | beat => exact step

theorem wp_quiet {op : WorkerOp} {good : op.Ans → World → Prop} (quiet : Quiet op) (here : kept w)
    (holds : ∀ answer, workerStep around op w (.ok answer) w → good answer w) :
    (worker op).wp (handlerMachine around kept) (Prog.Ends kept good) w := by
  refine (@Prog.wp_perform handlerSig Exn World _ (.inr op) _ w).mpr ⟨here, ?_⟩
  intro answer after step
  obtain rfl := quiet_step quiet step
  cases answer with
  | ok value => exact holds value step
  | error exn => exact here

theorem wp_set {count : Nat} {good : Unit → World → Prop} (here : kept w)
    (holds : good () { w with streak := count }) :
    (worker (.setDeadletters count)).wp (handlerMachine around kept) (Prog.Ends kept good) w := by
  refine (@Prog.wp_perform handlerSig Exn World _ (.inr _) _ w).mpr ⟨here, ?_⟩
  rintro answer after ⟨rfl, rfl⟩
  exact holds

theorem Tried.keeps {statement : Statement} {during : World → Prop} {last : World}
    (tried : Tried statement w last) (start : during w)
    (again : ∀ w now, during w → w.clock ≤ now → during (w.exec now statement)) :
    during last := by
  induction tried with
  | none w => exact start
  | again later rest ih => exact ih (again _ _ start later)

/-- **The rule for a statement**: what holds before it and after each of its tries. -/
theorem wp_execute {statement : Statement} {good : statement.Ans → World → Prop}
    (during : World → Prop) (start : during w)
    (again : ∀ w now, during w → w.clock ≤ now → during (w.exec now statement))
    (keeps : ∀ w, during w → kept w)
    (finish : ∀ w now, during w → w.clock ≤ now →
      good (w.index.answer now statement) (w.exec now statement)) :
    (execute statement).wp (handlerMachine around kept) (Prog.Ends kept good) w := by
  refine (@Prog.wp_perform handlerSig Exn World _ (.inr _) _ w).mpr ⟨keeps w start, ?_⟩
  intro answer after step
  cases answer with
  | ok result =>
    obtain ⟨before, now, tried, later, rfl, rfl⟩ := step
    exact finish before now (tried.keeps start again) later
  | error exn => exact keeps after (Tried.keeps step start again)

/-- The rule for a message that is produced and waited for. -/
theorem wp_sync {topic value : String} {good : Unit → World → Prop}
    (free : ∀ p, kept { w with producer := p })
    (holds : ∀ p, Synced ⟨topic, value, none⟩ w.producer p → good () { w with producer := p }) :
    ((produceSync topic value).inl : Handling Unit).wp (handlerMachine around kept)
      (Prog.Ends kept good) w := by
  have simulates : ∀ op p w', w' = { w with producer := p } → clientMachine.safe op p →
      (handlerMachine around kept).safe (.inl op) w' ∧
      ∀ answer after, (handlerMachine around kept).step (.inl op) w' answer after →
        ∃ p', clientMachine.step op p answer p' ∧ after = { w with producer := p' } := by
    rintro op p w' rfl -
    refine ⟨free p, ?_⟩
    rintro answer after ⟨step, eq⟩
    exact ⟨after.producer, step, by rw [eq]⟩
  have lifted := Prog.wp_inl simulates rfl (produceSync_spec topic value none w.producer)
  refine Prog.wp_mono ?_ lifted
  rintro outcome after ⟨p, done, rfl⟩
  cases outcome with
  | ok value => exact holds p done
  | error exn => exact free p

/-! ### Rules for the parts -/

/-- The envelope of a dead letter. -/
def envelope (config : HandlerConfig) (error value : String) (now : Time) : Record where
  topic := config.deadletterTopic
  value := buildDeadletter error value config.topic (config.isoformat now)
  key := none

variable {config : HandlerConfig}

theorem wp_deadLetter {error value : String} {systemic : Bool} {good : Nat → World → Prop}
    (free : ∀ p, kept { w with producer := p })
    (holds : ∀ p now, Synced (envelope config error value now) w.producer p →
      good (if systemic then w.streak + 1 else 0)
        { w with producer := p, streak := if systemic then w.streak + 1 else 0 }) :
    (deadLetter config error value systemic).wp (handlerMachine around kept)
      (Prog.Ends kept good) w := by
  have here : kept w := free w.producer
  refine Prog.wp_seq (fun _ after => w = after) (wp_quiet trivial here fun _ _ => rfl) ?_
  rintro now _ rfl
  refine Prog.wp_seq (fun _ after => ∃ p, after = { w with producer := p } ∧
    Synced (envelope config error value now) w.producer p)
    (wp_sync free fun p synced => ⟨p, rfl, synced⟩) ?_
  rintro _ _ ⟨p, rfl, synced⟩
  refine Prog.wp_seq (fun streak after => streak = w.streak ∧ after = { w with producer := p })
    (wp_quiet trivial (free p) fun answer step => ⟨Except.ok.inj step.1, rfl⟩) ?_
  rintro _ _ ⟨rfl, rfl⟩
  refine Prog.wp_seq (fun _ after => after = { w with producer := p, streak := if systemic then
    w.streak + 1 else 0 }) (wp_set (free p) rfl) ?_
  rintro _ _ rfl
  exact holds p now synced

/-- The attempts leave the world as it is. -/
theorem wp_encodeFrom {texts : List (List Char)}
    {good : Option (Except Exn (List Embedding)) → World → Prop} (here : kept w)
    (left attempt : Nat) (none' : left = 0 → good none w)
    (holds : ∀ answer, around.encodes texts answer → good (some answer) w) :
    (encodeFrom texts left attempt).wp (handlerMachine around kept) (Prog.Ends kept good) w := by
  induction left generalizing attempt with
  | zero => exact none' rfl
  | succ left ih =>
    refine Prog.wp_seq (fun answer after => around.encodes texts answer ∧ w = after)
      (Prog.wp_try ?_) ?_
    · refine (@Prog.wp_perform handlerSig Exn World _ (.inr _) _ w).mpr ⟨here, ?_⟩
      exact fun answer after step => ⟨step.1, step.2.symm⟩
    · rintro answer _ ⟨made, rfl⟩
      cases answer with
      | ok vectors => exact holds _ made
      | error exn =>
        by_cases last : left = 0
        · show ((if left = 0 then (pure (some (Except.error exn)) : Handling _) else _) : Handling _).wp
            _ _ _
          rw [if_pos last]
          exact holds _ made
        · show ((if left = 0 then (pure (some (Except.error exn)) : Handling _) else _) : Handling _).wp
            _ _ _
          rw [if_neg last]
          refine Prog.wp_seq (fun _ after => w = after) (wp_quiet trivial here fun _ _ => rfl) ?_
          rintro _ _ rfl
          exact ih (attempt + 1) fun zero => absurd zero last

/-- **The ways of an event through the handler.** The vectors that are stored are those the encoder
answered for the records' texts. -/
theorem wp_handleEvent_encoded {ev : Event} {value : String} {good : Leaving → World → Prop}
    (free : ∀ p n, kept { w with producer := p, streak := n })
    (blank : ∀ stamp, recordsForEvent ev stamp = [] →
      (ensureIncident ev).wp (handlerMachine around kept) (Prog.Ends kept fun _ => good .blank) w)
    (exhausted : ∀ stamp exn p now,
      around.encodes ((recordsForEvent ev stamp).map VectorRecord.text) (.error exn) →
      Synced (envelope config (exhaustedError config exn) value now) w.producer p →
      good (leave (exhaustedError config exn) (w.streak + 1) .exhausted)
        { w with producer := p, streak := w.streak + 1 })
    (indexed : ∀ stamp vectors, recordsForEvent ev stamp ≠ [] →
      around.encodes ((recordsForEvent ev stamp).map VectorRecord.text) (.ok vectors) →
      vectors.length = (recordsForEvent ev stamp).length →
      (∀ v ∈ vectors, v.length = embeddingDim) →
      (store config ev ((recordsForEvent ev stamp).zip vectors)).wp
        (handlerMachine around kept) (Prog.Ends kept fun _ after =>
          kept { after with streak := 0 } ∧ kept after ∧ good .indexed { after with streak := 0 })
        w) :
    (handleEvent config ev value).wp (handlerMachine around kept) (Prog.Ends kept good) w := by
  have here : kept w := free w.producer w.streak
  refine Prog.wp_seq (fun _ after => w = after) (wp_quiet trivial here fun _ _ => rfl) ?_
  rintro stamp _ rfl
  by_cases none' : recordsForEvent ev stamp = []
  · simp only [if_pos none']
    exact Prog.wp_seq (fun _ => good .blank) (blank stamp none') fun _ _ holds => holds
  simp only [if_neg none']
  refine Prog.wp_seq (fun result after => (∀ answer, result = some answer →
      around.encodes ((recordsForEvent ev stamp).map VectorRecord.text) answer) ∧ w = after)
    (wp_encodeFrom here _ _ (fun _ => ⟨fun _ made => absurd made.symm (Option.some_ne_none _), rfl⟩)
      fun answer made => ⟨fun _ same => Option.some.inj same ▸ made, rfl⟩) ?_
  rintro result _ ⟨made, rfl⟩
  rcases result with _ | exn | vectors
  · exact here
  · refine Prog.wp_seq (fun streak after => good (leave (exhaustedError config exn) streak
      .exhausted) after) ?_ fun _ _ holds => holds
    exact wp_deadLetter (fun p => free p w.streak) fun p now synced =>
      exhausted stamp exn p now (made _ rfl) synced
  · show (index config _ _ vectors).wp _ _ _
    unfold index
    by_cases same : vectors.length = (recordsForEvent ev stamp).length
    · rw [if_neg (not_not.mpr same)]
      cases wrong : vectors.find? fun v => decide (v.length ≠ embeddingDim) with
      | some v => exact here
      | none =>
        have dims : ∀ v ∈ vectors, v.length = embeddingDim := by
          intro v member
          have right := List.find?_eq_none.mp wrong v member
          simpa using right
        refine Prog.wp_seq (fun _ after => kept { after with streak := 0 } ∧ kept after ∧
          good .indexed { after with streak := 0 }) (indexed stamp vectors none' (made _ rfl) same dims) ?_
        rintro _ after ⟨reset, still, holds⟩
        refine Prog.wp_seq (fun _ last => last = { after with streak := 0 })
          (wp_set still rfl) ?_
        rintro _ _ rfl
        refine Prog.wp_seq (fun _ last => last = { after with streak := 0 })
          (wp_quiet trivial reset fun _ _ => rfl) ?_
        rintro _ _ rfl
        exact holds
    · rw [if_pos same]
      exact here

theorem wp_handleEvent {ev : Event} {value : String} {good : Leaving → World → Prop}
    (free : ∀ p n, kept { w with producer := p, streak := n })
    (blank : ∀ stamp, recordsForEvent ev stamp = [] →
      (ensureIncident ev).wp (handlerMachine around kept) (Prog.Ends kept fun _ => good .blank) w)
    (exhausted : ∀ stamp exn p now,
      around.encodes ((recordsForEvent ev stamp).map VectorRecord.text) (.error exn) →
      Synced (envelope config (exhaustedError config exn) value now) w.producer p →
      good (leave (exhaustedError config exn) (w.streak + 1) .exhausted)
        { w with producer := p, streak := w.streak + 1 })
    (indexed : ∀ stamp vectors, recordsForEvent ev stamp ≠ [] →
      vectors.length = (recordsForEvent ev stamp).length →
      (∀ v ∈ vectors, v.length = embeddingDim) →
      (store config ev ((recordsForEvent ev stamp).zip vectors)).wp
        (handlerMachine around kept) (Prog.Ends kept fun _ after =>
          kept { after with streak := 0 } ∧ kept after ∧ good .indexed { after with streak := 0 })
        w) :
    (handleEvent config ev value).wp (handlerMachine around kept) (Prog.Ends kept good) w :=
  wp_handleEvent_encoded free blank exhausted fun stamp vectors full _ => indexed stamp vectors full

/-- The message is an event. -/
def Parsed (around : Surroundings) (value : String) (ev : Event) : Prop :=
  ∃ fields newId now, around.validate value = .ok fields ∧ ev = fields.event newId now

/-- **A message is a dead letter or an event.** -/
theorem wp_handle {value : String} {good : Leaving → World → Prop}
    (free : ∀ p, kept { w with producer := p })
    (malformed : ∀ error p now, around.validate value = .error error →
      Synced (envelope config (config.str (.exception error)) value now) w.producer p →
      good .malformed { w with producer := p, streak := 0 })
    (event : ∀ ev, Parsed around value ev →
      (handleEvent config ev value).wp (handlerMachine around kept) (Prog.Ends kept good) w) :
    (handle config value).wp (handlerMachine around kept) (Prog.Ends kept good) w := by
  have here : kept w := free w.producer
  refine Prog.wp_seq (fun answer after =>
    answer = (around.validate value).mapError .exception ∧ w = after) (Prog.wp_try ?_) ?_
  · refine (@Prog.wp_perform handlerSig Exn World _ (.inr _) _ w).mpr ⟨here, ?_⟩
    exact fun answer after step => ⟨step.1, step.2.symm⟩
  rintro answer _ ⟨rfl, rfl⟩
  cases valid : around.validate value with
  | error error =>
    refine Prog.wp_seq (fun streak after => streak = 0 ∧ good .malformed after) ?_ ?_
    · exact wp_deadLetter free fun p now synced => ⟨rfl, malformed error p now valid synced⟩
    · rintro _ after ⟨rfl, holds⟩
      exact holds
  | ok fields =>
    refine Prog.wp_seq (fun _ after => w = after) (wp_quiet trivial here fun _ _ => rfl) ?_
    rintro newId _ rfl
    refine Prog.wp_seq (fun _ after => w = after) (wp_quiet trivial here fun _ _ => rfl) ?_
    rintro now _ rfl
    exact event _ ⟨fields, newId, now, valid, rfl⟩

end Rules

/-! ### A worker none of whose calls is in the way -/

/-- The database, the clock and the producer do what they are asked; the encoder answers as it is
told to. -/
def calmWorker (validate : String → Except String Fields)
    (encode : List (List Char) → Except Exn (List Embedding)) :
    (op : WorkerOp) → World → Except Exn op.Ans × World
  | .modelValidateJson value, w => ((validate value).mapError .exception, w)
  | .newId, w => (.ok "", w)
  | .utcnow, w => (.ok w.clock, w)
  | .encode texts, w => (encode texts, w)
  | .sleep _, w => (.ok (), w)
  | .execute statement, w =>
    (.ok (w.index.answer w.clock statement), w.exec w.clock statement)
  | .deadletters, w => (.ok w.streak, w)
  | .setDeadletters count, w => (.ok (), { w with streak := count })
  | .beat, w => (.ok (), w)

def calmHandler (validate : String → Except String Fields)
    (encode : List (List Char) → Except Exn (List Embedding)) :
    (op : handlerSig.Op) → World → Except Exn (handlerSig.Ans op) × World
  | .inl op, w => ((calmClient op w.producer).1, { w with producer := (calmClient op w.producer).2 })
  | .inr op, w => calmWorker validate encode op w

theorem handlerStep_calm {around : Surroundings}
    {encode : List (List Char) → Except Exn (List Embedding)}
    (encodes : ∀ texts, around.encodes texts (encode texts)) (op : handlerSig.Op) (w : World) :
    handlerStep around op w (calmHandler around.validate encode op w).1
      (calmHandler around.validate encode op w).2 := by
  cases op with
  | inl op => exact ⟨clientStep_calm op w.producer, rfl⟩
  | inr op =>
    cases op with
    | modelValidateJson value => exact ⟨rfl, rfl⟩
    | newId => exact ⟨⟨"", rfl⟩, rfl⟩
    | utcnow => exact ⟨⟨w.clock, rfl⟩, rfl⟩
    | encode texts => exact ⟨encodes texts, rfl⟩
    | sleep attempt => exact ⟨rfl, rfl⟩
    | execute statement => exact ⟨w, w.clock, .none w, Int.le_refl _, rfl, rfl⟩
    | deadletters => exact ⟨rfl, rfl⟩
    | setDeadletters count => exact ⟨rfl, rfl⟩
    | beat => exact rfl

/-- An index without rows. -/
def Index.empty : Index := ⟨∅, ∅, ∅, ∅, ∅⟩

theorem keyed_empty : Index.empty.WellKeyed := by
  intro key row found
  cases found

end Freshet.Pipeline
