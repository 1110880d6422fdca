/-
**The agent that answers questions in the threads of briefs.**

`pollThreads` reads the open threads, asks for an answer to every new reply of a person, posts it and
moves the thread's marker. Every statement, every call of Slack and every answer is an operation that
may raise. `poll` is the same with `answer_question` in the place of the answers; its parts (the clock,
retrieval, the incident's updates and the composer) are operations of their own, and `infer_window` is
`inferWindow`.
-/

import Freshet.Lib.Interpret
import Freshet.Rag.Evidence
import Freshet.Rag.Timeframe
import Mathlib.Data.String.Basic

namespace Freshet.Autopilot.ThreadAgent

open Freshet.Lib Freshet.Rag.Timeframe

/-! ### Messages -/

/-- Exceptions, as far as they are told apart, with what `str` shows of each. -/
inductive Exn
  | budgetExhausted (text : List Char)
  | rateLimited (text : List Char)
  | exception (text : List Char)
deriving DecidableEq, Repr

def Exn.str : Exn → List Char
  | budgetExhausted text => text
  | rateLimited text => text
  | exception text => text

structure Message where
  ts : String
  text : Option (List Char)
  botId : Option String
  subtype : Option String
deriving DecidableEq, Repr

/-- Whether a field is there and not empty. -/
def present (field : Option String) : Bool := field.any fun text => text ≠ ""

/-- `is_human_reply`. -/
def isHumanReply (message : Message) (threadTs : String) : Bool :=
  if present message.botId || present message.subtype then false
  else if message.ts = threadTs then false
  else !(strip (message.text.getD [])).isEmpty

/-- `_is_rate_limit`. -/
def isRateLimit (exn : Exn) : Bool :=
  "ratelimited".toList <:+: exn.str || "429".toList <:+: exn.str

/-- A row of `_OPEN_THREADS_SQL`. -/
structure OpenThread where
  incidentId : String
  slackTs : String
  seenTs : Option String
  channel : String
deriving DecidableEq, Repr

/-! ### Answers -/

structure SearchResult where
  hits : List Rag.Evidence.Hit
  abstained : Bool

/-- What `answer_question` calls. -/
inductive QuestionOp
  | utcnow
  | search (question : List Char) (since : Option Int)
  | updates (incidentId : String)
  | compose (question : List Char) (evidence : List Rag.Evidence.Hit)

abbrev QuestionOp.Ans : QuestionOp → Type
  | utcnow => Ingest.DateTime
  | search _ _ => SearchResult
  | updates _ => List Rag.Evidence.Hit
  | compose _ _ => Option (List Char)

abbrev questionSig : Sig := ⟨QuestionOp, QuestionOp.Ans⟩

abbrev Asking (α : Type) := Prog questionSig Exn α

abbrev consult (op : QuestionOp) : Asking op.Ans := @Prog.perform questionSig Exn op

def abstainReply : List Char :=
  "I don't have enough relevant indexed evidence to answer that confidently.".toList

def noEvidence : List Char := "I don't have enough indexed evidence to answer that.".toList

/-- `_with_window`. -/
def withWindow (answer : List Char) : Option (List Char) → List Char
  | none => answer
  | some [] => answer
  | some window =>
    answer ++ "\n\n_time filter: ".toList ++ window ++ " (inferred from your question)_".toList

/-- What `infer_window` raises. -/
def inferred {α : Type} : Except Raised α → Asking α
  | .ok window => .ret window
  | .error .valueError => .raise (.exception "Exceeds the limit for integer string conversion".toList)
  | .error .daysOutOfRange => .raise (.exception "days must have magnitude <= 999999999".toList)
  | .error .dateOutOfRange => .raise (.exception "date value out of range".toList)

/-- `_thread_evidence`, where there is an incident. -/
def threadEvidence (incidentId : String) : Asking (List Rag.Evidence.Hit) :=
  if incidentId = "" then pure []
  else do
    let updates ← consult (.updates incidentId)
    pure (updates.take 8)

/-- The thread's evidence, and behind it what retrieval found besides. -/
def merged (evidence : List Rag.Evidence.Hit) (result : SearchResult) : List Rag.Evidence.Hit :=
  if result.abstained then evidence
  else evidence ++ result.hits.filter fun hit =>
    !(evidence.map Rag.Evidence.Hit.eventId).contains hit.eventId

/-- From the evidence to the reply. -/
def reply (question : List Char) (evidence : List Rag.Evidence.Hit) (window : Option (List Char)) :
    Asking (List Char) :=
  if evidence.isEmpty then pure (withWindow abstainReply window)
  else do
    let answer ← consult (.compose question evidence)
    match answer with
    | none => pure (withWindow noEvidence window)
    | some [] => pure (withWindow noEvidence window)
    | some answer => pure (withWindow answer window)

/-- **`answer_question`.** -/
def answerQuestion (py : Interpreter) (question : List Char) (incidentId : String) :
    Asking (List Char) := do
  let now ← consult .utcnow
  let window ← inferred (inferWindow py (question.take maxQuestionChars) now)
  let result ← consult (.search (question.take maxQuestionChars) (window.map Prod.fst))
  let evidence ← threadEvidence incidentId
  reply (question.take maxQuestionChars) (merged evidence result) (window.map Prod.snd)

/-! ### Polls -/

/-- What `poll_threads` calls. The question is `asking`'s text; which message is answered by a post is
history. -/
inductive Op
  | openThreads (channel : String) (limit : Int)
  | replies (channel ts oldest : String)
  | answer (asking : Message) (incidentId : String)
  | post (answering : Message) (channel threadTs : String) (text : List Char)
  | markSeen (newest incidentId : String)

abbrev Op.Ans : Op → Type
  | openThreads _ _ => List OpenThread
  | replies _ _ _ => Option (List Message)
  | answer _ _ => List Char
  | post _ _ _ _ => Unit
  | markSeen _ _ => Unit

abbrev sig : Sig := ⟨Op, Op.Ans⟩

abbrev Polling (α : Type) := Prog sig Exn α

abbrev ask (op : Op) : Polling op.Ans := @Prog.perform sig Exn op

/-- How a thread's messages are left: on to the next thread, or out of the poll. -/
inductive Control
  | next (posted : ℕ)
  | done (posted : ℕ)
deriving DecidableEq, Repr

/-- `seen_ts and message["ts"] <= seen_ts`. -/
def answered (seen : Option String) (ts : String) : Bool :=
  present seen && seen.any fun seen => ts ≤ seen

/-- `message["ts"] if not newest else max(newest, message["ts"])`. -/
def newer (newest : Option String) (ts : String) : String :=
  if present newest then max (newest.getD "") ts else ts

/-- What is done when a call of Slack fails: a rate limit ends the poll. -/
def unlessLimited {α : Type} (exn : Exn) (otherwise : Polling α) : Polling α :=
  if isRateLimit exn then .raise (.rateLimited exn.str) else otherwise

/-- The loop over a thread's messages. -/
def answerMessages (thread : OpenThread) :
    List Message → (seen newest : Option String) → ℕ → Polling Control
  | [], _, _, posted => pure (.next posted)
  | message :: later, seen, newest, posted =>
    if !isHumanReply message thread.slackTs then answerMessages thread later seen newest posted
    else if answered seen message.ts then answerMessages thread later seen newest posted
    else do
      match ← (ask (.answer message thread.incidentId)).attempt with
      | .error (.budgetExhausted _) => pure (.done posted)
      | .error exn => .raise exn
      | .ok text =>
        match ← (ask (.post message thread.channel thread.slackTs text)).attempt with
        | .error exn => unlessLimited exn (pure (.next posted))
        | .ok _ => do
          ask (.markSeen (newer newest message.ts) thread.incidentId)
          answerMessages thread later (some (newer newest message.ts))
            (some (newer newest message.ts)) (posted + 1)

/-- `seen_ts or thread_ts`. -/
def oldest (thread : OpenThread) : String :=
  if present thread.seenTs then thread.seenTs.getD "" else thread.slackTs

/-- The loop over the threads. -/
def answerThreads : List OpenThread → ℕ → Polling ℕ
  | [], posted => pure posted
  | thread :: later, posted => do
    match ← (ask (.replies thread.channel thread.slackTs (oldest thread))).attempt with
    | .error exn => unlessLimited exn (answerThreads later posted)
    | .ok messages =>
      match ← answerMessages thread (messages.getD []) thread.seenTs thread.seenTs posted with
      | .done posted => pure posted
      | .next posted => answerThreads later posted

/-- **`poll_threads`.** -/
def pollThreads (channel : String) (limit : Int) : Polling ℕ := do
  let threads ← ask (.openThreads channel limit)
  answerThreads threads 0

/-- The calls of a poll and those of its answers. -/
abbrev pollSig : Sig := sig.sum questionSig

/-- What each operation runs. -/
def run (py : Interpreter) : (op : sig.Op) → Prog pollSig Exn (sig.Ans op)
  | .openThreads channel limit => @Prog.perform pollSig Exn (.inl (.openThreads channel limit))
  | .replies channel ts oldest => @Prog.perform pollSig Exn (.inl (.replies channel ts oldest))
  | .answer asking incidentId => (answerQuestion py (asking.text.getD []) incidentId).inr
  | .post answering channel threadTs text =>
    @Prog.perform pollSig Exn (.inl (.post answering channel threadTs text))
  | .markSeen newest incidentId => @Prog.perform pollSig Exn (.inl (.markSeen newest incidentId))

/-- **`poll_threads` with its answers.** -/
def poll (py : Interpreter) (channel : String) (limit : Int) : Prog pollSig Exn ℕ :=
  (pollThreads channel limit).interpret (run py)

end Freshet.Autopilot.ThreadAgent
