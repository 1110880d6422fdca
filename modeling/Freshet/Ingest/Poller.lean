/-
**The poller**: `ConditionalCache`, `poll_once` and `run`, call by call.

The pages of a sweep are fetched by threads that share the validators and the backoff. A page's
program (`one`) makes calls of its own kind (`PageOp`), `poll_once` runs these programs
interleaved, and `run` adds the cache file, the clock and the buffered producer. A validator
carries the response it was taken from; that is history, and no call answers with it.
-/

import Freshet.Ingest.Backoff
import Freshet.Lib.Interleave

namespace Freshet.Ingest

open Freshet.Lib Freshet.Kafka

/-- `registry.Page`. -/
structure Page where
  provider : String
  url : String
deriving DecidableEq, Repr

/-- What `fetch` returns; the body is none for a 304. -/
structure Response where
  status : Nat
  headers : Dict String String
  body : Option String
deriving DecidableEq, Repr

/-- A body and the provider it is parsed for. -/
structure Source where
  provider : String
  body : String
deriving DecidableEq, Repr

/-- A remembered ETag or Last-Modified, and the response it came with. -/
structure Validator where
  value : String
  source : Source
deriving DecidableEq, Repr

/-- What `save` dumps and `_load` reads. -/
structure CacheFile where
  etag : Dict String Validator := []
  modified : Dict String Validator := []
  backoff : SavedBackoff := {}
deriving DecidableEq, Repr

/-- What the poller's code leaves open: the standard library, the adapter, and whether the cache
file is enabled. -/
structure Env where
  library : Library
  parseAtom : String → String → Except Exn (List IncidentUpdate)
  persistent : Bool := true

/-! ### Operations -/

/-- What a page's thread calls: the backoff, the network, and the two maps of validators. -/
inductive PageOp
  | skip (url : String)
  | fetch (url : String) (headers : Dict String String)
  | failed (url : String) (retryAfter : Option Rat)
  | succeeded (url : String)
  | getEtag (url : String)
  | getModified (url : String)
  | setEtag (url value : String) (source : Source)
  | setModified (url value : String) (source : Source)
deriving DecidableEq, Repr

abbrev PageOp.Ans : PageOp → Type
  | skip _ => Bool
  | fetch _ _ => Response
  | getEtag _ => Option String
  | getModified _ => Option String
  | _ => Unit

abbrev pageSig : Sig := ⟨PageOp, PageOp.Ans⟩

/-- What `run` calls besides the producer: construction, the cache file, the clock. -/
inductive RunOp
  | newCache
  | pathExists
  | readCache
  | setEtags (items : Dict String Validator)
  | setModifieds (items : Dict String Validator)
  | setSaved (saved : SavedBackoff)
  | newBackoff
  | restoreBackoff
  | newProducer
  | monotonic
  | sleep
  | snapshotBackoff
  | makedirs
  | openTmp
  | dumpTmp
  | replace
deriving DecidableEq, Repr

abbrev RunOp.Ans : RunOp → Type
  | pathExists => Bool
  | readCache => CacheFile
  | monotonic => Rat
  | _ => Unit

abbrev runSig : Sig := ⟨RunOp, RunOp.Ans⟩

abbrev pollerSig : Sig := pageSig.tagged.sum (runSig.sum clientSig)

abbrev Fetching (α : Type) := Prog pageSig Exn α

abbrev Polling (α : Type) := Prog pollerSig Exn α

abbrev page (op : PageOp) : Fetching op.Ans := @Prog.perform pageSig Exn op

abbrev step (op : RunOp) : Polling op.Ans := @Prog.perform pollerSig Exn (.inr (.inl op))

/-- A method of the producer. -/
abbrev producing {α : Type} (program : Prog clientSig Exn α) : Polling α := program.inr.inr

/-! ### One page -/

def userAgent : String := "freshet/2.0 (+https://github.com/KrasiKirov/freshet)"

/-- A header whose value is neither missing nor empty. -/
def truthy (value : Option String) : Option String := value.filter (· ≠ "")

/-- `if value := …: headers[name] = value`. -/
def withHeader (name : String) (value : Option String) (headers : Dict String String) :
    Dict String String :=
  match truthy value with
  | some value => headers.set name value
  | none => headers

/-- `ConditionalCache.headers_for`. -/
def headersFor (url : String) : Fetching (Dict String String) := do
  let etag ← page (.getEtag url)
  let since ← page (.getModified url)
  pure (withHeader "If-Modified-Since" since (withHeader "If-None-Match" etag
    [("User-Agent", userAgent), ("Accept-Encoding", "gzip")]))

/-- `if value := …: action(value)`. -/
def whenTruthy (value : Option String) (action : String → Fetching Unit) : Fetching Unit :=
  match truthy value with
  | some value => action value
  | none => pure ()

/-- `ConditionalCache.remember`. -/
def remember (url : String) (headers : Dict String String) (source : Source) : Fetching Unit := do
  whenTruthy (headers.get "ETag") fun etag => page (.setEtag url etag source)
  whenTruthy (headers.get "Last-Modified") fun modified => page (.setModified url modified source)

/-- `exc.seconds if isinstance(exc, RetryAfter) else None`. -/
def retryAfterOf : Exn → Option Rat
  | .retryAfter seconds => some seconds
  | _ => none

/-- The argument of `fetch` and the call. -/
def fetchPage (url : String) : Fetching Response := do
  let headers ← headersFor url
  page (.fetch url headers)

/-- What a response that came is good for. -/
def accept (env : Env) (pg : Page) (response : Response) : Fetching (List IncidentUpdate) :=
  match truthy response.body with
  | none => pure []
  | some body =>
    if response.status = 304 then pure []
    else match env.parseAtom pg.provider body with
      | .error _ => pure []
      | .ok [] => pure []
      | .ok (first :: rest) => do
        remember pg.url response.headers ⟨pg.provider, body⟩
        pure (first :: rest)

/-- `poll_once.one`. -/
def one (env : Env) (pg : Page) : Fetching (List IncidentUpdate) := do
  if ← page (.skip pg.url) then pure []
  else do
    match ← (fetchPage pg.url).attempt with
    | .error exn => do
      page (.failed pg.url (retryAfterOf exn))
      pure []
    | .ok response => do
      page (.succeeded pg.url)
      accept env pg response

/-! ### One sweep -/

/-- `updates.sort(key=lambda u: u.created_at)`. -/
def sortByCreated (updates : List IncidentUpdate) : List IncidentUpdate :=
  updates.mergeSort fun first second => first.createdAt ≤ second.createdAt

/-- `poll_once`, its threads interleaved as the schedule says. -/
def pollOnce (env : Env) (pages : List Page) (schedule : List Nat) :
    Prog pageSig.tagged Exn (List IncidentUpdate) := do
  let outcomes ← Prog.interleave schedule (pages.map (one env))
  let found ← Prog.collect outcomes
  pure (sortByCreated found.flatten)

/-! ### The process -/

/-- The body of the `try` in `_load`. -/
def restore : Polling Unit := do
  let file ← step .readCache
  step (.setEtags file.etag)
  step (.setModifieds file.modified)
  step (.setSaved file.backoff)

/-- `ConditionalCache._load`. -/
def load (env : Env) : Polling Unit :=
  if env.persistent then do
    if ← step .pathExists then do
      let _ ← restore.attempt
      pure ()
    else pure ()
  else pure ()

/-- The body of the `try` in `save`. -/
def persist : Polling Unit := do
  step .makedirs
  step .openTmp
  step .dumpTmp
  step .replace

/-- `ConditionalCache.save`. -/
def save (env : Env) : Polling Unit :=
  if env.persistent then do
    step .snapshotBackoff
    let _ ← persist.attempt
    pure ()
  else pure ()

/-- `for update in …: producer.produce(…)`. -/
def produceAll (library : Library) : List IncidentUpdate → Polling Unit
  | [] => pure ()
  | update :: rest => do
    producing (BufferedProducer.produce (recordOf library update))
    produceAll library rest

/-- One pass of the `while` loop: poll, produce, flush, save. -/
def sweep (env : Env) (pages : List Page) (schedule : List Nat) : Polling Nat := do
  let _ ← step .monotonic
  let updates ← Prog.inl (pollOnce env pages schedule)
  produceAll env.library updates
  producing BufferedProducer.flushChecked
  save env
  let _ ← step .monotonic
  pure updates.length

/-- `max_sweeps is None or sweeps < max_sweeps`. -/
def more (maxSweeps : Option Int) (sweeps : Nat) : Bool :=
  maxSweeps.all fun limit => (sweeps : Int) < limit

/-- The sleep after a sweep that is not the last. -/
def pause (maxSweeps : Option Int) (sweeps : Nat) : Polling Unit :=
  if more maxSweeps sweeps then step .sleep else pure ()

/-- The `while` loop, for a number of turns; `none` when they are used up. -/
def sweepAll (env : Env) (pages : List Page) (maxSweeps : Option Int)
    (schedules : Nat → List Nat) : Nat → Nat → Nat → Polling (Option Nat)
  | 0, _, _ => pure none
  | fuel + 1, produced, sweeps =>
    if more maxSweeps sweeps then do
      let swept ← sweep env pages (schedules sweeps)
      pause maxSweeps (sweeps + 1)
      sweepAll env pages maxSweeps schedules fuel (produced + swept) (sweeps + 1)
    else pure (some produced)

/-- **`run`.** -/
def run (env : Env) (pages : List Page) (maxSweeps : Option Int) (schedules : Nat → List Nat)
    (fuel : Nat) : Polling (Option Nat) := do
  step .newCache
  load env
  step .newBackoff
  step .restoreBackoff
  step .newProducer
  step .sleep
  sweepAll env pages maxSweeps schedules fuel 0 0

/-! ### The world -/

/-- The process's memory, the cache file with its temporary sibling, and what the broker has
acknowledged to producers of earlier lives. A file that cannot be read counts as none. -/
structure World where
  etag : Dict String Validator := []
  modified : Dict String Validator := []
  saved : SavedBackoff := {}
  backoff : HostBackoff := {}
  tmp : Option CacheFile := none
  disk : Option CacheFile := none
  producer : Producer := {}
  acknowledged : List Record := []
deriving DecidableEq, Repr

/-- What one call of a page's thread answers and does. -/
def pageStep (env : Env) : (op : PageOp) → World → Except Exn op.Ans → World → Prop
  | .skip url, w, answer, after =>
    after = w ∧ ∀ skipped, answer = .ok skipped →
      ∃ now, skipped = w.backoff.skip env.library now url
  | .fetch _ _, w, _, after => after = w
  | .failed url seconds, w, _, after =>
    ∃ now, after = { w with backoff := (w.backoff.failed env.library now url seconds).2 }
  | .succeeded url, w, _, after => after = { w with backoff := w.backoff.succeeded env.library url }
  | .getEtag url, w, answer, after =>
    after = w ∧ answer = .ok ((w.etag.get url).map Validator.value)
  | .getModified url, w, answer, after =>
    after = w ∧ answer = .ok ((w.modified.get url).map Validator.value)
  | .setEtag url value source, w, answer, after =>
    answer = .ok () ∧ after = { w with etag := w.etag.set url ⟨value, source⟩ }
  | .setModified url value source, w, answer, after =>
    answer = .ok () ∧ after = { w with modified := w.modified.set url ⟨value, source⟩ }

/-- What one call of the process answers and does. A file operation that raises may leave the
temporary file unreadable; `os.replace` happens as a whole or not at all. -/
def runStep : (op : RunOp) → World → Except Exn op.Ans → World → Prop
  | .newCache, w, _, after => after = { w with etag := [], modified := [], saved := {} }
  | .pathExists, w, _, after => after = w
  | .readCache, w, answer, after => after = w ∧ ∀ file, answer = .ok file → w.disk = some file
  | .setEtags items, w, answer, after =>
    after = { w with etag := items } ∨ (answer ≠ .ok () ∧ after = w)
  | .setModifieds items, w, answer, after =>
    after = { w with modified := items } ∨ (answer ≠ .ok () ∧ after = w)
  | .setSaved saved, w, answer, after =>
    after = { w with saved } ∨ (answer ≠ .ok () ∧ after = w)
  | .newBackoff, w, _, after => after = { w with backoff := {} }
  | .restoreBackoff, w, _, after =>
    ∃ now wall, after = { w with backoff := w.backoff.restore now wall w.saved }
  | .newProducer, w, answer, after =>
    after = { w with
      producer := {}, acknowledged := w.producer.acked.map Prod.snd ++ w.acknowledged } ∨
      (answer ≠ .ok () ∧ after = w)
  | .monotonic, w, _, after => after = w
  | .sleep, w, _, after => after = w
  | .snapshotBackoff, w, _, after =>
    ∃ now wall, after = { w with saved := w.backoff.snapshot now wall }
  | .makedirs, w, _, after => after = w
  | .openTmp, w, answer, after =>
    after = { w with tmp := none } ∨ (answer ≠ .ok () ∧ after = w)
  | .dumpTmp, w, answer, after =>
    after = { w with tmp := some ⟨w.etag, w.modified, w.saved⟩ } ∨
      (answer ≠ .ok () ∧ after = { w with tmp := none })
  | .replace, w, answer, after =>
    after = { w with disk := w.tmp, tmp := none } ∨ (answer ≠ .ok () ∧ after = w)

/-- What one call of `run` itself answers and does. -/
def processStep : (op : (runSig.sum clientSig).Op) → World →
    Except Exn ((runSig.sum clientSig).Ans op) → World → Prop
  | .inl op, w, answer, after => runStep op w answer after
  | .inr op, w, answer, after =>
    ∃ producer, clientStep op w.producer answer producer ∧ after = { w with producer }

/-- What one call of the poller answers and does. -/
def pollerStep (env : Env) :
    (op : pollerSig.Op) → World → Except Exn (pollerSig.Ans op) → World → Prop
  | .inl op, w, answer, after => pageStep env op.2 w answer after
  | .inr op, w, answer, after => processStep op w answer after

end Freshet.Ingest
