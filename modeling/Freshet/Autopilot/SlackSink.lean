/-
**`SlackSink.deliver`.**

A brief is rendered twice, as blocks and as the text of the notification, and posted with up to three
tries. Slack may have taken a post that failed, so a delivery may leave up to three copies of one
message, never two different ones (`deliver_posts`). Where a failed post has left nothing and every
answer names its `ts`, a delivery does what the consumer's runs assume of a sink
(`deliver_meets_calls`): one post if it returns, none if it raises.
-/

import Freshet.Autopilot.Brief
import Freshet.Autopilot.Effects
import Freshet.Autopilot.Mrkdwn
import Freshet.Lib.Retry
import Mathlib.Tactic.Ring

namespace Freshet.Autopilot.Slack

open Freshet.Lib

/-! ### Rendering -/

/-- `brief.Findings`. -/
structure Brief where
  service : List Char
  status : List Char
  causeText : Option (List Char)
  causeCite : Option (List Char)
  fixText : Option (List Char)
  fixCite : Option (List Char)
  runbook : Option (List Char)
  narrative : Option (List Char)
  metaLine : Option (List Char) := none
  impact : Option (List Char) := none
  updates : List (List Char) := []
  recurrence : Option (List Char) := none
deriving DecidableEq

/-- `if text`. -/
def given (text : Option (List Char)) : Option (List Char) := text.filter (· ≠ [])

/-- What an f-string shows. -/
def shown (text : Option (List Char)) : List Char := text.getD "None".toList

/-- `render_brief`. -/
def renderBrief (f : Brief) : List Char :=
  let title :=
    if f.status = "resolved".toList then "POSTMORTEM"
    else if f.status = "in_progress".toList then "INCIDENT UPDATE"
    else "INCIDENT BRIEF"
  let status := if f.status = "in_progress".toList then "in progress".toList else f.status
  let narrated := (given f.narrative).isSome
  let lines :=
    ["=== ".toList ++ title.toList ++ " — ".toList ++ f.service ++ " (".toList ++ status ++ ") ===".toList] ++
    (match given f.narrative with
      | some narrative => [[], narrative, []]
      | none => []) ++
    (match given f.causeText with
      | some cause => ["Cause: ".toList ++ cause ++ " — ".toList ++ shown f.causeCite]
      | none => if narrated then [] else ["Cause: not identified from retrieved evidence".toList]) ++
    (match given f.fixText with
      | some fix => ["Resolution: ".toList ++ fix ++ " — ".toList ++ shown f.fixCite]
      | none => if narrated then [] else ["Resolution: not identified from retrieved evidence".toList]) ++
    (given f.recurrence).toList ++
    (if f.updates = [] then [] else "Updates:".toList :: f.updates.map fun line => "  ".toList ++ line) ++
    ((given f.runbook).map fun runbook => "Runbook: ".toList ++ runbook).toList ++
    (given f.metaLine).toList ++
    (given f.impact).toList
  ['\n'].intercalate lines

/-- `_EMOJI`. -/
def emojis : List (String × String) :=
  [("open", "🔴"), ("investigating", "🔴"), ("identified", "🔴"), ("monitoring", "🟠"),
    ("in_progress", "🟠"), ("in progress", "🟠"), ("resolved", "🟢"), ("postmortem", "🟢")]

/-- `_emoji`. -/
def emoji (unicode : Unicode) (status : List Char) : List Char :=
  ((emojis.lookup (String.ofList (unicode.lower status))).getD "🔴").toList

/-- `_STATUS_LABELS.get(status, status)`. -/
def statusLabel (status : List Char) : List Char :=
  if status = "in_progress".toList then "in progress".toList else status

/-- A block of Slack's Block Kit. -/
inductive Block
  | header (plainText : List Char)
  | section (mrkdwn : List Char)
  | context (mrkdwn : List Char)
deriving DecidableEq

/-- `slack_blocks`. -/
def slackBlocks (unicode : Unicode) (f : Brief) : List Block :=
  let body := match given f.narrative with
    | some narrative => narrative
    | none =>
      let cause := match given f.causeText with
        | some cause => "*Cause:* ".toList ++ cause ++ " `".toList ++ shown f.causeCite ++ ['`']
        | none => "*Cause:* not identified from retrieved evidence".toList
      let resolution := match given f.fixText with
        | some fix => "*Resolution:* ".toList ++ fix ++ " `".toList ++ shown f.fixCite ++ ['`']
        | none => "*Resolution:* not identified from retrieved evidence".toList
      cause ++ '\n' :: resolution
  let parts := (given f.metaLine).toList ++ (given f.impact).toList ++
    ((given f.runbook).map fun runbook => "Runbook: ".toList ++ runbook).toList
  [.header (emoji unicode f.status ++ ' ' :: f.service ++ " — ".toList ++ statusLabel f.status),
    .section (Mrkdwn.toMrkdwn body)] ++
    if parts = [] then [] else [.context (['\n'].intercalate parts)]

/-! ### The sink -/

/-- The arguments of `chat_postMessage`. -/
structure Message where
  channel : String
  text : List Char
  blocks : List Block
  threadTs : Option String
deriving DecidableEq

/-- What of a response is read. -/
structure Response where
  channel : Option String
  ts : Option String

/-- What `deliver` calls. `remember` sets `last_channel_id`, `print` shows a dry run. -/
inductive SinkOp
  | webClient
  | post (message : Message)
  | remember (channelId : String)
  | sleep (seconds : ℕ)
  | print (message : Message)

abbrev SinkOp.Ans : SinkOp → Type
  | post _ => Option Response
  | _ => Unit

abbrev sinkSig : Sig := ⟨SinkOp, SinkOp.Ans⟩

abbrev Sinking (α : Type) := Prog sinkSig Exn α

abbrev call (op : SinkOp) : Sinking op.Ans := @Prog.perform sinkSig Exn op

/-- `SlackSink`; it has a client of its own in tests only. -/
structure SlackSink where
  channel : String
  dryRun : Bool := false
  hasClient : Bool := false

def maxAttempts : ℕ := 3

def retryBaseS : ℕ := 2

/-- `self.last_channel_id = resp.get("channel") or self.last_channel_id`. -/
def keepChannel (resp : Response) : Sinking Unit :=
  match resp.channel.filter (· ≠ "") with
  | some channelId => call (.remember channelId)
  | none => pure ()

/-- The body of the `try`. -/
def post (message : Message) : Sinking (Option String) := do
  match ← call (.post message) with
  | none => pure none
  | some resp => do
    keepChannel resp
    match resp.ts with
    | some ts => pure (some ts)
    | none => .raise (.error "'ts'")

/-- The message of a delivery. -/
def SlackSink.message (sink : SlackSink) (unicode : Unicode) (findings : Brief)
    (thread : Option String) : Message :=
  ⟨sink.channel, renderBrief findings, slackBlocks unicode findings, thread⟩

/-- `WebClient(token=self._token)`, imported only here. -/
def SlackSink.makeClient (sink : SlackSink) : Sinking Unit :=
  if sink.hasClient then pure () else call .webClient

/-- **`deliver`.** -/
def SlackSink.deliver (sink : SlackSink) (unicode : Unicode) (findings : Brief)
    (thread : Option String) : Sinking (Option String) :=
  if sink.dryRun then do
    call (.print (sink.message unicode findings thread))
    pure none
  else do
    sink.makeClient
    Prog.retry (fun _ => true) (fun attempt => call (.sleep (retryBaseS * attempt))) (· + 1)
      (post (sink.message unicode findings thread)) (maxAttempts - 1) 1

/-! ### The channel -/

/-- What Slack has, newest first, and history: the tries and the seconds slept. -/
structure Channel where
  posts : List Message
  lastChannelId : Option String := none
  tries : ℕ := 0
  slept : ℕ := 0

/-- **What the calls do.** A post that fails may have been taken; if `reliable` it was not, and an answer
names the message. -/
def slack (reliable : Prop) : Machine sinkSig Exn Channel where
  safe _ _ := True
  step
    | .post message, s, answer, after => match answer with
      | .ok resp => after = { s with
            posts := message :: s.posts
            tries := s.tries + 1 } ∧ (reliable → ∃ r ts, resp = some r ∧ r.ts = some ts)
      | .error exn => (∃ text, exn = .error text) ∧
        (after = { s with tries := s.tries + 1 } ∨ ¬ reliable ∧ after = { s with
            posts := message :: s.posts
            tries := s.tries + 1 })
    | .webClient, s, answer, after => after = s ∧ ∀ exn, answer = .error exn → ∃ text, exn = .error text
    | .remember channelId, s, answer, after =>
      answer = .ok () ∧ after = { s with lastChannelId := some channelId }
    | .sleep seconds, s, answer, after => answer = .ok () ∧ after = { s with slept := s.slept + seconds }
    | .print _, s, answer, after => answer = .ok () ∧ after = s

section Delivery

variable {reliable : Prop} {message : Message} {start s : Channel}

/-- `n` tries of the message have failed. -/
structure Failed (reliable : Prop) (message : Message) (start : Channel) (n : ℕ) (s : Channel) : Prop where
  copies : ∃ copies ≤ n, s.posts = List.replicate copies message ++ start.posts ∧
    (reliable → copies = 0)
  tries : s.tries = start.tries + n

/-- The last of `n` tries was answered. -/
structure Answered (reliable : Prop) (message : Message) (start : Channel) (n : ℕ) (ts : Option String)
    (s : Channel) : Prop where
  copies : ∃ copies ≤ n, 0 < copies ∧ s.posts = List.replicate copies message ++ start.posts ∧
    (reliable → copies = 1)
  tries : s.tries = start.tries + n
  named : reliable → ts.isSome

/-- **One try.** -/
theorem wp_post {n slept : ℕ} (failed : Failed reliable message start n s) (same : s.slept = slept) :
    (post message).wp (slack reliable) (Prog.Leads
      (fun exn after => (∃ text, exn = .error text) ∧ Failed reliable message start (n + 1) after ∧
        after.slept = slept)
      fun ts after => Answered reliable message start (n + 1) ts after ∧ after.slept = slept) s := by
  obtain ⟨⟨copies, most, posts, clean⟩, tries⟩ := failed
  have more : message :: s.posts = List.replicate (copies + 1) message ++ start.posts := by
    rw [posts]
    rfl
  unfold post
  refine Prog.wp_then (fun resp after => after.posts = message :: s.posts ∧ after.tries = s.tries + 1 ∧
    after.slept = slept ∧ (reliable → ∃ r ts, resp = some r ∧ r.ts = some ts)) ?_ ?_
  · refine Prog.wp_perform.mpr ⟨trivial, ?_⟩
    rintro (exn | resp) after step
    · obtain ⟨other, rfl | ⟨unreliable, rfl⟩⟩ := step
      · exact ⟨other, ⟨⟨copies, by omega, posts, clean⟩, by show s.tries + 1 = _; omega⟩, same⟩
      · exact ⟨other, ⟨⟨copies + 1, by omega, more, fun reliable => absurd reliable unreliable⟩,
          by show s.tries + 1 = _; omega⟩, same⟩
    · obtain ⟨rfl, named⟩ := step
      exact ⟨rfl, rfl, same, named⟩
  rintro resp after ⟨posts', tries', same', named⟩
  have answered : ∀ ts after', after'.posts = after.posts → after'.tries = after.tries →
      (reliable → ts.isSome) → Answered reliable message start (n + 1) ts after' :=
    fun ts after' posts'' tries'' named => ⟨⟨copies + 1, by omega, Nat.succ_pos _,
      posts''.trans (posts'.trans more), fun reliable => by rw [clean reliable]⟩, by omega, named⟩
  cases resp with
  | none =>
    refine ⟨answered none after rfl rfl fun reliable => ?_, same'⟩
    obtain ⟨r, ts, none', -⟩ := named reliable
    cases none'
  | some resp =>
    refine Prog.wp_then (fun _ (last : Channel) => last.posts = after.posts ∧ last.tries = after.tries ∧
      last.slept = slept) ?_ ?_
    · unfold keepChannel
      cases resp.channel.filter (· ≠ "") with
      | none => exact ⟨rfl, rfl, same'⟩
      | some channelId =>
        refine Prog.wp_perform.mpr ⟨trivial, ?_⟩
        rintro answer last ⟨rfl, rfl⟩
        exact ⟨rfl, rfl, same'⟩
    rintro - last ⟨posts'', tries'', same''⟩
    cases found : resp.ts with
    | some ts => exact ⟨answered (some ts) last posts'' tries'' fun _ => rfl, same''⟩
    | none =>
      refine ⟨⟨_, rfl⟩, ⟨⟨copies + 1, by omega, posts''.trans (posts'.trans more), fun reliable => ?_⟩,
        by omega⟩, same''⟩
      obtain ⟨r, ts, same, named⟩ := named reliable
      obtain rfl := Option.some.inj same
      rw [found] at named
      cases named

/-- What is slept before the try behind `n` failed ones: two seconds, then four. -/
def sleptBefore (n : ℕ) : ℕ := n * (n + 1)

/-- **All tries.** -/
theorem wp_tries (message : Message) (start : Channel) :
    (Prog.retry (fun _ => true) (fun attempt => call (.sleep (retryBaseS * attempt))) (· + 1)
      (post message) (maxAttempts - 1) 1).wp (slack reliable) (Prog.Leads
        (fun exn after => (∃ text, exn = .error text) ∧ Failed reliable message start 3 after ∧
          after.slept = start.slept + 6)
        fun ts after => ∃ n ≤ 3, Answered reliable message start n ts after ∧
          after.slept ≤ start.slept + 6) start := by
  refine Prog.wp_retry
    (fun left attempt s => ∃ n, attempt = n + 1 ∧ n + left = 2 ∧ Failed reliable message start n s ∧
      s.slept = start.slept + sleptBefore n)
    (fun left attempt s => ∃ n, attempt = n + 1 ∧ n + left = 1 ∧
      Failed reliable message start (n + 1) s ∧ s.slept = start.slept + sleptBefore n) ?_ ?_
    ⟨0, rfl, rfl, ⟨⟨0, le_rfl, rfl, fun _ => rfl⟩, rfl⟩, rfl⟩
  · rintro left attempt s ⟨n, rfl, place, failed, slept⟩
    have short : sleptBefore n ≤ 6 := by
      have cases' : n = 0 ∨ n = 1 ∨ n = 2 := by omega
      rcases cases' with rfl | rfl | rfl <;> decide
    refine Prog.wp_mono ?_ (wp_post failed slept)
    rintro (exn | ts) after leads
    · obtain ⟨text, failed', slept'⟩ := leads
      cases left with
      | zero =>
        obtain rfl : n = 2 := by omega
        exact ⟨text, failed', slept'⟩
      | succ left => exact ⟨n, rfl, by omega, failed', slept'⟩
    · have ended : ∃ n ≤ 3, Answered reliable message start n ts after ∧
          after.slept ≤ start.slept + 6 := ⟨n + 1, by omega, leads.1, by rw [leads.2]; omega⟩
      cases left <;> exact ended
  · rintro left attempt s ⟨n, rfl, place, failed, slept⟩
    refine Prog.wp_perform.mpr ⟨trivial, ?_⟩
    rintro answer after ⟨rfl, rfl⟩
    refine ⟨n + 1, rfl, by omega, ⟨failed.copies, failed.tries⟩, ?_⟩
    show s.slept + retryBaseS * (n + 1) = _
    rw [slept]
    unfold sleptBefore retryBaseS
    ring

/-- **What a delivery leaves**: copies of one message, three at most. -/
structure Left (sink : SlackSink) (message : Message) (start : Channel)
    (outcome : Except Exn (Option String)) (after : Channel) : Prop where
  copies : ∃ copies ≤ 3, after.posts = List.replicate copies message ++ start.posts ∧
    (∀ ts, outcome = .ok ts → sink.dryRun = false → 0 < copies)
  dryRun : sink.dryRun = true → outcome = .ok none ∧ after = start
  tries : after.tries ≤ start.tries + 3
  slept : after.slept ≤ start.slept + 6
  raised : ∀ exn, outcome = .error exn →
    after = start ∨ after.tries = start.tries + 3 ∧ after.slept = start.slept + 6

variable {sink : SlackSink} {unicode : Unicode} {findings : Brief} {thread : Option String}

/-- The rule for a delivery that is no dry run. -/
theorem wp_deliver (real : sink.dryRun = false) (start : Channel) :
    (sink.deliver unicode findings thread).wp (slack reliable) (Prog.Leads
      (fun exn after => (∃ text, exn = .error text) ∧ (after = start ∨
        Failed reliable (sink.message unicode findings thread) start 3 after ∧
          after.slept = start.slept + 6))
      fun ts after => ∃ n ≤ 3, Answered reliable (sink.message unicode findings thread) start n ts after ∧
        after.slept ≤ start.slept + 6) start := by
  unfold SlackSink.deliver
  rw [real]
  rw [if_neg Bool.false_ne_true]
  refine Prog.wp_then (fun _ after => after = start) ?_ ?_
  · unfold SlackSink.makeClient
    split_ifs
    · rfl
    · refine Prog.wp_perform.mpr ⟨trivial, ?_⟩
      rintro (exn | done) after ⟨rfl, failed⟩
      · exact ⟨failed exn rfl, Or.inl rfl⟩
      · rfl
  rintro - after rfl
  refine Prog.wp_mono ?_ (wp_tries _ after)
  rintro (exn | ts) last leads
  · exact ⟨leads.1, Or.inr leads.2⟩
  · exact leads

/-- What a delivery adds to the log of the consumer's runs. -/
def logged (incidentId : String) (slot : Slot) (start after : Channel) : List Entry :=
  (after.posts.take (after.posts.length - start.posts.length)).map fun message =>
    .posted incidentId slot message.threadTs

theorem logged_copies {copies : ℕ} {after : Channel} (incidentId : String) (slot : Slot)
    (posts : after.posts = List.replicate copies message ++ start.posts) :
    logged incidentId slot start after =
      List.replicate copies (.posted incidentId slot message.threadTs) := by
  unfold logged
  rw [posts, List.length_append, Nat.add_sub_cancel, List.take_left, List.map_replicate]

/-- **A delivery leaves up to three copies of one message; where a failed post leaves nothing and an
answer names its message, it is one of the calls that the consumer's runs are made of.** -/
theorem deliver_meets_calls (sink : SlackSink) (unicode : Unicode) (findings : Brief)
    (thread : Option String) (start : Channel) :
    (sink.deliver unicode findings thread).wp (slack False)
        (Left sink (sink.message unicode findings thread) start) start ∧
      (sink.dryRun = false → ∀ (W : Type) [DecidableEq W] (world : World W) (worker : W)
        (incidentId : String) (slot : Slot) (f : Findings),
        (sink.deliver unicode findings thread).wp (slack True) (fun outcome after =>
          world.Calls worker (.deliver incidentId slot f thread) outcome
            { world with log := logged incidentId slot start after ++ world.log }) start) := by
  constructor
  · cases real : sink.dryRun with
    | true =>
      unfold SlackSink.deliver
      rw [real]
      refine Prog.wp_bind.mpr (Prog.wp_perform.mpr ⟨trivial, ?_⟩)
      rintro answer after ⟨rfl, rfl⟩
      refine ⟨⟨0, by omega, rfl, fun _ _ real' => ?_⟩, fun _ => ⟨rfl, rfl⟩, by omega, by omega,
        fun exn raised => by cases raised⟩
      rw [real] at real'
      cases real'
    | false =>
      have never : sink.dryRun = true → False := fun dry => by
        rw [real] at dry
        cases dry
      refine Prog.wp_mono ?_ (@wp_deliver False sink unicode findings thread real start)
      rintro (exn | ts) after leads
      · obtain ⟨-, rfl | ⟨failed, slept⟩⟩ := leads
        · exact ⟨⟨0, by omega, rfl, fun _ same => by cases same⟩, fun dry => (never dry).elim, by omega,
            by omega, fun _ _ => Or.inl rfl⟩
        · obtain ⟨⟨copies, most, posts, -⟩, tries⟩ := failed
          exact ⟨⟨copies, most, posts, fun _ same => by cases same⟩, fun dry => (never dry).elim,
            tries.le, slept.le, fun _ _ => Or.inr ⟨tries, slept⟩⟩
      · obtain ⟨n, few, ⟨⟨copies, most, some', posts, -⟩, tries, -⟩, slept⟩ := leads
        exact ⟨⟨copies, by omega, posts, fun _ _ _ => some'⟩, fun dry => (never dry).elim, by omega,
          slept, fun _ same => by cases same⟩
  · intro real W _ world worker incidentId slot f
    refine Prog.wp_mono ?_ (@wp_deliver True sink unicode findings thread real start)
    rintro (exn | ts) after leads
    · obtain ⟨⟨text, rfl⟩, rfl | ⟨failed, -⟩⟩ := leads
      · refine Or.inr ⟨text, rfl, ?_⟩
        rw [@logged_copies (sink.message unicode findings thread) after 0 after incidentId slot rfl]
        rfl
      · obtain ⟨⟨copies, -, posts, none'⟩, -⟩ := failed
        obtain rfl := none' trivial
        refine Or.inr ⟨text, rfl, ?_⟩
        rw [logged_copies incidentId slot posts]
        rfl
    · obtain ⟨n, -, ⟨⟨copies, -, -, posts, one⟩, -, -⟩, -⟩ := leads
      obtain rfl := one trivial
      refine Or.inl ⟨ts, rfl, ?_⟩
      rw [logged_copies incidentId slot posts]
      rfl

end Delivery

/-- A brief without evidence. -/
def bareBrief : Brief :=
  ⟨"github".toList, "open".toList, none, none, none, none, none, none, none, none, [], none⟩

def opsSink : SlackSink := ⟨"#ops", false, true⟩

def plain : Unicode := ⟨id, fun _ => true⟩

def emptyChannel : Channel := ⟨[], none, 0, 0⟩

/-- Slack takes every post, and no answer comes back. -/
def lostAnswers : (op : sinkSig.Op) → Channel → Except Exn (sinkSig.Ans op) × Channel
  | .post message, s => (.error (.error "timed out"), { s with
      posts := message :: s.posts
      tries := s.tries + 1 })
  | .webClient, s => (.ok (), s)
  | .remember channelId, s => (.ok (), { s with lastChannelId := some channelId })
  | .sleep seconds, s => (.ok (), { s with slept := s.slept + seconds })
  | .print _, s => (.ok (), s)

theorem lostAnswers_allowed (op : sinkSig.Op) (s : Channel) :
    (slack False).step op s (lostAnswers op s).1 (lostAnswers op s).2 := by
  cases op with
  | post message => exact ⟨⟨_, rfl⟩, Or.inr ⟨id, rfl⟩⟩
  | webClient => exact ⟨rfl, fun exn same => by cases same⟩
  | remember channelId => exact ⟨rfl, rfl⟩
  | sleep seconds => exact ⟨rfl, rfl⟩
  | print message => exact ⟨rfl, rfl⟩

/-- What becomes of a brief then. -/
def lostRun : Except Exn (Option String) × Channel :=
  (opsSink.deliver plain bareBrief none).run lostAnswers emptyChannel

/-- Three copies, and the delivery raises. -/
theorem deliver_meets_calls_lost :
    Left opsSink (opsSink.message plain bareBrief none) emptyChannel lostRun.1 lostRun.2 ∧
      lostRun.2.posts.length = 3 :=
  ⟨Prog.wp_run lostAnswers_allowed (deliver_meets_calls opsSink plain bareBrief none emptyChannel).1,
    by decide +kernel⟩

end Freshet.Autopilot.Slack
