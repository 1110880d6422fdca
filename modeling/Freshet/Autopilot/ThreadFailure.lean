/-
**A question whose answer raises.**

A run of a poll is recorded call by call, whatever the calls answer or raise. `Spared` is what one bad
question should leave of a run: nothing raised, the other threads read and answered, the marker of its
own before it.

* **`spared_iff`** — no run with such a question is spared: an exception of an answer, other than
  `BudgetExhausted`, is caught nowhere, so it is what `poll_threads` ends in.
* **`bad_question_raised`** — a number of hours that no `timedelta` holds, asked in the first of two
  threads.
-/

import Freshet.Autopilot.ThreadAgent

namespace Freshet.Autopilot.ThreadAgent

open Freshet.Lib Freshet.Rag.Timeframe

/-! ### Histories -/

/-- A call, with what it answered or raised. -/
structure Event where
  op : Op
  answer : Except Exn op.Ans

abbrev History := List Event

/-- Any answers. -/
def recording : Machine sig Exn History where
  safe _ _ := True
  step op history answer after := after = history ++ [⟨op, answer⟩]

def Exn.isBudget : Exn → Bool
  | budgetExhausted _ => true
  | rateLimited _ => false
  | exception _ => false

/-- A call of Slack has failed. -/
inductive SlackFailed (exn : Exn) : Event → Prop where
  | replies {channel ts oldest : String} : SlackFailed exn ⟨.replies channel ts oldest, .error exn⟩
  | post {answering : Message} {channel threadTs : String} {text : List Char} :
      SlackFailed exn ⟨.post answering channel threadTs text, .error exn⟩

/-- **What a bad question should leave of a run.** -/
structure Spared (incidentId : String) (asking : Message) (outcome : Except Exn ℕ)
    (history : History) : Prop where
  /-- Nothing is raised, a rate limit of Slack aside. -/
  quiet : ∀ exn, outcome = .error exn → ∃ cause, ∃ event ∈ history,
    SlackFailed cause event ∧ isRateLimit cause = true ∧ exn = .rateLimited cause.str
  /-- Every other thread is read, and what is new in it is answered. -/
  others : ∀ channel limit threads, ⟨.openThreads channel limit, .ok threads⟩ ∈ history →
    ∀ thread ∈ threads, thread.incidentId ≠ incidentId → ∃ messages,
      ⟨.replies thread.channel thread.slackTs (oldest thread), messages⟩ ∈ history ∧
      ∀ found, messages = .ok (some found) → ∀ message ∈ found,
        isHumanReply message thread.slackTs = true → answered thread.seenTs message.ts = false →
        ∃ text, ⟨.post message thread.channel thread.slackTs text, .ok ()⟩ ∈ history
  /-- The thread's marker stays before the message. -/
  before : ∀ newest marked, ⟨.markSeen newest incidentId, marked⟩ ∈ history → newest < asking.ts

/-! ### How a poll ends -/

/-- An event that lets the poll go on. -/
def Harmless (event : Event) : Prop :=
  (∀ asking incidentId exn, event = ⟨.answer asking incidentId, .error exn⟩ →
    exn.isBudget = true) ∧
  ∀ exn, SlackFailed exn event → isRateLimit exn = false

def Calm (history : History) : Prop := ∀ event ∈ history, Harmless event

/-- What is raised comes from the last call. -/
def Broken (history : History) : Prop := ∃ before last, history = before ++ [last] ∧ Calm before

variable {history : History}

theorem Calm.snoc {event : Event} (calm : Calm history) (harmless : Harmless event) :
    Calm (history ++ [event]) := by
  intro other member
  rcases List.mem_append.mp member with old | new
  · exact calm other old
  · exact List.mem_singleton.mp new ▸ harmless

theorem Calm.broken {event : Event} (calm : Calm history) : Broken (history ++ [event]) :=
  ⟨history, event, rfl, calm⟩

/-- A call that succeeds is harmless. -/
theorem harmless_ok (op : Op) (answer : op.Ans) : Harmless ⟨op, .ok answer⟩ := by
  constructor
  · rintro asking incidentId exn same
    cases same
  · intro exn failed
    cases failed

/-- A call whose exception is handed over, recorded. -/
theorem wp_tried (op : Op) : (ask op).attempt.wp recording
    (Prog.Ends Broken fun answer after => after = history ++ [⟨op, answer⟩]) history :=
  Prog.wp_try (Prog.wp_perform.mpr ⟨trivial, fun _ _ recorded => recorded⟩)

/-- A call whose exception is raised. -/
theorem wp_asked (op : Op) (calm : Calm history) :
    (ask op).wp recording (Prog.Ends Broken fun _ => Calm) history := by
  refine Prog.wp_perform.mpr ⟨trivial, ?_⟩
  rintro answer _ rfl
  cases answer with
  | ok value => exact calm.snoc (harmless_ok op value)
  | error exn => exact calm.broken

/-- A failed call of Slack either ends the poll or lets it go on. -/
theorem wp_unlessLimited_calm {α : Type} {event : Event} {exn : Exn} {otherwise : Polling α}
    (calm : Calm history) (failed : SlackFailed exn event)
    (rest : Calm (history ++ [event]) →
      otherwise.wp recording (Prog.Ends Broken fun _ => Calm) (history ++ [event])) :
    (unlessLimited exn otherwise).wp recording (Prog.Ends Broken fun _ => Calm)
      (history ++ [event]) := by
  unfold unlessLimited
  split
  · exact calm.broken
  · rename_i unlimited
    refine rest (calm.snoc ⟨?_, ?_⟩)
    · rintro asking incidentId other rfl
      cases failed
    · intro other failed'
      have same : other = exn := by cases failed <;> cases failed' <;> rfl
      exact same ▸ Bool.eq_false_iff.mpr unlimited

theorem wp_answerMessages_calm (thread : OpenThread) (messages : List Message)
    (seen newest : Option String) (posted : ℕ) (calm : Calm history) :
    (answerMessages thread messages seen newest posted).wp recording
      (Prog.Ends Broken fun _ => Calm) history := by
  induction messages generalizing seen newest posted history with
  | nil => exact calm
  | cons message later ih =>
    unfold answerMessages
    split
    · exact ih seen newest posted calm
    · split
      · exact ih seen newest posted calm
      · refine Prog.wp_seq _ (wp_tried (.answer message thread.incidentId)) ?_
        rintro answer _ rfl
        match answer with
        | .error (.budgetExhausted text) =>
          refine calm.snoc ⟨?_, ?_⟩
          · rintro asking incidentId exn same
            cases same
            rfl
          · intro exn failed
            cases failed
        | .error (.rateLimited text) => exact calm.broken
        | .error (.exception text) => exact calm.broken
        | .ok text =>
          have calm' := calm.snoc (harmless_ok (.answer message thread.incidentId) text)
          refine Prog.wp_seq _ (wp_tried (.post message thread.channel thread.slackTs text)) ?_
          rintro answer _ rfl
          cases answer with
          | error exn => exact wp_unlessLimited_calm calm' .post fun calm => calm
          | ok value =>
            refine Prog.wp_seq (fun _ => Calm) (wp_asked _ (calm'.snoc (harmless_ok _ value))) ?_
            exact fun _ history calm => ih _ _ _ calm

theorem wp_answerThreads_calm (threads : List OpenThread) (posted : ℕ) (calm : Calm history) :
    (answerThreads threads posted).wp recording (Prog.Ends Broken fun _ => Calm) history := by
  induction threads generalizing posted history with
  | nil => exact calm
  | cons thread later ih =>
    refine Prog.wp_seq _ (wp_tried (.replies thread.channel thread.slackTs (oldest thread))) ?_
    rintro answer _ rfl
    cases answer with
    | error exn => exact wp_unlessLimited_calm calm .replies fun calm => ih posted calm
    | ok messages =>
      refine Prog.wp_seq (fun _ => Calm)
        (wp_answerMessages_calm thread _ _ _ posted (calm.snoc (harmless_ok _ messages))) ?_
      intro control history calm
      cases control with
      | done posted => exact calm
      | next posted => exact ih posted calm

/-- **A poll ends well, or in what its last call raised.** -/
theorem wp_pollThreads_calm (channel : String) (limit : Int) :
    (pollThreads channel limit).wp recording (Prog.Ends Broken fun _ => Calm) [] :=
  Prog.wp_seq (fun _ => Calm) (wp_asked _ fun _ none => (nomatch none))
    fun threads _ calm => wp_answerThreads_calm threads 0 calm

/-- **One bad question stops the rest**: in a run of a poll to its end, every question whose answer
raised something other than `BudgetExhausted` is spared the others, if and only if there was none. -/
theorem spared_iff (channel : String) (limit : Int) {outcome : Except Exn ℕ}
    (run : Prog.Steps recording (pollThreads channel limit) [] (Prog.ofOutcome outcome) history) :
    (∀ asking incidentId exn, ⟨.answer asking incidentId, .error exn⟩ ∈ history →
      exn.isBudget = false → Spared incidentId asking outcome history) ↔
    ∀ asking incidentId exn, ⟨.answer asking incidentId, .error exn⟩ ∈ history →
      exn.isBudget = true := by
  have ends : Prog.Ends Broken (fun _ => Calm) outcome history := by
    have here := Prog.wp_steps run (wp_pollThreads_calm channel limit)
    cases outcome <;> exact here
  constructor
  · intro spared asking incidentId exn raised
    by_contra other
    obtain quiet := (spared asking incidentId exn raised (Bool.eq_false_iff.mpr other)).quiet
    cases outcome with
    | ok posted => exact other ((ends _ raised).1 asking incidentId exn rfl)
    | error last =>
      obtain ⟨before, final, rfl, calm⟩ := ends
      obtain ⟨cause, event, member, failed, limited, -⟩ := quiet last rfl
      -- The answer was the last call, and Slack had not failed before it.
      have final_raised : ⟨.answer asking incidentId, .error exn⟩ = final := by
        rcases List.mem_append.mp raised with early | late
        · exact (other ((calm _ early).1 asking incidentId exn rfl)).elim
        · exact List.mem_singleton.mp late
      rcases List.mem_append.mp member with early | late
      · exact Bool.false_ne_true (((calm event early).2 cause failed).symm.trans limited)
      · rw [List.mem_singleton.mp late, ← final_raised] at failed
        cases failed
  · intro none asking incidentId exn raised other
    rw [none asking incidentId exn raised] at other
    cases other

/-! Two open threads, a question in the first, and answers by `answer_question`. -/

/-- What the calls of `answer_question` answer. -/
def found : (op : questionSig.Op) → Unit → Except Exn (questionSig.Ans op) × Unit
  | .utcnow, s => (.ok afternoon, s)
  | .search _ _, s => (.ok ⟨[], true⟩, s)
  | .updates _, s => (.ok [], s)
  | .compose _ _, s => (.ok none, s)

/-- What the calls of the poll answer, where `text` is the question. -/
def threadsWith (text : String) : (op : sig.Op) → History → Except Exn (sig.Ans op) × History
  | .openThreads channel limit, s =>
    let threads : List OpenThread :=
      [⟨"slow", "1700000000.000100", none, "C1"⟩, ⟨"down", "1700000000.000200", none, "C1"⟩]
    (.ok threads, s ++ [⟨.openThreads channel limit, .ok threads⟩])
  | .replies channel ts oldest, s =>
    let messages : Option (List Message) :=
      if ts = "1700000000.000100" then some [⟨"1700000060.000300", some text.toList, none, none⟩]
      else none
    (.ok messages, s ++ [⟨.replies channel ts oldest, .ok messages⟩])
  | .answer asking incidentId, s =>
    let answer := ((answerQuestion ascii (asking.text.getD []) incidentId).run found ()).1
    (answer, s ++ [⟨.answer asking incidentId, answer⟩])
  | .post answering channel threadTs text, s =>
    (.ok (), s ++ [⟨.post answering channel threadTs text, .ok ()⟩])
  | .markSeen newest incidentId, s => (.ok (), s ++ [⟨.markSeen newest incidentId, .ok ()⟩])

theorem recorded_threadsWith (text : String) (op : sig.Op) (s : History) :
    recording.step op s (threadsWith text op s).1 (threadsWith text op s).2 := by
  cases op <;> rfl

/-- The answers that raised. -/
def raisedAnswer : Event → Option (Message × String × Exn)
  | ⟨.answer asking incidentId, .error exn⟩ => some (asking, incidentId, exn)
  | _ => none

theorem mem_of_raisedAnswer {history : History} {asking : Message} {incidentId : String} {exn : Exn} :
    (asking, incidentId, exn) ∈ history.filterMap raisedAnswer ↔
      ⟨.answer asking incidentId, .error exn⟩ ∈ history := by
  constructor
  · intro member
    obtain ⟨event, member, raised⟩ := List.mem_filterMap.mp member
    unfold raisedAnswer at raised
    split at raised
    · cases raised
      exact member
    · cases raised
  · exact fun member => List.mem_filterMap.mpr ⟨_, member, rfl⟩

/-- The run of a poll. -/
abbrev polled (text : String) : Except Exn ℕ × History :=
  (pollThreads "#incidents" 20).run (threadsWith text) []

theorem spared_iff_quiet :
    (∀ asking incidentId exn, ⟨.answer asking incidentId, .error exn⟩ ∈
        (polled "is login affected too?").2 → exn.isBudget = false →
      Spared incidentId asking (polled "is login affected too?").1
        (polled "is login affected too?").2) ↔
    ∀ asking incidentId exn, ⟨.answer asking incidentId, .error exn⟩ ∈
      (polled "is login affected too?").2 → exn.isBudget = true :=
  spared_iff "#incidents" 20 (Prog.steps_run _ _ (recorded_threadsWith _))

/-- The poll ends in what `timedelta` raised. -/
theorem bad_question_raised :
    ¬ ∀ asking incidentId exn, ⟨.answer asking incidentId, .error exn⟩ ∈
        (polled "anything in the last 99999999999 hours?").2 → exn.isBudget = false →
      Spared incidentId asking (polled "anything in the last 99999999999 hours?").1
        (polled "anything in the last 99999999999 hours?").2 := by
  intro spared
  have raised : (polled "anything in the last 99999999999 hours?").2.filterMap raisedAnswer =
      [(⟨"1700000060.000300", some "anything in the last 99999999999 hours?".toList, none, none⟩,
        "slow", .exception "days must have magnitude <= 999999999".toList)] := by
    decide +kernel
  have ends : (polled "anything in the last 99999999999 hours?").1 =
      .error (.exception "days must have magnitude <= 999999999".toList) := by
    decide +kernel
  obtain ⟨cause, event, -, -, -, same⟩ := (spared _ _ _
    (mem_of_raisedAnswer.mp (raised ▸ List.mem_cons_self)) rfl).quiet _ ends
  cases same

end Freshet.Autopilot.ThreadAgent
