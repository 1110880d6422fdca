/-
**No reply is skipped and none is answered twice.**

The world is the table of briefed incidents, the messages of the threads and the history of the
answers posted. Between two calls of a poll messages arrive and briefs are posted. A `ts` is compared
as a string, which is the order of the times as long as every `ts` has one width. Every call may fail
in every way, but the marker is recorded whenever an answer was posted.

* **`Sound`** — what holds in every reachable state; `UpTo` holds besides, but for the answer whose
  marker is still to be recorded.
* **`answered_once`** — polls one after the other, in any number: every reply up to the marker has its
  answer, none has two, and no marker goes back.
-/

import Freshet.Autopilot.ThreadAgent
import Freshet.Lib.Turns

namespace Freshet.Autopilot.ThreadAgent

open Freshet.Lib Freshet.Rag.Timeframe Relation

/-! ### The world -/

/-- A thread: its channel and the `ts` of its brief. -/
abbrev Place := String × String

/-- What the row of a briefed incident holds of its thread. -/
structure Row where
  slackTs : String
  channelId : Option String
  seenTs : Option String
deriving DecidableEq, Repr

/-- `coalesce(slack_channel_id, %s)`, and `slack_ts`. -/
def Row.place (channel : String) (row : Row) : Place :=
  (row.channelId.getD channel, row.slackTs)

/-- A row as `_OPEN_THREADS_SQL` gives it. -/
def Row.opened (channel incidentId : String) (row : Row) : OpenThread :=
  ⟨incidentId, row.slackTs, row.seenTs, row.channelId.getD channel⟩

structure World where
  rows : String → Option Row
  messages : Place → List Message
  answered : List (Place × String)

/-- Before the first brief. -/
def World.empty : World := ⟨fun _ => none, fun _ => [], []⟩

def World.posted (s : World) (place : Place) (ts : String) : World :=
  { s with answered := (place, ts) :: s.answered }

def World.marked (s : World) (incidentId newest : String) : World :=
  { s with
    rows := Function.update s.rows incidentId
      ((s.rows incidentId).map fun row => { row with seenTs := some newest }) }

def World.arrived (s : World) (place : Place) (message : Message) : World :=
  { s with messages := Function.update s.messages place (s.messages place ++ [message]) }

def World.briefed (s : World) (incidentId : String) (row : Row) : World :=
  { s with rows := Function.update s.rows incidentId (some row) }

/-- A page of a thread: the first ones of its messages. Of those later than `oldest` none is left
out. -/
def Page (oldest : String) (messages page : List Message) : Prop :=
  ∃ keep : Message → Bool, (∀ message ∈ messages, oldest < message.ts → keep message) ∧
    page <+: messages.filter keep

/-- What a call answers and does. A post that fails posts nothing. -/
def effect : (op : Op) → World → Except Exn op.Ans → World → Prop
  | .openThreads channel _, s, answer, after => after = s ∧ ∀ threads, answer = .ok threads →
      (threads.map OpenThread.incidentId).Nodup ∧ ∀ thread ∈ threads, ∃ row,
        s.rows thread.incidentId = some row ∧ thread = row.opened channel thread.incidentId
  | .replies channel ts oldest, s, answer, after => after = s ∧ ∀ messages, answer = .ok messages →
      Page oldest (s.messages (channel, ts)) (messages.getD [])
  | .answer _ _, s, _, after => after = s
  | .post answering channel threadTs _, s, answer, after => match answer with
    | .ok _ => after = s.posted (channel, threadTs) answering.ts
    | .error _ => after = s
  | .markSeen newest incidentId, s, answer, after =>
      answer = .ok () ∧ after = s.marked incidentId newest

/-- What happens between two calls: a message arrives, later than all others of its thread, or a brief
is posted, which is the start of a thread of its own. -/
inductive Moves (channel : String) : World → World → Prop where
  | arrived {s : World} {place : Place} {message : Message}
      (later : ∀ earlier ∈ s.messages place, earlier.ts < message.ts)
      (behind : place.2 ≤ message.ts) : Moves channel s (s.arrived place message)
  | briefed {s : World} {incidentId : String} {row : Row} (new : s.rows incidentId = none)
      (unseen : row.seenTs = none)
      (own : ∀ other briefed, s.rows other = some briefed → briefed.place channel ≠ row.place channel) :
      Moves channel s (s.briefed incidentId row)

/-! ### What holds in every state -/

/-- **The invariant.** -/
structure Sound (channel : String) (s : World) : Prop where
  ordered : ∀ place, (s.messages place).Pairwise fun a b => a.ts < b.ts
  behind : ∀ place, ∀ message ∈ s.messages place, place.2 ≤ message.ts
  apart : ∀ incidentId other row briefed, s.rows incidentId = some row →
    s.rows other = some briefed → row.place channel = briefed.place channel → incidentId = other
  known : ∀ entry ∈ s.answered, ∃ incidentId row, s.rows incidentId = some row ∧
    row.place channel = entry.1
  once : s.answered.Nodup
  marked : ∀ incidentId row seen, s.rows incidentId = some row → row.seenTs = some seen →
    row.slackTs < seen ∧ ∃ message ∈ s.messages (row.place channel), message.ts = seen
  answered : ∀ incidentId row seen, s.rows incidentId = some row → row.seenTs = some seen →
    ∀ message ∈ s.messages (row.place channel), isHumanReply message row.slackTs →
      message.ts ≤ seen → (row.place channel, message.ts) ∈ s.answered

/-- Nothing later than the marker has been answered, but what is `pending`. -/
def UpTo (channel : String) (pending : List (Place × String)) (s : World) : Prop :=
  ∀ incidentId row ts, s.rows incidentId = some row → (row.place channel, ts) ∈ s.answered →
    (row.place channel, ts) ∈ pending ∨ ∃ seen, row.seenTs = some seen ∧ ts ≤ seen

/-- Between two threads. -/
structure Ready (channel : String) (threads : List OpenThread) (s : World) : Prop where
  sound : Sound channel s
  upTo : UpTo channel [] s
  current : ∀ thread ∈ threads, ∃ row, s.rows thread.incidentId = some row ∧
    thread = row.opened channel thread.incidentId

/-- Within a thread, `rest` being the messages still to be looked at: a reply has been seen, or is
among them, or is later than they are. -/
structure Within (channel : String) (others : List OpenThread) (pending : List (Place × String))
    (incidentId : String) (row : Row) (rest : List Message) (s : World) : Prop where
  sound : Sound channel s
  upTo : UpTo channel pending s
  current : ∀ thread ∈ others, ∃ row, s.rows thread.incidentId = some row ∧
    thread = row.opened channel thread.incidentId
  here : s.rows incidentId = some row
  ordered : rest.Pairwise fun a b => a.ts < b.ts
  inside : ∀ message ∈ rest, message ∈ s.messages (row.place channel)
  covered : ∀ message ∈ s.messages (row.place channel), isHumanReply message row.slackTs →
    (∃ seen, row.seenTs = some seen ∧ message.ts ≤ seen) ∨ message ∈ rest ∨
      ∀ other ∈ rest, other.ts < message.ts

/-- Which calls are permitted: a marker is not moved back. -/
def permitted (channel : String) (op : Op) (s : World) : Prop :=
  Sound channel s ∧ match op with
    | .markSeen newest incidentId => ∀ row seen, s.rows incidentId = some row →
        row.seenTs = some seen → seen ≤ newest
    | _ => True

/-- The calls of the polls. -/
def polls (channel : String) : Machine sig Exn World := ⟨permitted channel, effect⟩

/-! ### The surroundings -/

section Moves

variable {channel : String} {s after : World}

/-- A row stays what it is while the surroundings move. -/
theorem rows_of_moves (moved : Moves channel s after) {incidentId : String} {row : Row}
    (here : s.rows incidentId = some row) : after.rows incidentId = some row := by
  cases moved with
  | arrived later behind => exact here
  | @briefed other row' new unseen own =>
    have apart : incidentId ≠ other := by
      rintro rfl
      rw [new] at here
      cases here
    exact (Function.update_of_ne apart _ _).trans here

/-- A row that is there after a move was there before it, or is that of a brief just posted. -/
theorem rows_before (moved : Moves channel s after) {incidentId : String} {row : Row}
    (here : after.rows incidentId = some row) : s.rows incidentId = some row ∨
      row.seenTs = none ∧ s.rows incidentId = none ∧
        ∀ other briefed, s.rows other = some briefed → briefed.place channel ≠ row.place channel := by
  cases moved with
  | arrived later behind => exact .inl here
  | @briefed other row' new unseen own =>
    by_cases same : incidentId = other
    · subst same
      simp only [World.briefed, Function.update_self, Option.some.injEq] at here
      subst here
      exact .inr ⟨unseen, new, own⟩
    · exact .inl ((Function.update_of_ne same _ _).symm.trans here)

/-- A thread after a move: as it was, or with one message more, later than all others. -/
theorem messages_after (moved : Moves channel s after) (place : Place) :
    after.messages place = s.messages place ∨ ∃ message,
      after.messages place = s.messages place ++ [message] ∧
        (∀ earlier ∈ s.messages place, earlier.ts < message.ts) ∧ place.2 ≤ message.ts := by
  cases moved with
  | @arrived other message later behind =>
    by_cases same : place = other
    · subst same
      exact .inr ⟨message, Function.update_self _ _ _, later, behind⟩
    · exact .inl (Function.update_of_ne same _ _)
  | briefed new unseen own => exact .inl rfl

/-- A message that is there after a move was there before it, or is later than all that were. -/
theorem messages_before (moved : Moves channel s after) {place : Place} {message : Message}
    (here : message ∈ after.messages place) : message ∈ s.messages place ∨
      ∀ earlier ∈ s.messages place, earlier.ts < message.ts := by
  rcases messages_after moved place with same | ⟨arriving, grown, later, -⟩
  · exact .inl (same ▸ here)
  · rw [grown] at here
    rcases List.mem_append.mp here with old | new
    · exact .inl old
    · obtain rfl := List.mem_singleton.mp new
      exact .inr later

/-- Messages stay. -/
theorem messages_of_moves (moved : Moves channel s after) {place : Place} {message : Message}
    (here : message ∈ s.messages place) : message ∈ after.messages place := by
  rcases messages_after moved place with same | ⟨arriving, grown, -, -⟩
  · exact same ▸ here
  · exact grown ▸ List.mem_append_left _ here

theorem answered_of_moves (moved : Moves channel s after) : after.answered = s.answered := by
  cases moved <;> rfl

theorem ordered_of_moves (moved : Moves channel s after)
    (ordered : ∀ place, (s.messages place).Pairwise fun a b => a.ts < b.ts) (place : Place) :
    (after.messages place).Pairwise fun a b => a.ts < b.ts := by
  rcases messages_after moved place with same | ⟨arriving, grown, later, -⟩
  · exact same ▸ ordered place
  · rw [grown]
    refine List.pairwise_append.mpr ⟨ordered place, List.pairwise_singleton _ _, ?_⟩
    intro earlier member last new
    obtain rfl := List.mem_singleton.mp new
    exact later earlier member

theorem behind_of_moves (moved : Moves channel s after)
    (behind : ∀ place, ∀ message ∈ s.messages place, place.2 ≤ message.ts) (place : Place) :
    ∀ message ∈ after.messages place, place.2 ≤ message.ts := by
  intro message member
  rcases messages_after moved place with same | ⟨arriving, grown, -, last⟩
  · exact behind place message (same ▸ member)
  · rw [grown] at member
    rcases List.mem_append.mp member with old | new
    · exact behind place message old
    · obtain rfl := List.mem_singleton.mp new
      exact last

/-- **The surroundings keep the invariant.** -/
theorem stable_sound : Stable (Moves channel) (Sound channel) := by
  intro s after moved sound
  refine ⟨ordered_of_moves moved sound.ordered, behind_of_moves moved sound.behind, ?_, ?_, ?_, ?_, ?_⟩
  · intro incidentId other row briefed one two same
    rcases rows_before moved one with one' | ⟨-, none₁, own₁⟩
    · rcases rows_before moved two with two' | ⟨-, none₂, own₂⟩
      · exact sound.apart _ _ _ _ one' two' same
      · exact (own₂ _ _ one' same).elim
    · rcases rows_before moved two with two' | ⟨-, none₂, own₂⟩
      · exact (own₁ _ _ two' same.symm).elim
      · -- Only one brief is posted in a step.
        cases moved with
        | arrived later behind =>
          exact sound.apart _ _ _ _ one two same
        | @briefed third row' new unseen own =>
          by_contra different
          by_cases mine : incidentId = third
          · have apart : other ≠ third := fun equal => different (mine.trans equal.symm)
            rw [show (s.briefed third row').rows other = s.rows other from
              Function.update_of_ne apart _ _, none₂] at two
            cases two
          · rw [show (s.briefed third row').rows incidentId = s.rows incidentId from
              Function.update_of_ne mine _ _, none₁] at one
            cases one
  · intro entry member
    rw [answered_of_moves moved] at member
    obtain ⟨incidentId, row, here, same⟩ := sound.known entry member
    exact ⟨incidentId, row, rows_of_moves moved here, same⟩
  · rw [answered_of_moves moved]
    exact sound.once
  · intro incidentId row seen here mark
    rcases rows_before moved here with old | ⟨unseen, -, -⟩
    · obtain ⟨behind, message, member, same⟩ := sound.marked incidentId row seen old mark
      exact ⟨behind, message, messages_of_moves moved member, same⟩
    · rw [unseen] at mark
      cases mark
  · intro incidentId row seen here mark message member human upTo
    rw [answered_of_moves moved]
    rcases rows_before moved here with old | ⟨unseen, -, -⟩
    · rcases messages_before moved member with before | later
      · exact sound.answered incidentId row seen old mark message before human upTo
      · -- What has just arrived is later than the marker.
        obtain ⟨-, marking, member', same⟩ := sound.marked incidentId row seen old mark
        exact (not_lt_of_ge upTo (same ▸ later marking member')).elim
    · rw [unseen] at mark
      cases mark

theorem stable_upTo {pending : List (Place × String)} {s after : World} (sound : Sound channel s)
    (moved : Moves channel s after) (upTo : UpTo channel pending s) :
    UpTo channel pending after := by
  intro incidentId row ts here member
  rw [answered_of_moves moved] at member
  rcases rows_before moved here with old | ⟨-, -, own⟩
  · exact upTo incidentId row ts old member
  · -- Nothing has been answered in a thread that is new.
    obtain ⟨other, briefed, known, same⟩ := sound.known _ member
    exact (own other briefed known same).elim

theorem stable_ready {threads : List OpenThread} :
    Stable (Moves channel) (Ready channel threads) := by
  intro s after moved ready
  refine ⟨stable_sound s after moved ready.sound, stable_upTo ready.sound moved ready.upTo, ?_⟩
  intro thread member
  obtain ⟨row, here, same⟩ := ready.current thread member
  exact ⟨row, rows_of_moves moved here, same⟩

theorem stable_within {others : List OpenThread} {pending : List (Place × String)}
    {incidentId : String} {row : Row} {rest : List Message} :
    Stable (Moves channel) (Within channel others pending incidentId row rest) := by
  intro s after moved within
  refine ⟨stable_sound s after moved within.sound, stable_upTo within.sound moved within.upTo, ?_,
    rows_of_moves moved within.here, within.ordered,
    fun message member => messages_of_moves moved (within.inside message member), ?_⟩
  · intro thread member
    obtain ⟨row, here, same⟩ := within.current thread member
    exact ⟨row, rows_of_moves moved here, same⟩
  · intro message member human
    rcases messages_before moved member with before | later
    · exact within.covered message before human
    · exact .inr (.inr fun other here => later other (within.inside other here))

theorem stable_permitted (op : Op) : Stable (Moves channel) (permitted channel op) := by
  rintro s after moved ⟨sound, safe⟩
  refine ⟨stable_sound s after moved sound, ?_⟩
  cases op with
  | markSeen newest incidentId =>
    intro row seen here mark
    rcases rows_before moved here with old | ⟨unseen, -, -⟩
    · exact safe row seen old mark
    · rw [unseen] at mark
      cases mark
  | _ => trivial

end Moves

/-! ### The marker -/

/-- A reply is not itself the brief. -/
theorem ne_of_isHumanReply {message : Message} {threadTs : String}
    (human : isHumanReply message threadTs = true) : message.ts ≠ threadTs := by
  rintro rfl
  unfold isHumanReply at human
  split at human
  · cases human
  · rw [if_pos rfl] at human
    cases human

theorem empty_le (ts : String) : "" ≤ ts := by
  refine not_lt.mp fun less => ?_
  rw [String.lt_iff_toList_lt] at less
  exact List.not_lt_nil _ less

theorem present_of_lt {earlier seen : String} (later : earlier < seen) :
    present (some seen) = true := by
  have nonempty : seen ≠ "" := by
    rintro rfl
    exact not_lt_of_ge (empty_le earlier) later
  simp [present, nonempty]

/-- The new marker is the `ts` of a message later than the old one. -/
theorem newer_of_later {newest : Option String} {ts : String}
    (later : ∀ seen, newest = some seen → seen < ts) : newer newest ts = ts := by
  cases newest with
  | none => rfl
  | some seen =>
    unfold newer
    split
    · exact max_eq_right (le_of_lt (later seen rfl))
    · rfl

/-- What has not been answered is later than the marker. -/
theorem later_of_not_answered {earlier : String} {seen : Option String} {ts : String}
    (marked : ∀ mark, seen = some mark → earlier < mark) (new : answered seen ts = false) :
    ∀ mark, seen = some mark → mark < ts := by
  rintro mark rfl
  have there := present_of_lt (marked mark rfl)
  unfold answered at new
  rw [there, Bool.true_and] at new
  simpa [Option.any] using new

theorem le_of_answered {seen : Option String} {ts : String} (old : answered seen ts = true) :
    ∃ mark, seen = some mark ∧ ts ≤ mark := by
  unfold answered at old
  cases seen with
  | none => cases old
  | some mark => exact ⟨mark, rfl, by simpa [Option.any] using (Bool.and_eq_true_iff.mp old).2⟩

section Thread

variable {channel : String} {others : List OpenThread} {pending : List (Place × String)}
  {incidentId : String} {row : Row} {message : Message} {rest : List Message} {s : World}

/-- A thread may be left at any message. -/
theorem Within.ready (within : Within channel others [] incidentId row rest s) :
    Ready channel others s :=
  ⟨within.sound, within.upTo, within.current⟩

/-- The start of a thread's messages. -/
theorem Ready.within {thread : OpenThread} {later : List OpenThread}
    (ready : Ready channel (thread :: later) s) {page : List Message}
    (read : Page (oldest thread) (s.messages (thread.channel, thread.slackTs)) page) :
    ∃ row, row.place channel = (thread.channel, thread.slackTs) ∧ row.seenTs = thread.seenTs ∧
      Within channel later [] thread.incidentId row page s := by
  obtain ⟨row, here, same⟩ := ready.current thread List.mem_cons_self
  have place : row.place channel = (thread.channel, thread.slackTs) := by rw [same]; rfl
  have seen : row.seenTs = thread.seenTs := by rw [same]; rfl
  have slackTs : row.slackTs = thread.slackTs := congrArg Prod.snd place
  obtain ⟨keep, kept, start⟩ := read
  rw [← place] at kept start
  have ordered : ((s.messages (row.place channel)).filter keep).Pairwise fun a b => a.ts < b.ts :=
    (ready.sound.ordered _).filter _
  refine ⟨row, place, seen, ready.sound, ready.upTo,
    fun other member => ready.current other (List.mem_cons_of_mem _ member), here,
    ordered.sublist start.sublist, fun message member => ?_, fun message member human => ?_⟩
  · exact List.mem_of_mem_filter (start.subset member)
  · have behind : row.slackTs < message.ts :=
      lt_of_le_of_ne (ready.sound.behind _ message member) (ne_of_isHumanReply human).symm
    rcases lt_or_ge (oldest thread) message.ts with new | old
    · obtain ⟨unread, split⟩ := start
      have found : message ∈ page ++ unread :=
        split ▸ List.mem_filter.mpr ⟨member, kept message member new⟩
      rcases List.mem_append.mp found with inside | beyond
      · exact .inr (.inl inside)
      · rw [← split] at ordered
        exact .inr (.inr fun other first => (List.pairwise_append.mp ordered).2.2 other first _ beyond)
    · -- Without a marker the thread is read from the brief on.
      refine .inl ?_
      unfold oldest at old
      split at old
      · rename_i there
        rw [← seen] at there old
        cases marker : row.seenTs with
        | none =>
          rw [marker] at there
          cases there
        | some mark =>
          rw [marker] at old
          exact ⟨mark, rfl, old⟩
      · exact (not_lt_of_ge (slackTs ▸ old) behind).elim

/-- A message that needs no answer is passed over. -/
theorem Within.pass (within : Within channel others pending incidentId row (message :: rest) s)
    (needless : isHumanReply message row.slackTs = true →
      ∃ seen, row.seenTs = some seen ∧ message.ts ≤ seen) :
    Within channel others pending incidentId row rest s := by
  refine { within with
    ordered := (List.pairwise_cons.mp within.ordered).2
    inside := fun other member => within.inside other (List.mem_cons_of_mem _ member)
    covered := fun other member human => ?_ }
  rcases within.covered other member human with seen | among | later
  · exact .inl seen
  · rcases List.mem_cons.mp among with rfl | among
    · exact .inl (needless human)
    · exact .inr (.inl among)
  · exact .inr (.inr fun earlier inside => later earlier (List.mem_cons_of_mem _ inside))

/-- An answer is posted. -/
theorem Within.posted (within : Within channel others [] incidentId row (message :: rest) s)
    (new : ∀ mark, row.seenTs = some mark → mark < message.ts) :
    Within channel others [(row.place channel, message.ts)] incidentId row (message :: rest)
      (s.posted (row.place channel) message.ts) := by
  have fresh : (row.place channel, message.ts) ∉ s.answered := by
    intro already
    rcases within.upTo incidentId row message.ts within.here already with none | ⟨mark, seen, upTo⟩
    · cases none
    · exact not_lt_of_ge upTo (new mark seen)
  refine { within with
    sound := { within.sound with
      known := ?_
      once := List.nodup_cons.mpr ⟨fresh, within.sound.once⟩
      answered := fun incidentId row seen here mark message member human upTo =>
        List.mem_cons_of_mem _
          (within.sound.answered incidentId row seen here mark message member human upTo) }
    upTo := ?_ }
  · intro entry member
    rcases List.mem_cons.mp member with rfl | old
    · exact ⟨incidentId, row, within.here, rfl⟩
    · exact within.sound.known entry old
  · intro other briefed ts here member
    rcases List.mem_cons.mp member with same | old
    · exact .inl (List.mem_singleton.mpr same)
    · rcases within.upTo other briefed ts here old with none | seen
      · cases none
      · exact .inr seen

/-- The marker of the answer just posted is recorded. -/
theorem Within.marked (within : Within channel others [(row.place channel, message.ts)] incidentId
      row (message :: rest) s)
    (apart : ∀ other ∈ others, other.incidentId ≠ incidentId)
    (new : ∀ mark, row.seenTs = some mark → mark < message.ts)
    (human : isHumanReply message row.slackTs = true)
    (done : (row.place channel, message.ts) ∈ s.answered) :
    Within channel others [] incidentId { row with seenTs := some message.ts } rest
      (s.marked incidentId message.ts) := by
  have here : (s.marked incidentId message.ts).rows incidentId =
      some { row with seenTs := some message.ts } := by
    simp [World.marked, within.here]
  have frame : ∀ other, other ≠ incidentId →
      (s.marked incidentId message.ts).rows other = s.rows other :=
    fun other different => Function.update_of_ne different _ _
  -- The place of a row is not changed by its marker.
  have before : ∀ other briefed, (s.marked incidentId message.ts).rows other = some briefed →
      ∃ old, s.rows other = some old ∧ old.place channel = briefed.place channel ∧
        old.slackTs = briefed.slackTs := by
    intro other briefed found
    by_cases same : other = incidentId
    · subst same
      obtain rfl := Option.some.inj (here.symm.trans found)
      exact ⟨row, within.here, rfl, rfl⟩
    · exact ⟨briefed, (frame other same).symm.trans found, rfl, rfl⟩
  have covered : ∀ earlier ∈ s.messages (row.place channel),
      isHumanReply earlier row.slackTs = true → earlier.ts ≤ message.ts →
      (row.place channel, earlier.ts) ∈ s.answered := by
    intro earlier member humane upTo
    rcases within.covered earlier member humane with ⟨mark, seen, old⟩ | among | later
    · exact within.sound.answered incidentId row mark within.here seen earlier member humane old
    · rcases List.mem_cons.mp among with rfl | among
      · exact done
      · exact (not_lt_of_ge upTo ((List.pairwise_cons.mp within.ordered).1 earlier among)).elim
    · exact (not_lt_of_ge upTo (later message List.mem_cons_self)).elim
  have inside : message ∈ s.messages (row.place channel) :=
    within.inside message List.mem_cons_self
  have behind : row.slackTs < message.ts :=
    lt_of_le_of_ne (within.sound.behind _ message inside) (ne_of_isHumanReply human).symm
  refine ⟨⟨within.sound.ordered, within.sound.behind, ?_, ?_, within.sound.once, ?_, ?_⟩,
    ?_, ?_, here, (List.pairwise_cons.mp within.ordered).2,
    fun other member => within.inside other (List.mem_cons_of_mem _ member), ?_⟩
  · intro one two briefed other found found' same
    obtain ⟨old, there, place, -⟩ := before one briefed found
    obtain ⟨old', there', place', -⟩ := before two other found'
    exact within.sound.apart one two old old' there there' (place.trans (same.trans place'.symm))
  · intro entry member
    obtain ⟨other, briefed, found, same⟩ := within.sound.known entry member
    by_cases mine : other = incidentId
    · subst mine
      obtain rfl := Option.some.inj (within.here.symm.trans found)
      exact ⟨other, _, here, same⟩
    · exact ⟨other, briefed, (frame other mine).trans found, same⟩
  · intro other briefed seen found mark
    by_cases same : other = incidentId
    · subst same
      obtain rfl := Option.some.inj (here.symm.trans found)
      obtain rfl := Option.some.inj mark
      exact ⟨behind, message, inside, rfl⟩
    · exact within.sound.marked other briefed seen ((frame other same).symm.trans found) mark
  · intro other briefed seen found mark earlier member humane upTo
    by_cases same : other = incidentId
    · subst same
      obtain rfl := Option.some.inj (here.symm.trans found)
      obtain rfl := Option.some.inj mark
      exact covered earlier member humane upTo
    · exact within.sound.answered other briefed seen ((frame other same).symm.trans found) mark
        earlier member humane upTo
  · intro other briefed ts found member
    right
    by_cases same : other = incidentId
    · subst same
      obtain rfl := Option.some.inj (here.symm.trans found)
      refine ⟨message.ts, rfl, ?_⟩
      rcases within.upTo other row ts within.here member with pending | ⟨mark, seen, old⟩
      · cases List.mem_singleton.mp pending
        exact le_rfl
      · exact le_trans old (le_of_lt (new mark seen))
    · have found' := (frame other same).symm.trans found
      rcases within.upTo other briefed ts found' member with pending | seen
      · -- The thread of another incident is another thread.
        have place := congrArg Prod.fst (List.mem_singleton.mp pending)
        exact (same (within.sound.apart other incidentId briefed row found' within.here place)).elim
      · exact seen
  · intro other member
    obtain ⟨briefed, found, same⟩ := within.current other member
    exact ⟨briefed, (frame _ (apart other member)).trans found, same⟩
  · intro other member humane
    rcases within.covered other member humane with ⟨mark, seen, old⟩ | among | later
    · exact .inl ⟨message.ts, rfl, le_trans old (le_of_lt (new mark seen))⟩
    · rcases List.mem_cons.mp among with rfl | among
      · exact .inl ⟨other.ts, rfl, le_rfl⟩
      · exact .inr (.inl among)
    · exact .inr (.inr fun earlier first => later earlier (List.mem_cons_of_mem _ first))

end Thread

/-! ### The polls -/

section Polls

variable {channel : String} {s : World}

/-- Whichever way a failed call of Slack is dealt with. -/
theorem wp_unlessLimited {m : Machine sig Exn World} {α : Type} {good : World → Prop} {exn : Exn}
    {otherwise : Polling α} (here : good s) (rest : otherwise.wp m (fun _ => good) s) :
    (unlessLimited exn otherwise).wp m (fun _ => good) s := by
  unfold unlessLimited
  split
  · exact here
  · exact rest

/-- **The loop over a thread's messages**, however it is left. -/
theorem wp_answerMessages {thread : OpenThread} {others : List OpenThread}
    (apart : ∀ other ∈ others, other.incidentId ≠ thread.incidentId) (rest : List Message) {row : Row}
    (place : row.place channel = (thread.channel, thread.slackTs)) (posted : ℕ)
    (within : Within channel others [] thread.incidentId row rest s) :
    (answerMessages thread rest row.seenTs row.seenTs posted).wp
      ((polls channel).within (Moves channel)) (fun _ => Ready channel others) s := by
  have slackTs : row.slackTs = thread.slackTs := congrArg Prod.snd place
  induction rest generalizing row posted s with
  | nil => exact within.ready
  | cons message later ih =>
    unfold answerMessages
    split
    · rename_i robot
      refine ih place posted (within.pass fun human => ?_) slackTs
      rw [slackTs] at human
      rw [human] at robot
      cases robot
    · rename_i person
      have human : isHumanReply message row.slackTs = true := by simpa [slackTs] using person
      split
      · rename_i old
        exact ih place posted (within.pass fun _ => le_of_answered old) slackTs
      · rename_i unanswered
        have new : ∀ mark, row.seenTs = some mark → mark < message.ts :=
          later_of_not_answered
            (fun mark seen => (within.sound.marked _ row mark within.here seen).1)
            (Bool.eq_false_iff.mpr unanswered)
        refine Prog.wp_bind_of (fun _ => Within channel others [] thread.incidentId row
          (message :: later)) (Prog.wp_attempt.mpr (Prog.wp_perform_within _ stable_within within
            ⟨within.sound, trivial⟩ ?_)) ?_
        · rintro middle answer _ within rfl
          exact within
        · intro answer s within
          match answer with
          | .error (.budgetExhausted _) => exact within.ready
          | .error (.rateLimited _) => exact within.ready
          | .error (.exception _) => exact within.ready
          | .ok text =>
            refine Prog.wp_bind_of (fun outcome after => match outcome with
                | .ok _ => Within channel others [(row.place channel, message.ts)] thread.incidentId
                    row (message :: later) after ∧
                  (row.place channel, message.ts) ∈ after.answered
                | .error _ => Within channel others [] thread.incidentId row (message :: later) after)
              (Prog.wp_attempt.mpr (Prog.wp_perform_within _ stable_within within
                ⟨within.sound, trivial⟩ ?_)) ?_
            · intro middle answer after within effect
              cases answer with
              | error exn =>
                obtain rfl : after = middle := effect
                exact within
              | ok value =>
                obtain rfl : after = middle.posted (thread.channel, thread.slackTs) message.ts :=
                  effect
                rw [← place]
                exact ⟨within.posted new, List.mem_cons_self⟩
            · intro outcome s after
              cases outcome with
              | error exn => exact wp_unlessLimited after.ready after.ready
              | ok value =>
                obtain ⟨within, done⟩ := after
                dsimp only
                rw [newer_of_later new]
                refine Prog.wp_bind_of (fun _ => Within channel others [] thread.incidentId
                    { row with seenTs := some message.ts } later)
                  (Prog.wp_perform_within (fun s => Within channel others
                      [(row.place channel, message.ts)] thread.incidentId row (message :: later) s ∧
                      (row.place channel, message.ts) ∈ s.answered) ?_ ⟨within, done⟩ ?_ ?_) ?_
                · rintro s after moved ⟨within, done⟩
                  exact ⟨stable_within s after moved within, answered_of_moves moved ▸ done⟩
                · refine ⟨within.sound, fun briefed mark found seen => ?_⟩
                  obtain rfl := Option.some.inj (within.here.symm.trans found)
                  exact le_of_lt (new mark seen)
                · rintro middle answer _ ⟨within, done⟩ ⟨rfl, rfl⟩
                  exact within.marked apart new human done
                · intro _ s within
                  have place' : ({ row with seenTs := some message.ts } : Row).place channel =
                      (thread.channel, thread.slackTs) := place
                  exact ih place' (posted + 1) within slackTs

/-- **The loop over the threads.** -/
theorem wp_answerThreads (threads : List OpenThread) (posted : ℕ)
    (distinct : (threads.map OpenThread.incidentId).Nodup) (ready : Ready channel threads s) :
    (answerThreads threads posted).wp ((polls channel).within (Moves channel))
      (fun _ => Ready channel []) s := by
  have leave : ∀ {threads s}, Ready channel threads s → Ready channel [] s := fun ready =>
    ⟨ready.sound, ready.upTo, fun thread none => (nomatch none)⟩
  induction threads generalizing posted s with
  | nil => exact ready
  | cons thread later ih =>
    obtain ⟨only, distinct'⟩ := List.nodup_cons.mp distinct
    have apart : ∀ other ∈ later, other.incidentId ≠ thread.incidentId := fun other member same =>
      only (same ▸ List.mem_map_of_mem member)
    refine Prog.wp_bind_of (fun outcome after => Ready channel (thread :: later) after ∧
        ∀ messages, outcome = .ok messages → Page (oldest thread)
          (after.messages (thread.channel, thread.slackTs)) (messages.getD []))
      (Prog.wp_attempt.mpr (Prog.wp_perform_within _ stable_ready ready ⟨ready.sound, trivial⟩ ?_)) ?_
    · rintro middle answer _ ready ⟨rfl, read⟩
      exact ⟨ready, fun messages same => read messages same⟩
    · rintro outcome s ⟨ready, read⟩
      have rest : Ready channel later s :=
        ⟨ready.sound, ready.upTo, fun other member =>
          ready.current other (List.mem_cons_of_mem _ member)⟩
      cases outcome with
      | error exn => exact wp_unlessLimited (leave ready) (ih posted distinct' rest)
      | ok messages =>
        obtain ⟨row, place, seen, within⟩ := ready.within (read messages rfl)
        refine Prog.wp_bind_of (fun _ => Ready channel later) ?_ ?_
        · rw [← seen]
          refine Prog.wp_mono ?_ (wp_answerMessages apart _ place posted within)
          intro outcome after ready
          cases outcome with
          | ok control => exact ready
          | error exn => exact leave ready
        · intro control s ready
          cases control with
          | done posted => exact leave ready
          | next posted => exact ih posted distinct' ready

/-- **A poll.** -/
theorem wp_pollThreads (limit : Int) (ready : Ready channel [] s) :
    (pollThreads channel limit).wp ((polls channel).within (Moves channel))
      (fun _ => Ready channel []) s := by
  refine Prog.wp_bind_of (fun threads after => (threads.map OpenThread.incidentId).Nodup ∧
      Ready channel threads after)
    (Prog.wp_perform_within _ stable_ready ready ⟨ready.sound, trivial⟩ ?_) ?_
  · rintro middle answer _ ready ⟨rfl, read⟩
    cases answer with
    | error exn => exact ready
    | ok threads => exact ⟨(read threads rfl).1, ready.sound, ready.upTo, (read threads rfl).2⟩
  · rintro threads s ⟨distinct, ready⟩
    exact wp_answerThreads threads 0 distinct ready

end Polls

/-! ### The polls with their answers -/

/-- The calls of the polls, and those of their answers, which change nothing and answer anything. -/
def calls (channel : String) : Machine pollSig Exn World where
  safe := fun
    | .inl op => permitted channel op
    | .inr _ => Sound channel
  step := fun
    | .inl op => effect op
    | .inr _ => fun s _ after => after = s

/-- Anything that happens while the polls run. -/
abbrev Polls (py : Interpreter) (channel : String) :
    Prog pollSig Exn ℕ × World → Prog pollSig Exn ℕ × World → Prop :=
  Turns (calls channel) (Moves channel) fun program => ∃ limit, program = poll py channel limit

section Answers

variable {py : Interpreter} {channel : String} {s : World}

/-- What the surroundings have done since `s`. -/
theorem stable_since : Stable (Moves channel) (ReflTransGen (Moves channel) s) :=
  fun _ _ moved since => since.tail moved

/-- **Each operation does what the program that implements it does.** -/
theorem wp_run (op : Op) (safe : permitted channel op s) :
    (run py op).wp ((calls channel).within (Moves channel))
      (fun answer after => ∃ last,
        ((polls channel).within (Moves channel)).step op s answer last ∧ last = after) s := by
  have one : ∀ op : Op, permitted channel op s →
      (@Prog.perform pollSig Exn (.inl op)).wp ((calls channel).within (Moves channel))
        (fun answer after => ∃ last,
          ((polls channel).within (Moves channel)).step op s answer last ∧ last = after) s := by
    intro op safe
    refine @Prog.wp_perform_within pollSig Exn World (calls channel) (Moves channel) (.inl op) _ s
      (ReflTransGen (Moves channel) s) stable_since .refl safe ?_
    intro middle answer after since stepped
    exact ⟨after, ⟨middle, since, stepped⟩, rfl⟩
  cases op with
  | openThreads channel limit => exact one _ safe
  | replies channel ts oldest => exact one _ safe
  | post answering channel threadTs text => exact one _ safe
  | markSeen newest incidentId => exact one _ safe
  | answer asking incidentId =>
    have uses : (run py (.answer asking incidentId)).Uses fun op => Sum.isRight op = true :=
      Prog.uses_interpret (fun op => @Prog.uses_perform pollSig Exn _ (.inr op) rfl) _
    refine Prog.wp_mono ?_ (@Prog.wp_of_uses pollSig Exn _ World
      ((calls channel).within (Moves channel)) _
      (fun after => Sound channel after ∧ ReflTransGen (Moves channel) s after) _ s uses
      ⟨safe.1, .refl⟩ ?_)
    · rintro answer after ⟨-, since⟩
      exact ⟨after, ⟨after, since, rfl⟩, rfl⟩
    · rintro (op | op) right middle ⟨sound, since⟩
      · cases right
      · refine ⟨sound, ?_⟩
        rintro answer _ ⟨later, moved, rfl⟩
        exact ⟨stable_sound.many moved sound, since.trans moved⟩

theorem wp_poll (limit : Int) (ready : Ready channel [] s) :
    (poll py channel limit).wp ((calls channel).within (Moves channel))
      (fun _ => Ready channel []) s := by
  refine Prog.wp_mono ?_ (Prog.wp_interpret ?_ rfl (wp_pollThreads limit ready))
  · rintro outcome after ⟨_, ready, rfl⟩
    exact ready
  · rintro op s _ rfl safe
    exact wp_run op safe

theorem stable_calls (op : pollSig.Op) : Stable (Moves channel) ((calls channel).safe op) := by
  cases op with
  | inl op => exact stable_permitted op
  | inr op => exact stable_sound

theorem ready_empty : Ready channel [] World.empty where
  sound :=
    { ordered := fun _ => List.Pairwise.nil
      behind := fun _ _ none => (nomatch none)
      apart := fun _ _ _ _ none => (nomatch none)
      known := fun _ none => (nomatch none)
      once := List.nodup_nil
      marked := fun _ _ _ none => (nomatch none)
      answered := fun _ _ _ none => (nomatch none) }
  upTo := fun _ _ _ none => (nomatch none)
  current := fun _ none => (nomatch none)

end Answers

/-- No marker has gone back, and none is gone. -/
def NotBack (s after : World) : Prop :=
  ∀ incidentId row seen, s.rows incidentId = some row → row.seenTs = some seen →
    ∃ row' seen', after.rows incidentId = some row' ∧ row'.seenTs = some seen' ∧ seen ≤ seen'

theorem NotBack.trans {s middle after : World} (one : NotBack s middle)
    (two : NotBack middle after) : NotBack s after := by
  intro incidentId row seen here mark
  obtain ⟨row', seen', here', mark', upTo⟩ := one incidentId row seen here mark
  obtain ⟨row'', seen'', here'', mark'', upTo'⟩ := two incidentId row' seen' here' mark'
  exact ⟨row'', seen'', here'', mark'', le_trans upTo upTo'⟩

theorem notBack_refl (s : World) : NotBack s s :=
  fun _ row seen here mark => ⟨row, seen, here, mark, le_rfl⟩

theorem notBack_of_moves {channel : String} {s after : World} (moved : Moves channel s after) :
    NotBack s after :=
  fun _ row seen here mark => ⟨row, seen, rows_of_moves moved here, mark, le_rfl⟩

/-- Only the marker's own call moves it, and it is not permitted to move it back. -/
theorem notBack_of_call {channel : String} {s after : World} (op : pollSig.Op)
    {answer : Except Exn (pollSig.Ans op)} (safe : (calls channel).safe op s)
    (step : (calls channel).step op s answer after) : NotBack s after := by
  rcases op with op | op
  · cases op with
    | openThreads channel limit =>
      obtain ⟨rfl, -⟩ := step
      exact notBack_refl _
    | replies channel ts oldest =>
      obtain ⟨rfl, -⟩ := step
      exact notBack_refl _
    | answer asking incidentId =>
      obtain rfl : after = s := step
      exact notBack_refl _
    | post answering channel threadTs text =>
      intro incidentId row seen here mark
      refine ⟨row, seen, ?_, mark, le_rfl⟩
      cases answer with
      | ok value =>
        obtain rfl : after = s.posted (channel, threadTs) answering.ts := step
        exact here
      | error exn =>
        obtain rfl : after = s := step
        exact here
    | markSeen newest incidentId =>
      obtain ⟨-, rfl⟩ := step
      intro other row seen here mark
      by_cases same : other = incidentId
      · subst same
        refine ⟨{ row with seenTs := some newest }, newest, ?_, rfl, safe.2 row seen here mark⟩
        simp [World.marked, here]
      · exact ⟨row, seen, (Function.update_of_ne same _ _).trans here, mark, le_rfl⟩
  · obtain rfl : after = s := step
    exact notBack_refl _

/-- **Polls one after the other, with messages arriving, budgets refused, posts failing and rate limits
in between.** Wherever they have got to, every reply up to its thread's marker has been answered, no
reply twice, and from there on no marker goes back. -/
theorem answered_once (py : Interpreter) (channel : String) {program : Prog pollSig Exn ℕ} {s : World}
    (reached : Polls py channel (.ret 0, World.empty) (program, s)) :
    (∀ incidentId row seen message, s.rows incidentId = some row → row.seenTs = some seen →
      message ∈ s.messages (row.place channel) → isHumanReply message row.slackTs = true →
      message.ts ≤ seen → (row.place channel, message.ts) ∈ s.answered) ∧
    s.answered.Nodup ∧
    ∀ later after, Polls py channel (program, s) (later, after) → NotBack s after := by
  have spec : ∀ program : Prog pollSig Exn ℕ, (∃ limit, program = poll py channel limit) →
      ∀ s, Ready channel [] s → program.wp ((calls channel).within (Moves channel))
        (fun _ => Ready channel []) s := by
    rintro _ ⟨limit, rfl⟩ s ready
    exact wp_poll limit ready
  have here := wp_of_turns stable_calls stable_ready spec reached ready_empty
  have sound : Sound channel s := by
    cases program with
    | ret value => exact here.sound
    | raise exn => exact here.sound
    | call op next =>
      cases op with
      | inl op => exact here.1.1
      | inr op => exact here.1
  refine ⟨fun incidentId row seen message found mark member human upTo =>
    sound.answered incidentId row seen found mark message member human upTo, sound.once, ?_⟩
  intro later after turns
  exact along_of_turns notBack_refl NotBack.trans (fun op s answer after => notBack_of_call op)
    (fun s after => notBack_of_moves) stable_calls stable_ready spec turns here

/-! A brief, a reply to it, and a poll whose calls all succeed. -/

def serve (incidentId : String) :
    (op : pollSig.Op) → World → Except Exn (pollSig.Ans op) × World
  | .inl (.openThreads channel _), s =>
    (.ok ((s.rows incidentId).map fun row => row.opened channel incidentId).toList, s)
  | .inl (.replies channel ts _), s => (.ok (some (s.messages (channel, ts))), s)
  | .inl (.answer _ _), s => (.ok [], s)
  | .inl (.post answering channel threadTs _), s =>
    (.ok (), s.posted (channel, threadTs) answering.ts)
  | .inl (.markSeen newest incidentId), s => (.ok (), s.marked incidentId newest)
  | .inr .utcnow, s => (.ok afternoon, s)
  | .inr (.search _ _), s => (.ok ⟨[], true⟩, s)
  | .inr (.updates _), s => (.ok [], s)
  | .inr (.compose _ _), s => (.ok none, s)

theorem allowed_serve {channel : String} (incidentId : String) (op : pollSig.Op) (s : World) :
    (calls channel).step op s (serve incidentId op s).1 (serve incidentId op s).2 := by
  rcases op with op | op
  · cases op with
    | openThreads channel limit =>
      refine ⟨rfl, ?_⟩
      rintro threads same
      obtain rfl := Except.ok.inj same
      cases found : s.rows incidentId with
      | none => exact ⟨List.nodup_nil, fun thread none => (nomatch none)⟩
      | some row =>
        refine ⟨List.pairwise_singleton _ _, fun thread member => ?_⟩
        obtain rfl := List.mem_singleton.mp member
        exact ⟨row, found, rfl⟩
    | replies channel ts oldest =>
      refine ⟨rfl, ?_⟩
      rintro messages same
      obtain rfl := Except.ok.inj same
      exact ⟨fun _ => true, fun _ _ _ => rfl, by rw [List.filter_true]; exact List.prefix_rfl⟩
    | answer asking incidentId => rfl
    | post answering channel threadTs text => rfl
    | markSeen newest incidentId => exact ⟨rfl, rfl⟩
  · cases op <;> rfl

def asked : World :=
  (World.empty.briefed "outage" ⟨"1700000000.000100", some "C1", none⟩).arrived
    ("C1", "1700000000.000100")
    ⟨"1700000060.000200", some "is login affected too?".toList, none, none⟩

theorem answered_once_one : ∃ program s,
    Polls ascii "#incidents" (.ret 0, World.empty) (program, s) ∧
      s.answered = [(("C1", "1700000000.000100"), "1700000060.000200")] ∧ s.answered.Nodup := by
  have reached : Polls ascii "#incidents" (.ret 0, World.empty)
      (Prog.ofOutcome ((poll ascii "#incidents" 20).run (serve "outage") asked).1,
        ((poll ascii "#incidents" 20).run (serve "outage") asked).2) := by
    refine .head (.move (.briefed rfl rfl ?_)) (.head (.move (.arrived ?_ (by decide)))
      (.head (.again trivial ⟨20, rfl⟩) (turns_of_steps
        (Prog.steps_run _ asked fun op s => allowed_serve "outage" op s))))
    · exact fun other briefed none => (nomatch none)
    · exact fun earlier none => (nomatch none)
  exact ⟨_, _, reached, by decide +kernel, (answered_once ascii "#incidents" reached).2.1⟩

end Freshet.Autopilot.ThreadAgent
