/-
**The replay of dead letters and the embedder, side by side.**

The replay reads the topic that the embedder writes its dead letters to, up to the first time that it
finds it empty for long enough. Between any two of its calls the embedder may write a message that it
was given back to that topic again (`Elsewhere`). `origin` is history: the letter that a message was
in when it was first dead-lettered.

`republished_once_iff`: no letter's message is given back more than once in a run exactly if no letter
that the run handles is one written again. What carries it is `Sound`, kept by each call
(`cycleStep_sound`) and so by a run.
-/

import Freshet.Kafka.Deliveries
import Freshet.Pipeline.ReplayDeadletter
import Mathlib.Algebra.Order.BigOperators.Group.Finset
import Mathlib.Data.List.Nodup
import Mathlib.Order.Interval.Finset.Nat

namespace Freshet.Pipeline

open Freshet.Lib Freshet.Kafka

def normalizedTopic : String := "normalized.updates"

/-- A partition and an offset of the dead-letter topic. -/
abbrev Place := Int × ℕ

structure Letter where
  value : String
  origin : Place
deriving DecidableEq

/-- A message that was given back to its topic. -/
structure GivenBack where
  topic : Text
  payload : Text
  origin : Place
deriving DecidableEq

/-- The dead-letter topic, how far the run has read each partition, what it has given back, and the
history of its loop. -/
structure Cycle where
  letters : Int → List Letter
  position : Int → ℕ
  givenBack : List GivenBack := []
  log : List Entry := []

namespace Cycle

/-- The letter at a place. -/
def At (w : Cycle) (place : Place) (letter : Letter) : Prop :=
  (w.letters place.1)[place.2]? = some letter

/-- A letter more. -/
def append (w : Cycle) (partition : Int) (letter : Letter) : Cycle :=
  { w with letters := Function.update w.letters partition (w.letters partition ++ [letter]) }

/-- The letters whose messages were given back, one for each time. -/
def origins (w : Cycle) : List Place := w.givenBack.map GivenBack.origin

end Cycle

def place (m : Message) : Place := (m.partition, m.offset.toNat)

/-! ### What the run and the embedder do -/

/-- What `main` passes to `consume_loop`, without `--max`. -/
def replayLoop (idleTimeout : Int) : LoopConfig where
  autoCommit := false
  idleTimeout := some idleTimeout
  preCommit := true

/-- What `handle` gives back: nothing of a record that is quarantined. -/
def givenBackOf (room : ℕ) (letter : Letter) : List GivenBack :=
  match replayRecord room letter.value.toList with
  | ([(topic, payload)], .ok (.string _)) => [⟨topic, payload, letter.origin⟩]
  | _ => []

/-- **What one call of the run answers and does.** A `produce` that raises has taken no message. -/
def replayStep (room : ℕ) : (op : loopSig.Op) → Cycle → Except Exn (loopSig.Ans op) → Cycle → Prop
  | .inl .poll, w, answer, after => match answer with
    | .ok (.message m) => ∃ letter, w.At (m.partition, w.position m.partition) letter ∧
        m = ⟨deadletterTopic, m.partition, w.position m.partition, some letter.value⟩ ∧
        after = { w with
          position := Function.update w.position m.partition (w.position m.partition + 1)
          log := .polled m :: w.log }
    | _ => after = w
  | .inl (.commit m), w, answer, after =>
    after = { w with log := .committed m :: w.log } ∨ (answer ≠ .ok () ∧ after = w)
  | .inl _, w, _, after => after = w
  | .inr (.handler m _), w, answer, after => ∃ letter, w.At (place m) letter ∧
    match answer with
    | .ok _ => (∃ topic, (replayRecord room letter.value.toList).2 = .ok topic) ∧
        after = { w with
          givenBack := givenBackOf room letter ++ w.givenBack, log := .handled m :: w.log }
    | .error _ => after = { w with log := .failed :: w.log }
  | .inr op, w, answer, after => after = { w with log := op.outcome answer :: w.log }

/-- **What happens elsewhere**: the embedder writes a message that it was given back to the dead
letters again, once or more than once, or something else fails for the first time. -/
inductive Elsewhere : Cycle → Cycle → Prop
  | again {w : Cycle} {given : GivenBack} {value : String} (returned : given ∈ w.givenBack)
      (topic : given.topic = literal normalizedTopic) (payload : given.payload = literal value)
      (partition : Int) (error deadLetteredAt : String) :
      Elsewhere w (w.append partition
        ⟨buildDeadletter error value normalizedTopic deadLetteredAt, given.origin⟩)
  | failure (w : Cycle) (partition : Int) (value : String) :
      Elsewhere w (w.append partition ⟨value, (partition, (w.letters partition).length)⟩)

/-- The run's calls, with anything in front of each that happens elsewhere. -/
def cycleMachine (room : ℕ) : Machine loopSig Exn Cycle where
  safe _ _ := True
  step op w answer after :=
    ∃ middle, Relation.ReflTransGen Elsewhere w middle ∧ replayStep room op middle answer after

/-- The run begins: the letters that are there are in the partitions given. -/
structure Begins (partitions : Finset Int) (w : Cycle) : Prop where
  givenBack : w.givenBack = []
  log : w.log = []
  origin : ∀ place letter, w.At place letter → letter.origin = place
  partitions : ∀ partition, w.letters partition ≠ [] → partition ∈ partitions

/-- How many letters wait to be read. -/
def waiting (partitions : Finset Int) (w : Cycle) : ℕ :=
  ∑ partition ∈ partitions, ((w.letters partition).length - w.position partition)

/-- Nothing failed for the first time since. -/
def NoNewFailure (first w : Cycle) : Prop :=
  ∀ place letter, w.At place letter → letter.origin = place →
    place.2 < (first.letters place.1).length

/-- **The replay's promise**: no letter's message is given back more than once, and without new
failures there are at most as many as letters waited. -/
def AtMostOnce (partitions : Finset Int) (first w : Cycle) : Prop :=
  (∀ origin, w.origins.count origin ≤ 1) ∧
    (NoNewFailure first w → w.givenBack.length ≤ waiting partitions first)

/-- No letter that the run has handled is one that was written again. -/
def NoneAgain (w : Cycle) : Prop :=
  ∀ m letter, .handled m ∈ w.log → w.At (place m) letter → letter.origin = place m

/-! ### The invariant -/

section Append

variable {w : Cycle} {partition : Int} {letter : Letter}

theorem at_append_iff {place : Place} {other : Letter} :
    (w.append partition letter).At place other ↔
      w.At place other ∨ place = (partition, (w.letters partition).length) ∧ other = letter := by
  obtain ⟨other', offset⟩ := place
  unfold Cycle.At Cycle.append
  dsimp only
  by_cases same : other' = partition
  · subst same
    rw [Function.update_self, List.getElem?_append]
    split_ifs with inside
    · constructor
      · exact Or.inl
      · rintro (here | ⟨new, -⟩)
        · exact here
        · exact absurd (Prod.mk.inj new).2 (Nat.ne_of_lt inside)
    · rw [List.getElem?_eq_none (Nat.le_of_not_lt inside), List.getElem?_singleton]
      constructor
      · intro here
        split_ifs at here with last
        · exact .inr ⟨by rw [Prod.mk.injEq]; exact ⟨rfl, by omega⟩, (Option.some.inj here).symm⟩
      · rintro (impossible | ⟨new, rfl⟩)
        · cases impossible
        · have last := (Prod.mk.inj new).2
          rw [if_pos (by omega)]
  · rw [Function.update_of_ne same]
    constructor
    · exact Or.inl
    · rintro (here | ⟨new, -⟩)
      · exact here
      · exact absurd (Prod.mk.inj new).1 same

end Append

theorem Cycle.At.unique {w : Cycle} {place : Place} {letter other : Letter}
    (one : w.At place letter) (two : w.At place other) : letter = other :=
  Option.some.inj (one.symm.trans two)

/-- **What holds at every call of a run.** -/
structure Sound (first w : Cycle) : Prop where
  position : ∀ partition, first.position partition ≤ w.position partition
  polled : ∀ m, .polled m ∈ w.log → first.position m.partition ≤ (place m).2 ∧
    (place m).2 < w.position m.partition ∧ ∃ letter, w.At (place m) letter ∧
      m = ⟨deadletterTopic, m.partition, ((place m).2 : ℕ), some letter.value⟩
  handled : ∀ m, .handled m ∈ w.log → .polled m ∈ w.log
  again : ∀ place letter, w.At place letter → letter.origin ≠ place →
    letter.origin ∈ w.origins ∧ ∃ error value deadLetteredAt,
      letter.value = buildDeadletter error value normalizedTopic deadLetteredAt
  once : NoneAgain w → w.origins.Nodup ∧
    ∀ origin ∈ w.origins, ∃ m, .handled m ∈ w.log ∧ place m = origin
  twice : ¬ NoneAgain w → ¬ w.origins.Nodup

section Sound

variable {first w : Cycle}

/-- The letters that were handled are there, so that a letter more makes none of them another. -/
theorem Sound.noneAgain_append (sound : Sound first w) (partition : Int) (letter : Letter) :
    NoneAgain (w.append partition letter) ↔ NoneAgain w := by
  constructor
  · intro none m found handled here
    exact none m found handled (at_append_iff.mpr (.inl here))
  · intro none m found handled here
    obtain ⟨-, -, letter', here', -⟩ := sound.polled m (sound.handled m handled)
    obtain rfl := here.unique (at_append_iff.mpr (.inl here'))
    exact none m found handled here'

theorem Sound.append (sound : Sound first w) (partition : Int) (letter : Letter)
    (new : letter.origin ≠ (partition, (w.letters partition).length) →
      letter.origin ∈ w.origins ∧ ∃ error value deadLetteredAt,
        letter.value = buildDeadletter error value normalizedTopic deadLetteredAt) :
    Sound first (w.append partition letter) where
  position := sound.position
  polled m polled := by
    obtain ⟨after, before, letter', here, same⟩ := sound.polled m polled
    exact ⟨after, before, letter', at_append_iff.mpr (.inl here), same⟩
  handled := sound.handled
  again place letter' here other := by
    rcases at_append_iff.mp here with here | ⟨rfl, rfl⟩
    · exact sound.again place letter' here other
    · exact new other
  once none := sound.once ((sound.noneAgain_append partition letter).mp none)
  twice some := sound.twice (mt (sound.noneAgain_append partition letter).mpr some)

/-- What happens elsewhere keeps the invariant. -/
theorem Sound.elsewhere {after : Cycle} (sound : Sound first w) (step : Elsewhere w after) :
    Sound first after := by
  cases step with
  | @again given value returned topic payload partition error deadLetteredAt =>
    refine sound.append partition _ fun _ => ⟨?_, error, value, deadLetteredAt, rfl⟩
    exact List.mem_map_of_mem returned
  | failure partition value => exact sound.append partition _ fun other => absurd rfl other

end Sound
section Calls

variable {first w : Cycle} {room : ℕ}

/-- An entry about no message that is polled or handled. -/
theorem Sound.cons {entry : Entry} (sound : Sound first w)
    (other : ∀ m, entry ≠ .polled m ∧ entry ≠ .handled m) :
    Sound first { w with log := entry :: w.log } := by
  have polled : ∀ m, .polled m ∈ entry :: w.log ↔ .polled m ∈ w.log := by
    intro m
    rw [List.mem_cons]
    exact or_iff_right (Ne.symm (other m).1)
  have handled : ∀ m, .handled m ∈ entry :: w.log ↔ .handled m ∈ w.log := by
    intro m
    rw [List.mem_cons]
    exact or_iff_right (Ne.symm (other m).2)
  have none : NoneAgain { w with log := entry :: w.log } ↔ NoneAgain w :=
    forall_congr' fun m => forall_congr' fun letter => by rw [handled]; rfl
  refine ⟨sound.position, ?_, ?_, sound.again, ?_, ?_⟩
  · exact fun m found => sound.polled m ((polled m).mp found)
  · exact fun m found => (polled m).mpr (sound.handled m ((handled m).mp found))
  · intro noneAgain
    obtain ⟨nodup, each⟩ := sound.once (none.mp noneAgain)
    refine ⟨nodup, fun origin member => ?_⟩
    obtain ⟨m, found, same⟩ := each origin member
    exact ⟨m, (handled m).mpr found, same⟩
  · exact fun someAgain => sound.twice (mt none.mpr someAgain)

/-- A letter is handed out: it is the next one of its partition. -/
theorem Sound.poll {m : Message} {letter : Letter} (sound : Sound first w)
    (here : w.At (m.partition, w.position m.partition) letter)
    (same : m = ⟨deadletterTopic, m.partition, w.position m.partition, some letter.value⟩) :
    Sound first { w with
      position := Function.update w.position m.partition (w.position m.partition + 1)
      log := .polled m :: w.log } := by
  have grows : ∀ partition, w.position partition ≤
      Function.update w.position m.partition (w.position m.partition + 1) partition := by
    intro partition
    by_cases mine : partition = m.partition
    · rw [mine, Function.update_self]
      exact Nat.le_succ _
    · rw [Function.update_of_ne mine]
  have at' : place m = (m.partition, w.position m.partition) := by
    rw [same]
    rfl
  have handled : ∀ m', .handled m' ∈ Entry.polled m :: w.log ↔ .handled m' ∈ w.log := by
    intro m'
    rw [List.mem_cons]
    exact or_iff_right Entry.noConfusion
  refine ⟨?_, ?_, ?_, sound.again, ?_, ?_⟩
  · exact fun partition => le_trans (sound.position partition) (grows partition)
  · intro m' found
    rcases List.mem_cons.mp found with new | old
    · obtain rfl := Entry.polled.inj new
      rw [at']
      refine ⟨sound.position _, ?_, letter, here, same⟩
      dsimp only
      rw [Function.update_self]
      exact Nat.lt_succ_self _
    · obtain ⟨after, before, rest⟩ := sound.polled m' old
      exact ⟨after, lt_of_lt_of_le before (grows _), rest⟩
  · exact fun m' found => List.mem_cons_of_mem _ (sound.handled m' ((handled m').mp found))
  · intro noneAgain
    obtain ⟨nodup, each⟩ := sound.once fun m' letter' found =>
      noneAgain m' letter' ((handled m').mpr found)
    refine ⟨nodup, fun origin member => ?_⟩
    obtain ⟨m', found, same'⟩ := each origin member
    exact ⟨m', (handled m').mpr found, same'⟩
  · intro someAgain
    refine sound.twice fun noneAgain => someAgain fun m' letter' found =>
      noneAgain m' letter' ((handled m').mp found)

theorem givenBackOf_origin (room : ℕ) (letter : Letter) :
    (givenBackOf room letter).map GivenBack.origin = [] ∨
      (givenBackOf room letter).map GivenBack.origin = [letter.origin] := by
  unfold givenBackOf
  split
  · exact .inr rfl
  · exact .inl rfl

/-- Two messages from one place are one. -/
theorem Sound.polled_unique (sound : Sound first w) {m m' : Message} (polled : .polled m ∈ w.log)
    (polled' : .polled m' ∈ w.log) (same : place m' = place m) : m' = m := by
  obtain ⟨-, -, letter, here, eq⟩ := sound.polled m polled
  obtain ⟨-, -, letter', here', eq'⟩ := sound.polled m' polled'
  have partition : m'.partition = m.partition := congrArg Prod.fst same
  rw [same] at here' eq'
  obtain rfl := here.unique here'
  rw [partition, ← eq] at eq'
  exact eq'

/-- A letter that the embedder wrote gives its message back. -/
theorem givenBackOf_buildDeadletter (letter : Letter) {error value deadLetteredAt : String}
    (written : letter.value = buildDeadletter error value normalizedTopic deadLetteredAt) :
    givenBackOf (room + 1) letter =
      [⟨literal normalizedTopic, literal value, letter.origin⟩] := by
  unfold givenBackOf
  rw [written, replayRecord_buildDeadletter room error value normalizedTopic deadLetteredAt
    (by decide)]

/-- **A letter is handled.** One that is not written again is another one than those before it; one
that is was given back before. -/
theorem Sound.handle {m : Message} {letter : Letter} {older : List Entry} (sound : Sound first w)
    (here : w.At (place m) letter) (turn : w.log = .polled m :: older)
    (caught : AllHandled older) (new : .polled m ∉ older) :
    Sound first { w with
      givenBack := givenBackOf (room + 1) letter ++ w.givenBack, log := .handled m :: w.log } := by
  have origins : Cycle.origins { w with
      givenBack := givenBackOf (room + 1) letter ++ w.givenBack, log := .handled m :: w.log } =
      (givenBackOf (room + 1) letter).map GivenBack.origin ++ w.origins := List.map_append
  have polled : Entry.polled m ∈ w.log := by
    rw [turn]
    exact List.mem_cons_self
  have before : ∀ {m'}, .handled m' ∈ w.log → m' ≠ m := by
    rintro m' found rfl
    rw [turn] at found
    rcases List.mem_cons.mp found with impossible | old
    · cases impossible
    · exact new ((caught m').mpr old)
  refine ⟨sound.position, ?_, ?_, ?_, ?_, ?_⟩
  · intro m' found
    exact sound.polled m' (List.mem_of_ne_of_mem Entry.noConfusion found)
  · intro m' found
    rcases List.mem_cons.mp found with mine | old
    · obtain rfl := Entry.handled.inj mine
      exact List.mem_cons_of_mem _ polled
    · exact List.mem_cons_of_mem _ (sound.handled m' old)
  · intro place' letter' here' other
    obtain ⟨member, written⟩ := sound.again place' letter' here' other
    rw [origins]
    exact ⟨List.mem_append_right _ member, written⟩
  · intro noneAgain
    have mine : letter.origin = place m := noneAgain m letter List.mem_cons_self here
    obtain ⟨nodup, each⟩ := sound.once fun m' letter' found =>
      noneAgain m' letter' (List.mem_cons_of_mem _ found)
    have old : ∀ origin ∈ w.origins, ∃ m', .handled m' ∈ Entry.handled m :: w.log ∧
        place m' = origin := by
      intro origin member
      obtain ⟨m', found, same⟩ := each origin member
      exact ⟨m', List.mem_cons_of_mem _ found, same⟩
    rw [origins]
    rcases givenBackOf_origin (room + 1) letter with nothing | one
    · rw [nothing]
      exact ⟨nodup, old⟩
    · rw [one, mine]
      refine ⟨List.nodup_cons.mpr ⟨?_, nodup⟩, ?_⟩
      · intro member
        obtain ⟨m', found, same⟩ := each (place m) member
        exact before found (sound.polled_unique polled (sound.handled m' found) same)
      · intro origin member
        rcases List.mem_cons.mp member with rfl | member
        · exact ⟨m, List.mem_cons_self, rfl⟩
        · exact old origin member
  · intro someAgain
    rw [origins]
    by_cases noneAgain : NoneAgain w
    · -- all letters before were first ones, so this one is written again
      have other : letter.origin ≠ place m := by
        intro mine
        refine someAgain fun m' letter' found here' => ?_
        rcases List.mem_cons.mp found with same | old
        · obtain rfl := Entry.handled.inj same
          rw [Cycle.At.unique here' here]
          exact mine
        · exact noneAgain m' letter' old here'
      obtain ⟨member, error, value, deadLetteredAt, written⟩ := sound.again _ letter here other
      rw [givenBackOf_buildDeadletter letter written]
      exact fun nodup => (List.nodup_cons.mp nodup).1 member
    · exact fun nodup => sound.twice noneAgain nodup.of_append_right

/-- **The step lemma**: one call of the run. -/
theorem Sound.step {op : loopSig.Op} {answer : Except Exn (loopSig.Ans op)} {after : Cycle}
    (sound : Sound first w) (turn : InTurn op w.log)
    (step : replayStep (room + 1) op w answer after) :
    loopStep op w.log answer after.log ∧ Sound first after := by
  cases op with
  | inl op =>
    cases op with
    | poll =>
      cases answer with
      | error exn =>
        obtain rfl : after = w := step
        exact ⟨rfl, sound⟩
      | ok polled =>
        cases polled with
        | nothing =>
          obtain rfl : after = w := step
          exact ⟨rfl, sound⟩
        | error text =>
          obtain rfl : after = w := step
          exact ⟨rfl, sound⟩
        | message m =>
          obtain ⟨letter, here, same, rfl⟩ := step
          refine ⟨⟨rfl, fun earlier polled source => ?_⟩, sound.poll here same⟩
          obtain ⟨-, before, letter', -, eq⟩ := sound.polled earlier polled
          have offset : earlier.offset = ((place earlier).2 : ℕ) := congrArg Message.offset eq
          have offset' : m.offset = (w.position m.partition : ℕ) := congrArg Message.offset same
          have partition : earlier.partition = m.partition := congrArg Prod.snd source
          rw [partition] at before
          omega
    | commit m =>
      rcases step with rfl | ⟨raised, rfl⟩
      · exact ⟨.inl rfl, sound.cons fun _ => ⟨Entry.noConfusion, Entry.noConfusion⟩⟩
      · exact ⟨.inr ⟨raised, rfl⟩, sound⟩
    | makeConsumer =>
      obtain rfl : after = w := step
      exact ⟨rfl, sound⟩
    | stopIsSet =>
      obtain rfl : after = w := step
      exact ⟨rfl, sound⟩
    | monotonic =>
      obtain rfl : after = w := step
      exact ⟨rfl, sound⟩
    | close =>
      obtain rfl : after = w := step
      exact ⟨rfl, sound⟩
  | inr op =>
    -- a callback but the handler adds its entry and does nothing else
    have plain : (∀ m value, op ≠ .handler m value) →
        after = { w with log := op.outcome answer :: w.log } →
          loopStep (.inr op) w.log answer after.log ∧ Sound first after := by
      rintro other rfl
      refine ⟨rfl, sound.cons fun m => ?_⟩
      cases answer with
      | error exn => exact ⟨Entry.noConfusion, Entry.noConfusion⟩
      | ok value =>
        cases op with
        | handler m value' => exact absurd rfl (other m value')
        | afterHandler => exact ⟨Entry.noConfusion, Entry.noConfusion⟩
        | preCommit => exact ⟨Entry.noConfusion, Entry.noConfusion⟩
        | idleHook => exact ⟨Entry.noConfusion, Entry.noConfusion⟩
    cases op with
    | handler m value =>
      obtain ⟨letter, here, step⟩ := step
      obtain ⟨-, older, log, caught, new⟩ := turn
      cases answer with
      | ok value =>
        obtain ⟨-, rfl⟩ := step
        exact ⟨rfl, sound.handle here log caught new⟩
      | error exn =>
        obtain rfl := step
        exact ⟨rfl, sound.cons fun _ => ⟨Entry.noConfusion, Entry.noConfusion⟩⟩
    | afterHandler => exact plain (fun _ _ => CallbackOp.noConfusion) step
    | preCommit => exact plain (fun _ _ => CallbackOp.noConfusion) step
    | idleHook => exact plain (fun _ _ => CallbackOp.noConfusion) step

end Calls

/-! ### Runs -/

theorem Sound.start {partitions : Finset Int} {first : Cycle} (begins : Begins partitions first) :
    Sound first first := by
  have origins : first.origins = [] := by
    rw [Cycle.origins, begins.givenBack]
    rfl
  have empty : ∀ entry, entry ∉ first.log := by
    intro entry
    rw [begins.log]
    exact List.not_mem_nil
  refine ⟨fun _ => le_refl _, fun m found => absurd found (empty _),
    fun m found => absurd found (empty _), ?_, ?_, ?_⟩
  · exact fun place letter here other => absurd (begins.origin place letter here) other
  · intro _
    rw [origins]
    exact ⟨List.nodup_nil, fun _ member => absurd member List.not_mem_nil⟩
  · exact fun someAgain => absurd (fun m _ found _ => absurd found (empty _)) someAgain

/-- Any number of things happen elsewhere. -/
theorem Sound.elsewheres {first w after : Cycle} (sound : Sound first w)
    (steps : Relation.ReflTransGen Elsewhere w after) : Sound first after ∧ after.log = w.log := by
  induction steps with
  | refl => exact ⟨sound, rfl⟩
  | tail _ step ih =>
    obtain ⟨sound, log⟩ := ih
    refine ⟨sound.elsewhere step, Eq.trans ?_ log⟩
    cases step <;> rfl

/-- **The invariant holds wherever a run has got to.** -/
theorem Sound.run {partitions : Finset Int} {first w : Cycle} {room fuel : ℕ} {config : LoopConfig}
    {rest : Consuming (Option Nat)} (begins : Begins partitions first)
    (run : Prog.Steps (cycleMachine (room + 1)) (consumeLoop config fuel) first rest w) :
    Sound first w := by
  have simulates : ∀ op log (w : Cycle) answer (after : Cycle),
      log = w.log ∧ Sound first w → turnMachine.safe op log →
      (cycleMachine (room + 1)).step op w answer after →
        ∃ log', turnMachine.step op log answer log' ∧ log' = after.log ∧ Sound first after := by
    rintro op _ w answer after ⟨rfl, sound⟩ turn ⟨middle, elsewhere, step⟩
    obtain ⟨sound, same⟩ := sound.elsewheres elsewhere
    rw [← same] at turn ⊢
    obtain ⟨moved, sound⟩ := sound.step turn step
    exact ⟨after.log, moved, rfl, sound⟩
  have holds := consumeLoop_inTurn config fuel
  rw [← begins.log] at holds
  obtain ⟨log, ⟨-, sound⟩, -⟩ :=
    Prog.related_of_steps simulates run ⟨rfl, Sound.start begins⟩ holds
  exact sound

/-- Of first letters no more are given back than waited. -/
theorem Sound.length_le {partitions : Finset Int} {first w : Cycle} (sound : Sound first w)
    (begins : Begins partitions first) (noneAgain : NoneAgain w) (noNew : NoNewFailure first w) :
    w.givenBack.length ≤ waiting partitions first := by
  obtain ⟨nodup, each⟩ := sound.once noneAgain
  let waits : Finset Place := partitions.biUnion fun partition =>
    (Finset.Ico (first.position partition) (first.letters partition).length).image
      fun offset => (partition, offset)
  have inside : w.origins.toFinset ⊆ waits := by
    intro origin member
    obtain ⟨m, handled, rfl⟩ := each origin (List.mem_toFinset.mp member)
    obtain ⟨after, -, letter, here, -⟩ := sound.polled m (sound.handled m handled)
    have before := noNew (place m) letter here (noneAgain m letter handled here)
    refine Finset.mem_biUnion.mpr ⟨(place m).1, begins.partitions _ ?_, ?_⟩
    · exact List.ne_nil_of_length_pos (Nat.zero_lt_of_lt before)
    · exact Finset.mem_image.mpr ⟨(place m).2, Finset.mem_Ico.mpr ⟨after, before⟩, rfl⟩
  calc w.givenBack.length = w.origins.length := (List.length_map _).symm
    _ = w.origins.toFinset.card := (List.toFinset_card_of_nodup nodup).symm
    _ ≤ waits.card := Finset.card_le_card inside
    _ ≤ ∑ partition ∈ partitions, ((Finset.Ico (first.position partition)
          (first.letters partition).length).image fun offset => (partition, offset)).card :=
        Finset.card_biUnion_le
    _ ≤ waiting partitions first := Finset.sum_le_sum fun partition _ =>
        le_trans Finset.card_image_le (le_of_eq (Nat.card_Ico _ _))

/-- **Wherever a run has got to, it has given each letter's message back at most once exactly if it
has handled no letter that was written again.** -/
theorem republished_once_iff (partitions : Finset Int) (room fuel : ℕ) (idleTimeout : Int)
    (first w : Cycle) (rest : Consuming (Option Nat)) (begins : Begins partitions first)
    (run : Prog.Steps (cycleMachine (room + 1)) (consumeLoop (replayLoop idleTimeout) fuel) first
      rest w) :
    AtMostOnce partitions first w ↔ NoneAgain w := by
  have sound := Sound.run begins run
  constructor
  · rintro ⟨once, -⟩
    by_contra someAgain
    exact sound.twice someAgain (List.nodup_iff_count_le_one.mpr once)
  · intro noneAgain
    exact ⟨List.nodup_iff_count_le_one.mp (sound.once noneAgain).1,
      sound.length_le begins noneAgain⟩

/-! One letter whose message the embedder cannot take: it is written again, and read in the same
run. -/

def poison (deadLetteredAt : String) : Letter :=
  ⟨buildDeadletter "boom" "x" normalizedTopic deadLetteredAt, (0, 0)⟩

def poisonMessage (offset : ℕ) (deadLetteredAt : String) : Message :=
  ⟨deadletterTopic, 0, offset, some (poison deadLetteredAt).value⟩

/-- What its message is given back as. -/
def poisonGiven : GivenBack := ⟨literal normalizedTopic, literal "x", (0, 0)⟩

def poisonStart : Cycle where
  letters := Function.update (fun _ => []) 0 [poison "first"]
  position _ := 0

/-- The letter is read and handled, and its offset committed. -/
def poisonOnce : Cycle :=
  { poisonStart with
    position := Function.update poisonStart.position 0 1
    givenBack := [poisonGiven]
    log := [.committed (poisonMessage 0 "first"), .preCommitted,
      .handled (poisonMessage 0 "first"), .polled (poisonMessage 0 "first")] }

/-- The letter that the embedder writes is read and handled. -/
def poisonTwice : Cycle :=
  { poisonOnce.append 0 (poison "again") with
    position := Function.update poisonOnce.position 0 2
    givenBack := poisonGiven :: poisonOnce.givenBack
    log := .handled (poisonMessage 1 "again") :: .polled (poisonMessage 1 "again") ::
      poisonOnce.log }

theorem begins_poison : Begins {0} poisonStart where
  givenBack := rfl
  log := rfl
  origin := by
    rintro ⟨partition, offset⟩ letter here
    have start : poisonStart = ({ poisonStart with letters := fun _ => [] } : Cycle).append 0
        (poison "first") := rfl
    rw [start, at_append_iff] at here
    rcases here with impossible | ⟨same, rfl⟩
    · cases impossible
    · exact same.symm
  partitions partition some := by
    by_contra other
    rw [Finset.mem_singleton] at other
    refine some ?_
    unfold poisonStart
    dsimp only
    rw [Function.update_of_ne other]

theorem handles_poison (w : Cycle) (offset : ℕ) (deadLetteredAt : String)
    (here : w.At (0, offset) (poison deadLetteredAt)) :
    (cycleMachine 1).step (.inr (.handler (poisonMessage offset deadLetteredAt)
      (poison deadLetteredAt).value)) w (.ok ()) { w with
        givenBack := poisonGiven :: w.givenBack
        log := .handled (poisonMessage offset deadLetteredAt) :: w.log } := by
  refine ⟨w, .refl, poison deadLetteredAt, here, ⟨.string (literal normalizedTopic), ?_⟩, ?_⟩
  · rw [poison, replayRecord_buildDeadletter 0 "boom" "x" normalizedTopic deadLetteredAt (by decide)]
  · rw [givenBackOf_buildDeadletter (poison deadLetteredAt) rfl]
    rfl

theorem monotonic_poison (w : Cycle) :
    (cycleMachine 1).step (.inl .monotonic) w (.ok (0 : Int)) w := ⟨w, .refl, rfl⟩

theorem run_poison : ∃ rest, Prog.Steps (cycleMachine 1) (consumeLoop (replayLoop 10) 2)
    poisonStart rest poisonTwice := by
  have opened : (cycleMachine 1).step (.inl .makeConsumer) poisonStart (.ok ()) poisonStart :=
    ⟨_, .refl, rfl⟩
  have polled : (cycleMachine 1).step (.inl .poll) poisonStart
      (.ok (.message (poisonMessage 0 "first"))) { poisonStart with
        position := Function.update poisonStart.position 0 1
        log := [.polled (poisonMessage 0 "first")] } := ⟨_, .refl, poison "first", rfl, rfl, rfl⟩
  have handled := handles_poison { poisonStart with
    position := Function.update poisonStart.position 0 1
    log := [.polled (poisonMessage 0 "first")] } 0 "first" rfl
  have flushed : (cycleMachine 1).step (.inr .preCommit) { poisonOnce with
      log := [.handled (poisonMessage 0 "first"), .polled (poisonMessage 0 "first")] } (.ok ())
      { poisonOnce with log := [.preCommitted, .handled (poisonMessage 0 "first"),
        .polled (poisonMessage 0 "first")] } := ⟨_, .refl, rfl⟩
  have committed : (cycleMachine 1).step (.inl (.commit (poisonMessage 0 "first")))
      { poisonOnce with log := [.preCommitted, .handled (poisonMessage 0 "first"),
        .polled (poisonMessage 0 "first")] } (.ok ()) poisonOnce := ⟨_, .refl, .inl rfl⟩
  have written : Elsewhere poisonOnce (poisonOnce.append 0 (poison "again")) :=
    @Elsewhere.again poisonOnce poisonGiven "x" List.mem_cons_self rfl rfl 0 "boom" "again"
  have polled' : (cycleMachine 1).step (.inl .poll) poisonOnce
      (.ok (.message (poisonMessage 1 "again"))) { poisonOnce.append 0 (poison "again") with
        position := Function.update poisonOnce.position 0 2
        log := .polled (poisonMessage 1 "again") :: poisonOnce.log } :=
    ⟨_, .single written, poison "again", rfl, rfl, rfl⟩
  have handled' := handles_poison { poisonOnce.append 0 (poison "again") with
    position := Function.update poisonOnce.position 0 2
    log := .polled (poisonMessage 1 "again") :: poisonOnce.log } 1 "again" rfl
  exact ⟨_, .call opened (.call (monotonic_poison _) (.call polled (.call (monotonic_poison _)
    (.call handled (.call flushed (.call committed (.call polled' (.call (monotonic_poison _)
      (.call handled' (.refl _ _))))))))))⟩

theorem republished_once_iff_poison :
    AtMostOnce {0} poisonStart poisonTwice ↔ NoneAgain poisonTwice :=
  run_poison.elim fun rest run =>
    republished_once_iff {0} 0 2 10 poisonStart poisonTwice rest begins_poison run

/-- With one letter waiting and nothing else failing, the run gives its message back twice. -/
theorem poison_given_back_twice : ¬ ∀ (first w : Cycle) (rest : Consuming (Option Nat)),
    Begins {0} first →
    Prog.Steps (cycleMachine 1) (consumeLoop (replayLoop 10) 2) first rest w →
      AtMostOnce {0} first w := by
  intro promise
  obtain ⟨rest, run⟩ := run_poison
  have once := (promise poisonStart poisonTwice rest begins_poison run).1 (0, 0)
  revert once
  decide

end Freshet.Pipeline
