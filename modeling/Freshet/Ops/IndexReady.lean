/-
**`wait_ready`: the index has caught up.**

The poller writes raw records, the stream job turns them into messages of `normalized.updates`, and
the embedder handles those. `wait_ready` reads the lag of the two groups one after the other, while
all three go on; it returns after a pass in which both were zero. That the two were never zero at one
instant does not matter, because the stream's lag is read first: what was raw by then has its output
in the second topic before the embedder's lag is read.

* `readGroups`, `waitReady`: the program text;
* `Pipeline.Moves`: what the poller, the stream job and the embedder may do, with the two
  assumptions on committed offsets as guards;
* `watching`: one read, sleep or clock call after whatever the others did;
* `ready_means_drained`.

The `while` loop gets the number of its turns as an argument, and `none` is the outcome of a run that
has used them up.
-/

import Freshet.Lib.Prog
import Freshet.Lib.Dict
import Freshet.Lib.Topic
import Mathlib.Data.Rat.Floor

set_option linter.unusedSectionVars false

namespace Freshet.Ops

open Freshet.Lib

/-! ### The program -/

inductive Exn where
  | runtimeError (text : String)
  | timeoutError (text : String)
  | other (text : String)
  deriving DecidableEq, Repr

/-- What `wait_ready` calls: its four callbacks. -/
inductive Op where
  | clock
  | sleep (seconds : Rat)
  | read (group : String)
  | emit (text : String)
  deriving DecidableEq

abbrev Op.Ans : Op → Type
  | .clock => Rat
  | .read _ => Int
  | .sleep _ | .emit _ => Unit

abbrev sig : Sig := ⟨Op, Op.Ans⟩

abbrev Waiting (α : Type) := Prog sig Exn α

abbrev ask (op : Op) : Waiting op.Ans := @Prog.perform sig Exn op

/-- `GROUPS`. -/
def groups : List String := ["freshet-stream", "embedder"]

structure WaitConfig where
  timeoutS : Rat := 300
  intervalS : Rat := 5
  groups : List String := Ops.groups

/-- One pass over the groups: the errors, and the lags that could be read. -/
def readGroups : List String → List String → Dict String Int →
    Waiting (List String × Dict String Int)
  | [], errors, last => .ret (errors, last)
  | group :: rest, errors, last => do
    let answer ← (ask (.read group)).attempt
    match answer with
    | .ok lag => readGroups rest errors (last.set group lag)
    | .error (.runtimeError text) => readGroups rest (errors ++ [text]) last
    | .error exn => .raise exn

/-- `detail`. -/
def detail (errors : List String) (last : Dict String Int) : String :=
  if errors ≠ [] then "; ".intercalate errors
  else ", ".intercalate (last.map fun item => s!"{item.1}={item.2}")

/-- A float with the format `.0f`: ties go to the even number. -/
def fixedPoint (x : Rat) : String :=
  let floor := x.floor
  let half := x - floor
  let rounded := if half < 1 / 2 ∨ half = 1 / 2 ∧ floor % 2 = 0 then floor else floor + 1
  if rounded = 0 ∧ x < 0 then "-0" else toString rounded

def timeoutText (config : WaitConfig) (errors : List String) (last : Dict String Int) : String :=
  s!"index did not catch up within {fixedPoint config.timeoutS}s ({detail errors last}); "
    ++ "leave the poller, stream, and embedder running and retry"

/-- The turns of the `while` loop. -/
def waitTurns (config : WaitConfig) (deadline : Rat) : Nat → Waiting (Option (Dict String Int))
  | 0 => .ret none
  | turns + 1 => do
    let (errors, last) ← readGroups config.groups [] []
    if errors = [] ∧ last.values.all (· == 0) then do
      ask (.emit "[index-ready] stream and embedder lag are both 0")
      return some last
    else do
      let now ← ask .clock
      if now ≥ deadline then .raise (.timeoutError (timeoutText config errors last))
      else do
        ask (.emit s!"[index-ready] waiting for catch-up ({detail errors last})")
        let now ← ask .clock
        ask (.sleep (min config.intervalS (max 0 (deadline - now))))
        waitTurns config deadline turns

def waitReady (config : WaitConfig) (turns : Nat) : Waiting (Option (Dict String Int)) := do
  let now ← ask .clock
  waitTurns config (now + config.timeoutS) turns

/-! ### The pipeline -/

/-- The two topics with the offsets of the group that reads each, and the messages the embedder has
handled. A message of `normalized.updates` is tagged with the raw record it is an output of. -/
structure Pipeline (P Q R O : Type) where
  raw : Topic P R := {}
  normalized : Topic Q ((P × Nat) × O) := {}
  handled : Q → Nat → Prop := fun _ _ => False

namespace Pipeline

variable {P Q R O : Type} [DecidableEq P] [DecidableEq Q]

/-- A message that is this output of the raw record at this offset. -/
def Emitted (pipeline : Pipeline P Q R O) (partition : P) (offset : Nat) (output : O) : Prop :=
  ∃ target at_offset, pipeline.normalized.At target at_offset ((partition, offset), output)

/-- Such a message, handled by the embedder. -/
def Handled (pipeline : Pipeline P Q R O) (partition : P) (offset : Nat) (output : O) : Prop :=
  ∃ target at_offset, pipeline.normalized.At target at_offset ((partition, offset), output) ∧
    pipeline.handled target at_offset

variable (outputs : P → Nat → List O)

/-- All outputs of a raw record are in `normalized.updates`. -/
def Normalized (pipeline : Pipeline P Q R O) (partition : P) (offset : Nat) : Prop :=
  ∀ output ∈ outputs partition offset, pipeline.Emitted partition offset output

/-- All outputs of a raw record have been handled by the embedder. -/
def Indexed (pipeline : Pipeline P Q R O) (partition : P) (offset : Nat) : Prop :=
  ∀ output ∈ outputs partition offset, pipeline.Handled partition offset output

/-- **What the three processes may do.** `outputs` is what the stream job makes of each raw record,
by its place; the job may write an output more than once. A group commits an offset only past what is
done: that is what is assumed of the two. -/
inductive Moves : Pipeline P Q R O → Pipeline P Q R O → Prop where
  | poll (pipeline : Pipeline P Q R O) (partition : P) (record : R) :
      Moves pipeline { pipeline with raw := pipeline.raw.append partition record }
  | stream (pipeline : Pipeline P Q R O) {partition : P} {offset : Nat} {output : O} (target : Q)
      (present : offset < (pipeline.raw.log partition).length)
      (due : output ∈ outputs partition offset) :
      Moves pipeline { pipeline with
        normalized := pipeline.normalized.append target ((partition, offset), output) }
  | streamCommit (pipeline : Pipeline P Q R O) {partition : P} {upTo : Nat}
      (inside : upTo ≤ (pipeline.raw.log partition).length)
      (done : ∀ offset, offset < upTo → pipeline.Normalized outputs partition offset) :
      Moves pipeline { pipeline with raw := pipeline.raw.commit partition upTo }
  | embed (pipeline : Pipeline P Q R O) {target : Q} {offset : Nat}
      (present : offset < (pipeline.normalized.log target).length) :
      Moves pipeline { pipeline with
        handled := fun other at_offset => pipeline.handled other at_offset ∨
          other = target ∧ at_offset = offset }
  | embedderCommit (pipeline : Pipeline P Q R O) {target : Q} {upTo : Nat}
      (inside : upTo ≤ (pipeline.normalized.log target).length)
      (done : ∀ offset, offset < upTo → pipeline.handled target offset) :
      Moves pipeline { pipeline with normalized := pipeline.normalized.commit target upTo }

/-- Any number of moves, by any of the three. -/
def Reaches : Pipeline P Q R O → Pipeline P Q R O → Prop :=
  Relation.ReflTransGen (Moves outputs)

/-- How long the raw log of each partition is. -/
def ends (pipeline : Pipeline P Q R O) (partition : P) : Nat := (pipeline.raw.log partition).length

/-! ### What the moves keep -/

/-- Both groups are honest. -/
structure Sound (pipeline : Pipeline P Q R O) : Prop where
  raw : pipeline.raw.Honest (pipeline.Normalized outputs)
  normalized : pipeline.normalized.Honest pipeline.handled

/-- Nothing written is lost, and nothing handled becomes unhandled. -/
structure Grows (earlier later : Pipeline P Q R O) : Prop where
  ends : ∀ partition, earlier.ends partition ≤ later.ends partition
  normalized : Topic.Extends earlier.normalized later.normalized
  handled : ∀ target offset, earlier.handled target offset → later.handled target offset

variable {outputs}

theorem Grows.refl (pipeline : Pipeline P Q R O) : Grows pipeline pipeline :=
  ⟨fun _ => Nat.le_refl _, Topic.Extends.refl _, fun _ _ held => held⟩

theorem Grows.trans {first second third : Pipeline P Q R O} (one : Grows first second)
    (two : Grows second third) : Grows first third :=
  ⟨fun partition => Nat.le_trans (one.ends partition) (two.ends partition),
    one.normalized.trans two.normalized,
    fun target offset held => two.handled target offset (one.handled target offset held)⟩

/-- What is in `normalized.updates` stays there. -/
theorem Normalized.mono {earlier later : Pipeline P Q R O}
    (grown : Topic.Extends earlier.normalized later.normalized) {partition : P} {offset : Nat}
    (held : earlier.Normalized outputs partition offset) :
    later.Normalized outputs partition offset := by
  intro output due
  obtain ⟨target, at_offset, here⟩ := held output due
  exact ⟨target, at_offset, grown _ _ _ here⟩

theorem Indexed.mono {earlier later : Pipeline P Q R O} (grown : Grows earlier later)
    {partition : P} {offset : Nat} (held : earlier.Indexed outputs partition offset) :
    later.Indexed outputs partition offset := by
  intro output due
  obtain ⟨target, at_offset, here, handled⟩ := held output due
  exact ⟨target, at_offset, grown.normalized _ _ _ here, grown.handled _ _ handled⟩

theorem grows_of_moves {before after : Pipeline P Q R O} (moves : Moves outputs before after) :
    Grows before after := by
  cases moves with
  | poll partition record =>
    refine { Grows.refl before with ends := fun other => ?_ }
    show _ ≤ (Function.update before.raw.log partition _ other).length
    by_cases same : other = partition
    · subst same
      rw [Function.update_self, List.length_append]
      exact Nat.le_add_right _ _
    · rw [Function.update_of_ne same]
      exact Nat.le_refl _
  | stream target present due =>
    exact { Grows.refl before with normalized := Topic.extends_append _ _ _ }
  | streamCommit inside done => exact { Grows.refl before with ends := fun _ => Nat.le_refl _ }
  | embed present =>
    exact { Grows.refl before with handled := fun _ _ held => Or.inl held }
  | embedderCommit inside done =>
    exact { Grows.refl before with normalized := Topic.extends_commit _ _ _ }

theorem sound_of_moves {before after : Pipeline P Q R O} (sound : Sound outputs before)
    (moves : Moves outputs before after) : Sound outputs after := by
  cases moves with
  | poll partition record => exact ⟨sound.raw.append partition record, sound.normalized⟩
  | stream target present due =>
    refine ⟨sound.raw.mono fun _ _ held => Normalized.mono ?_ held, sound.normalized.append _ _⟩
    exact Topic.extends_append _ _ _
  | streamCommit inside done => exact ⟨sound.raw.commit inside done, sound.normalized⟩
  | embed present => exact ⟨sound.raw, sound.normalized.mono fun _ _ held => Or.inl held⟩
  | embedderCommit inside done =>
    refine ⟨sound.raw.mono fun _ _ held => Normalized.mono ?_ held,
      sound.normalized.commit inside done⟩
    exact Topic.extends_commit before.normalized _ _

theorem grows_of_reaches {before after : Pipeline P Q R O} (run : Reaches outputs before after) :
    Grows before after := by
  induction run with
  | refl => exact Grows.refl before
  | tail _ one ih => exact ih.trans (grows_of_moves one)

theorem sound_of_reaches {before after : Pipeline P Q R O} (sound : Sound outputs before)
    (run : Reaches outputs before after) : Sound outputs after := by
  induction run with
  | refl => exact sound
  | tail _ one ih => exact sound_of_moves ih one

theorem sound_empty : Sound outputs ({} : Pipeline P Q R O) :=
  ⟨Topic.honest_empty _, Topic.honest_empty _⟩

variable [Fintype P] [Fintype Q]

/-- **The first stage is drained**: what is raw now is normalized now. -/
theorem normalized_of_lag {pipeline : Pipeline P Q R O} (sound : Sound outputs pipeline)
    (drained : pipeline.raw.lag = 0) {partition : P} {offset : Nat}
    (inside : offset < pipeline.ends partition) : pipeline.Normalized outputs partition offset :=
  sound.raw.done_of_lag drained inside

/-- **The second stage is drained**: what is normalized now is handled now. -/
theorem indexed_of_lag {pipeline : Pipeline P Q R O} (sound : Sound outputs pipeline)
    (drained : pipeline.normalized.lag = 0) {partition : P} {offset : Nat}
    (held : pipeline.Normalized outputs partition offset) :
    pipeline.Indexed outputs partition offset := by
  intro output due
  obtain ⟨target, at_offset, here⟩ := held output due
  have inside : at_offset < (pipeline.normalized.log target).length :=
    (List.getElem?_eq_some_iff.mp here).1
  exact ⟨target, at_offset, here, sound.normalized.done_of_lag drained inside⟩

end Pipeline

/-! ### The watcher among the three -/

section Watching

variable {P Q R O : Type} [DecidableEq P] [DecidableEq Q] [Fintype P] [Fintype Q]
variable (outputs : P → Nat → List O)

/-- The pipeline, and how much was raw when the pass began (history): after the last reading of the
clock or the last sleep. -/
structure Watch (P Q R O : Type) where
  pipeline : Pipeline P Q R O
  began : P → Nat

/-- **One call of `wait_ready`**, after whatever the three processes did since the one before. A lag
that is read is the group's lag at that moment; any call may fail. -/
def watching : Machine sig Exn (Watch P Q R O) where
  safe _ _ := True
  step op before answer after := ∃ now, Pipeline.Reaches outputs before.pipeline now ∧
    match op, answer with
    | .read group, .ok lag => (group = "freshet-stream" → lag = now.raw.lag) ∧
        (group = "embedder" → lag = now.normalized.lag) ∧ after = ⟨now, before.began⟩
    | .read _, .error _ => after = ⟨now, before.began⟩
    | .emit _, _ => after = ⟨now, before.began⟩
    | .clock, _ => after = ⟨now, now.ends⟩
    | .sleep _, _ => after = ⟨now, now.ends⟩

variable {outputs}

/-- The watcher's picture is one of a sound pipeline, and nothing raw was lost since the pass began. -/
structure Watched (outputs : P → Nat → List O) (watch : Watch P Q R O) : Prop where
  sound : watch.pipeline.Sound outputs
  began : ∀ partition, watch.began partition ≤ watch.pipeline.ends partition

/-- What was raw when the pass began has been handled. -/
def Drained (outputs : P → Nat → List O) (watch : Watch P Q R O) : Prop :=
  ∀ partition offset, offset < watch.began partition →
    watch.pipeline.Indexed outputs partition offset

omit [Fintype P] [Fintype Q] in
/-- The three processes keep the picture. -/
theorem Watched.reaches {watch : Watch P Q R O} {now : Pipeline P Q R O}
    (watched : Watched outputs watch) (run : Pipeline.Reaches outputs watch.pipeline now) :
    Watched outputs ⟨now, watch.began⟩ where
  sound := Pipeline.sound_of_reaches watched.sound run
  began partition :=
    Nat.le_trans (watched.began partition) ((Pipeline.grows_of_reaches run).ends partition)

/-- Every call keeps the picture. -/
theorem Watched.step {op : Op} {watch after : Watch P Q R O} {answer : Except Exn op.Ans}
    (watched : Watched outputs watch) (step : (watching outputs).step op watch answer after) :
    Watched outputs after := by
  obtain ⟨now, run, moved⟩ := step
  have kept := watched.reaches run
  have restarted : Watched outputs ⟨now, now.ends⟩ := ⟨kept.sound, fun _ => Nat.le_refl _⟩
  cases op with
  | clock =>
    obtain rfl : after = ⟨now, now.ends⟩ := by cases answer <;> exact moved
    exact restarted
  | sleep seconds =>
    obtain rfl : after = ⟨now, now.ends⟩ := by cases answer <;> exact moved
    exact restarted
  | emit text =>
    obtain rfl : after = ⟨now, watch.began⟩ := by cases answer <;> exact moved
    exact kept
  | read group =>
    cases answer with
    | error exn =>
      obtain rfl : after = ⟨now, watch.began⟩ := moved
      exact kept
    | ok lag =>
      obtain rfl : after = ⟨now, watch.began⟩ := moved.2.2
      exact kept

/-- What a pass leaves: when it saw two zeros, what was raw at its beginning is indexed. -/
def PassEnd (outputs : P → Nat → List O) :
    Except Exn (List String × Dict String Int) → Watch P Q R O → Prop
  | .ok (errors, last), after => Watched outputs after ∧
      (errors = [] ∧ last.values.all (· == 0) = true → Drained outputs after)
  | .error _, _ => True

/-- A pass that has already seen an error, or a lag other than zero, promises nothing more. -/
theorem readGroups_spoilt (names : List String) (errors : List String) (last : Dict String Int)
    {watch : Watch P Q R O} (watched : Watched outputs watch)
    (spoilt : errors ≠ [] ∨ ∃ group lag, last.get group = some lag ∧ lag ≠ 0 ∧ group ∉ names) :
    (readGroups names errors last).wp (watching outputs) (PassEnd outputs) watch := by
  induction names generalizing errors last watch with
  | nil =>
    refine ⟨watched, fun clean => ?_⟩
    rcases spoilt with wrong | ⟨group, lag, found, nonzero, _⟩
    · exact absurd clean.1 wrong
    · have zero := List.all_eq_true.mp clean.2 lag
        (List.mem_map.mpr ⟨(group, lag), Dict.mem_of_get found, rfl⟩)
      exact absurd (eq_of_beq zero) nonzero
  | cons name names ih =>
    refine ⟨trivial, fun answer after step => ?_⟩
    have kept := watched.step step
    cases answer with
    | ok lag =>
      refine ih errors (last.set name lag) kept ?_
      rcases spoilt with wrong | ⟨group, value, found, nonzero, absent⟩
      · exact Or.inl wrong
      · refine Or.inr ⟨group, value, ?_, nonzero, fun later => absent (List.mem_cons_of_mem _ later)⟩
        have apart : group ≠ name := fun same => absent (same ▸ List.mem_cons_self)
        rw [Dict.get_set, if_neg apart]
        exact found
    | error exn =>
      cases exn with
      | runtimeError text => exact ih (errors ++ [text]) last kept (Or.inl (by simp))
      | timeoutError text => trivial
      | other text => trivial

/-- **One pass over the two groups.** The stream's lag is read first: what was raw then is normalized
then, and stays so until the embedder's lag is read. -/
theorem readGroups_spec {watch : Watch P Q R O} (watched : Watched outputs watch) :
    (readGroups groups [] []).wp (watching outputs) (PassEnd outputs) watch := by
  refine ⟨trivial, fun answer after step => ?_⟩
  have kept := watched.step step
  cases answer with
  | error exn =>
    cases exn with
    | runtimeError text => exact readGroups_spoilt ["embedder"] [text] [] kept (Or.inl (by simp))
    | timeoutError text => trivial
    | other text => trivial
  | ok streamLag =>
    show (readGroups ["embedder"] [] [("freshet-stream", streamLag)]).wp _ _ after
    by_cases caughtUp : streamLag = 0
    · obtain ⟨now, run, lag, _, rfl⟩ := step
      have sound := Pipeline.sound_of_reaches watched.sound run
      have drained : now.raw.lag = 0 := by
        have equal := lag rfl
        rw [caughtUp] at equal
        exact Int.natCast_eq_zero.mp equal.symm
      have normalized : ∀ partition offset, offset < watch.began partition →
          now.Normalized outputs partition offset := by
        intro partition offset began
        exact Pipeline.normalized_of_lag sound drained
          (Nat.lt_of_lt_of_le began (kept.began partition))
      refine ⟨trivial, fun answer last step => ?_⟩
      have again := kept.step step
      cases answer with
      | error exn =>
        cases exn with
        | runtimeError text =>
          refine ⟨again, fun clean => ?_⟩
          exact absurd clean.1 (by simp)
        | timeoutError text => trivial
        | other text => trivial
      | ok embedderLag =>
        obtain ⟨later, more, _, lag, rfl⟩ := step
        refine ⟨again, fun clean partition offset began => ?_⟩
        have zero : embedderLag = 0 := by
          have all := List.all_eq_true.mp clean.2 embedderLag (by simp [Dict.values, Dict.set])
          exact eq_of_beq all
        have empty : later.normalized.lag = 0 := by
          have equal := lag rfl
          rw [zero] at equal
          exact Int.natCast_eq_zero.mp equal.symm
        have grown := (Pipeline.grows_of_reaches more).normalized
        exact Pipeline.indexed_of_lag again.sound empty
          (Pipeline.Normalized.mono grown (normalized partition offset began))
    · exact readGroups_spoilt ["embedder"] [] _ kept
        (Or.inr ⟨"freshet-stream", streamLag, rfl, caughtUp, by decide⟩)

/-- What `wait_ready` leaves. -/
def WaitEnd (outputs : P → Nat → List O) :
    Except Exn (Option (Dict String Int)) → Watch P Q R O → Prop
  | .ok (some _), after => Drained outputs after
  | _, _ => True

/-- The loop: every pass begins with a true picture. -/
theorem waitTurns_spec {config : WaitConfig} (default : config.groups = groups) (deadline : Rat)
    (turns : Nat) {watch : Watch P Q R O} (watched : Watched outputs watch) :
    (waitTurns config deadline turns).wp (watching outputs) (WaitEnd outputs) watch := by
  induction turns generalizing watch with
  | zero => trivial
  | succ turns ih =>
    unfold waitTurns
    rw [default]
    refine Prog.wp_bind.mpr (Prog.wp_mono ?_ (readGroups_spec watched))
    intro outcome after ended
    cases outcome with
    | error exn => trivial
    | ok result =>
      obtain ⟨errors, last⟩ := result
      obtain ⟨kept, drained⟩ := ended
      show (if errors = [] ∧ last.values.all (· == 0) = true then _ else _ :
        Waiting (Option (Dict String Int))).wp _ _ after
      split_ifs with clean
      · refine ⟨trivial, fun answer final step => ?_⟩
        cases answer with
        | error exn => trivial
        | ok done =>
          obtain ⟨now, run, rfl⟩ := step
          intro partition offset began
          exact Pipeline.Indexed.mono (Pipeline.grows_of_reaches run)
            (drained clean partition offset began)
      · refine ⟨trivial, fun answer read step => ?_⟩
        have kept := kept.step step
        cases answer with
        | error exn => trivial
        | ok now =>
          show (if now ≥ deadline then _ else _ : Waiting (Option (Dict String Int))).wp _ _ read
          split_ifs with late
          · trivial
          · refine ⟨trivial, fun answer told step => ?_⟩
            have kept := kept.step step
            cases answer with
            | error exn => trivial
            | ok done =>
              refine ⟨trivial, fun answer again step => ?_⟩
              have kept := kept.step step
              cases answer with
              | error exn => trivial
              | ok now =>
                refine ⟨trivial, fun answer slept step => ?_⟩
                have kept := kept.step step
                cases answer with
                | error exn => trivial
                | ok done => exact ih kept

theorem waitReady_spec {config : WaitConfig} (default : config.groups = groups) (turns : Nat)
    {watch : Watch P Q R O} (watched : Watched outputs watch) :
    (waitReady config turns).wp (watching outputs) (WaitEnd outputs) watch := by
  refine ⟨trivial, fun answer after step => ?_⟩
  have kept := watched.step step
  cases answer with
  | error exn => trivial
  | ok now => exact waitTurns_spec default _ turns kept

/-- **Ready means drained.** Whatever the three processes do between the calls of `wait_ready`, and
whichever of its reads fail: when it returns, every raw record that was there when its last pass began
has had its output handled by the embedder. -/
theorem ready_means_drained {config : WaitConfig} (default : config.groups = groups) {turns : Nat}
    {first : Pipeline P Q R O} (reached : Pipeline.Reaches outputs {} first) {lags : Dict String Int}
    {last : Watch P Q R O}
    (run : Prog.Steps (watching outputs) (waitReady config turns) ⟨first, first.ends⟩
      (.ret (some lags)) last) : Drained outputs last := by
  have watched : Watched outputs (⟨first, first.ends⟩ : Watch P Q R O) :=
    ⟨Pipeline.sound_of_reaches Pipeline.sound_empty reached, fun _ => Nat.le_refl _⟩
  exact Prog.wp_steps run (waitReady_spec default turns watched)

/-! ### One record through the pipeline, and a later one behind it -/

def onlyUpdate : Unit → Nat → List String := fun _ _ => ["update"]

/-- A record has been polled. -/
def polled : Pipeline Unit Unit String String where
  raw := ({} : Topic Unit String).append () "raw"

/-- It has been turned into one message, and its offset committed. -/
def streamed : Pipeline Unit Unit String String where
  raw := polled.raw.commit () 1
  normalized := ({} : Topic Unit ((Unit × Nat) × String)).append () (((), 0), "update")

/-- The message has been handled and committed; the poller has written another record. -/
def embedded : Pipeline Unit Unit String String where
  raw := streamed.raw.append () "later"
  normalized := streamed.normalized.commit () 1
  handled other offset := False ∨ other = () ∧ offset = 0

theorem reaches_polled : Pipeline.Reaches onlyUpdate {} polled :=
  .single (.poll _ () "raw")

theorem reaches_streamed : Pipeline.Reaches onlyUpdate polled streamed := by
  have written := Relation.ReflTransGen.single (@Pipeline.Moves.stream _ _ _ _ _ _ onlyUpdate polled
    () 0 "update" () (show 0 < 1 by decide) List.mem_cons_self)
  refine written.tail (@Pipeline.Moves.streamCommit _ _ _ _ _ _ onlyUpdate _ () 1 (Nat.le_refl 1) ?_)
  intro offset below output due
  obtain rfl : offset = 0 := by omega
  obtain rfl := List.mem_singleton.mp due
  exact ⟨(), 0, rfl⟩

theorem reaches_embedded : Pipeline.Reaches onlyUpdate streamed embedded := by
  have handled := Relation.ReflTransGen.single (@Pipeline.Moves.embed _ _ _ _ _ _ onlyUpdate streamed
    () 0 (show 0 < 1 by decide))
  have committed := handled.tail (@Pipeline.Moves.embedderCommit _ _ _ _ _ _ onlyUpdate _ () 1
    (Nat.le_refl 1) fun offset below => Or.inr ⟨rfl, by omega⟩)
  exact committed.tail (.poll _ () "later")

/-- **The stream job commits before the first reading, the embedder between the two**, and a record
that is written meanwhile is not waited for: the one that was there has been handled. -/
theorem ready_means_drained_between : embedded.raw.lag = 1 ∧ embedded.Indexed onlyUpdate () 0 := by
  refine ⟨by decide, ?_⟩
  have opened : (watching onlyUpdate).step .clock ⟨polled, polled.ends⟩ (.ok 0)
      ⟨polled, polled.ends⟩ := ⟨polled, .refl, rfl⟩
  have first : (watching onlyUpdate).step (.read "freshet-stream") ⟨polled, polled.ends⟩ (.ok 0)
      ⟨streamed, polled.ends⟩ := ⟨streamed, reaches_streamed, fun _ => rfl, by decide, rfl⟩
  have second : (watching onlyUpdate).step (.read "embedder") ⟨streamed, polled.ends⟩ (.ok 0)
      ⟨embedded, polled.ends⟩ := ⟨embedded, reaches_embedded, by decide, fun _ => rfl, rfl⟩
  have told : (watching onlyUpdate).step (.emit "[index-ready] stream and embedder lag are both 0")
      ⟨embedded, polled.ends⟩ (.ok ()) ⟨embedded, polled.ends⟩ := ⟨embedded, .refl, rfl⟩
  have run : Prog.Steps (watching onlyUpdate) (waitReady {} 1) ⟨polled, polled.ends⟩
      (.ret (some [("freshet-stream", 0), ("embedder", 0)])) ⟨embedded, polled.ends⟩ :=
    .call opened (.call first (.call second (.call told (.refl _ _))))
  exact ready_means_drained rfl reaches_polled run () 0 (show 0 < 1 by decide)

end Watching

end Freshet.Ops
