/-
**A clean exit leaves nothing behind.**

When `consume_loop` returns, on a stop, after `max_messages` or after an idle timeout, no callback has
failed, every message it has polled has been handled and committed, and what it returns is their number,
not more than `max_messages` (`clean_exit`): the next life begins behind all of them. The number is
counted turn by turn (`counts_turn`), what is committed is `Commits`' own invariant.
-/

import Freshet.Kafka.Commits

namespace Freshet.Kafka

open Freshet.Lib

/-- The loop's calls, unchecked. -/
def freely : Machine loopSig Exn (List Entry) := ⟨fun _ _ => True, loopStep⟩

/-- What is proved of checked calls holds of unchecked ones. -/
theorem wp_freely {α : Type} {config : LoopConfig} {program : Consuming α}
    {post : Except Exn α → List Entry → Prop} {log : List Entry}
    (holds : program.wp (loopMachine config) post log) : program.wp freely post log :=
  @Prog.wp_permit _ _ _ _ (loopMachine config) freely _ _ _ (fun _ _ _ => trivial)
    (fun _ _ _ _ moved => moved) holds

section Counting

variable {config : LoopConfig} {log : List Entry}

/-- Nothing more has been handled. -/
def Unhandled (log : List Entry) : List Entry → Prop := fun after =>
  (handledMessages after).length = (handledMessages log).length

theorem counts_consumer (op : ConsumerOp) :
    (consumer op).wp freely (Prog.Ends (fun _ => True) fun _ => Unhandled log) log := by
  refine (@Prog.wp_perform loopSig Exn _ _ (.inl op) _ log).mpr ⟨trivial, fun answer after step => ?_⟩
  have kept : Unhandled log after := by
    cases op with
    | makeConsumer => exact congrArg _ (congrArg _ step)
    | stopIsSet => exact congrArg _ (congrArg _ step)
    | monotonic => exact congrArg _ (congrArg _ step)
    | close => exact congrArg _ (congrArg _ step)
    | commit m =>
      rcases step with rfl | ⟨-, rfl⟩
      · rfl
      · rfl
    | poll =>
      match answer with
      | .error exn => exact congrArg _ (congrArg _ step)
      | .ok .nothing => exact congrArg _ (congrArg _ step)
      | .ok (.error text) => exact congrArg _ (congrArg _ step)
      | .ok (.message m) =>
        obtain ⟨rfl, -⟩ := step
        rfl
  cases answer with
  | ok value => exact kept
  | error exn => trivial

theorem counts_optional (given : Bool) {op : CallbackOp} (other : ∀ m value, op ≠ .handler m value) :
    (ConsumeLoop.optional given op).wp freely (Prog.Ends (fun _ => True) fun _ => Unhandled log) log := by
  cases given with
  | false => exact rfl
  | true =>
    refine (@Prog.wp_perform loopSig Exn _ _ (.inr op) _ log).mpr ⟨trivial, ?_⟩
    rintro answer after rfl
    cases answer with
    | error exn => trivial
    | ok done =>
      cases op with
      | handler m text => exact absurd rfl (other m text)
      | afterHandler => rfl
      | preCommit => rfl
      | idleHook => rfl

theorem counts_commitEach (messages : List Message) :
    (ConsumeLoop.commitEach messages).wp freely
      (Prog.Ends (fun _ => True) fun _ => Unhandled log) log := by
  induction messages generalizing log with
  | nil => exact rfl
  | cons m rest ih =>
    refine Prog.wp_seq (fun _ => Unhandled log) (counts_consumer _) fun _ middle kept => ?_
    refine Prog.wp_mono ?_ ih
    rintro (exn | value) after same
    · trivial
    · exact Eq.trans same kept

/-- The loop's count goes with the history. -/
def Counted (locals : Locals) (log : List Entry) : Prop := locals.n = (handledMessages log).length

theorem counts_commitPending {locals : Locals} (counted : Counted locals log) :
    (ConsumeLoop.commitPending config locals).wp freely
      (Prog.Ends (fun _ => True) fun locals' after => Counted locals' after ∧ locals'.n = locals.n)
      log := by
  unfold ConsumeLoop.commitPending
  split
  · exact ⟨counted, rfl⟩
  · refine Prog.wp_seq (fun _ => Unhandled log) (counts_optional _ fun _ _ => nofun) ?_
    intro _ middle kept
    refine Prog.wp_seq (fun _ => Unhandled middle) (counts_commitEach _) ?_
    exact fun _ after kept' => ⟨counted.trans (Eq.trans kept' kept).symm, rfl⟩

theorem counts_commitManual {locals : Locals} (counted : Counted locals log) :
    (ConsumeLoop.commitManual config locals).wp freely
      (Prog.Ends (fun _ => True) fun locals' after => Counted locals' after ∧ locals'.n = locals.n)
      log := by
  unfold ConsumeLoop.commitManual
  split
  · exact ⟨counted, rfl⟩
  · exact counts_commitPending counted

/-- A turn counts one message at most. -/
def TurnCounts (n : ℕ) : Turn → List Entry → Prop
  | .more locals, log => Counted locals log ∧ locals.n ≤ n + 1
  | .stopped locals, log => Counted locals log ∧ locals.n ≤ n + 1

theorem counts_idle {locals : Locals} (counted : Counted locals log) :
    (ConsumeLoop.idle config locals).wp freely
      (Prog.Ends (fun _ => True) (TurnCounts locals.n)) log := by
  refine Prog.wp_seq _ (counts_commitManual counted) ?_
  rintro locals' middle ⟨counted, same⟩
  refine Prog.wp_seq (fun _ => Unhandled middle) (counts_optional _ fun _ _ => nofun) ?_
  intro _ later kept
  have counted : Counted locals' later := counted.trans (Eq.symm kept)
  have room : locals'.n ≤ locals.n + 1 := same ▸ Nat.le_succ _
  split
  · exact ⟨counted, room⟩
  · refine Prog.wp_seq (fun _ => Unhandled later) (counts_consumer _) ?_
    intro now last kept
    split
    · exact ⟨counted.trans (Eq.symm kept), room⟩
    · exact ⟨counted.trans (Eq.symm kept), room⟩

theorem counts_deliver {locals : Locals} {m : Message} (counted : Counted locals log) :
    (ConsumeLoop.deliver config locals m).wp freely
      (Prog.Ends (fun _ => True) (TurnCounts locals.n)) log := by
  refine Prog.wp_seq (fun _ => Unhandled log) (counts_consumer _) ?_
  intro now middle kept
  cases m.value with
  | none => trivial
  | some value =>
    refine Prog.wp_seq (fun _ after => locals.n + 1 = (handledMessages after).length) ?_ ?_
    · refine (@Prog.wp_perform loopSig Exn _ _ (.inr (.handler m value)) _ middle).mpr ⟨trivial, ?_⟩
      rintro answer after rfl
      cases answer with
      | error exn => trivial
      | ok done => exact congrArg (· + 1) (counted.trans (Eq.symm kept))
    intro _ handled one
    refine Prog.wp_seq (fun _ => Unhandled handled) (counts_optional _ fun _ _ => nofun) ?_
    intro _ after kept
    have one : locals.n + 1 = (handledMessages after).length := one.trans (Eq.symm kept)
    refine Prog.wp_seq (fun locals' last => locals'.n = locals.n ∧
      locals.n + 1 = (handledMessages last).length) ?_ ?_
    · unfold ConsumeLoop.account
      split
      · exact ⟨rfl, one⟩
      · dsimp only
        split
        · unfold ConsumeLoop.commitPending
          split
          · exact ⟨rfl, one⟩
          · refine Prog.wp_seq (fun _ => Unhandled after) (counts_optional _ fun _ _ => nofun) ?_
            intro _ middle kept
            refine Prog.wp_seq (fun _ => Unhandled middle) (counts_commitEach _) ?_
            exact fun _ last kept' => ⟨rfl, one.trans (Eq.trans kept' kept).symm⟩
        · exact ⟨rfl, one⟩
    · rintro locals' last ⟨same, one⟩
      have next : locals'.n + 1 = (handledMessages last).length := by rw [same, one]
      exact ⟨next, Nat.succ_le_succ same.le⟩

/-- **The step lemma.** -/
theorem counts_turn {locals : Locals} (counted : Counted locals log) :
    (ConsumeLoop.turn config locals).wp freely
      (Prog.Ends (fun _ => True) (TurnCounts locals.n)) log := by
  have polls : ∀ middle, Counted locals middle → (ConsumeLoop.pollOnce config locals).wp freely
      (Prog.Ends (fun _ => True) (TurnCounts locals.n)) middle := by
    intro middle counted
    refine Prog.wp_seq (fun _ => Unhandled middle) (counts_consumer _) ?_
    intro polled after kept
    have counted : Counted locals after := counted.trans (Eq.symm kept)
    cases polled with
    | nothing => exact counts_idle counted
    | error text => exact ⟨counted, Nat.le_succ _⟩
    | message m => exact counts_deliver counted
  unfold ConsumeLoop.turn
  split
  · refine Prog.wp_seq (fun _ => Unhandled log) (counts_consumer _) ?_
    intro stop after kept
    have counted : Counted locals after := counted.trans (Eq.symm kept)
    cases stop with
    | true => exact ⟨counted, Nat.le_succ _⟩
    | false => exact polls after counted
  · exact polls log counted

/-- What a limit leaves room for. -/
def Limited (config : LoopConfig) (n : ℕ) : Prop :=
  ∀ limit, config.maxMessages = some limit → (n : Int) ≤ max limit 0

/-- **The run lemma**, by induction on the number of turns. -/
theorem counts_turns (fuel : ℕ) {locals : Locals} (counted : Counted locals log)
    (limited : Limited config locals.n) :
    (ConsumeLoop.turns config fuel locals).wp freely (Prog.Ends (fun _ => True) fun left after =>
      ∀ locals', left = some locals' → Counted locals' after ∧ Limited config locals'.n) log := by
  induction fuel generalizing locals log with
  | zero => exact fun locals' none' => nomatch none'
  | succ fuel ih =>
    unfold ConsumeLoop.turns
    split
    · rename_i room
      have next : ∀ n, n ≤ locals.n + 1 → Limited config n := by
        intro n le limit given
        rw [given, Option.all_some, decide_eq_true_iff] at room
        omega
      refine Prog.wp_seq _ (counts_turn counted) ?_
      rintro (locals' | locals') after ⟨counted, le⟩
      · exact ih counted (next _ le)
      · intro last same
        obtain rfl := Option.some.inj same
        exact ⟨counted, next _ le⟩
    · intro last same
      obtain rfl := Option.some.inj same
      exact ⟨counted, limited⟩

end Counting

/-! ### The exit -/

section Exit

variable {config : LoopConfig}

/-- What is pending at the exit is committed. -/
theorem settled_commitPending {locals : Locals} {log : List Entry}
    (between : Between config locals log) :
    (ConsumeLoop.commitPending config locals).wp (loopMachine config)
      (Prog.Ends (Bounded config) fun _ after => Settled [] after) log := by
  unfold ConsumeLoop.commitPending
  split
  · rename_i empty
    exact empty ▸ between.settled
  · refine Prog.wp_seq (fun _ after => Settled locals.pending after ∧
      Bounded config after ∧ (config.preCommit = true → Fresh after)) ?_ ?_
    · refine ends_optional between.bounded (fun absent => ⟨between.settled, between.bounded, ?_⟩)
        fun _ => ⟨between.settled.neutral (.inl rfl), between.bounded.neutral trivial, fun _ => trivial⟩
      exact fun present => absurd present (by simp [absent])
    · rintro value after ⟨settled, bounded, flushed⟩
      refine Prog.wp_seq _ (commitEach_spec bounded settled flushed) ?_
      exact fun value last both => both.1

/-- **All done**: all that was polled has been handled and committed, and nothing failed. -/
structure AllDone (config : LoopConfig) (n : ℕ) (log : List Entry) : Prop where
  counted : n = (handledMessages log).length
  limited : Limited config n
  committed : uncommitted log = []
  handled : ∀ m, .polled m ∈ log → .handled m ∈ log
  clean : .failed ∉ log

theorem allDone_body (manual : config.autoCommit = false) (fuel : ℕ) (lastMsg : Int) :
    (ConsumeLoop.body config fuel { lastMsg }).wp freely (Prog.Ends (fun _ => True) fun left after =>
      ∀ n, left = some n → AllDone config n after) [] := by
  have limited : Limited config 0 := by
    intro limit _
    exact le_max_right _ _
  refine Prog.wp_bind.mpr (Prog.wp_mono ?_ (Prog.wp_and
    (wp_freely (turns_spec manual fuel (between_start config lastMsg)))
    (counts_turns fuel (show Counted { lastMsg } [] from rfl) limited)))
  rintro (exn | left) log ⟨ends, counts⟩
  · trivial
  cases left with
  | none => exact fun n none' => nomatch none'
  | some locals =>
    obtain ⟨counted, limited⟩ := counts locals rfl
    have flush : (ConsumeLoop.commitManual config locals).wp freely
        (Prog.Ends (fun _ => True) fun locals' after => Settled [] after ∧ Counted locals' after ∧
          locals'.n = locals.n) log := by
      have settled : (ConsumeLoop.commitManual config locals).wp freely
          (Prog.Ends (Bounded config) fun _ after => Settled [] after) log := by
        rw [ConsumeLoop.commitManual, manual]
        exact wp_freely (settled_commitPending ends)
      refine Prog.wp_mono ?_ (Prog.wp_and settled (counts_commitManual counted))
      rintro (exn | locals') after ⟨settled, kept⟩
      · trivial
      · exact ⟨settled, kept⟩
    refine Prog.wp_seq _ flush ?_
    rintro locals' after ⟨settled, counted, same⟩ n returned
    obtain rfl := Option.some.inj returned
    exact ⟨counted, same ▸ limited, settled.uncommitted_nil, fun m => (settled.handled m).mp,
      settled.clean⟩

/-- **When `consume_loop` returns, all is done**: whatever it has polled is handled and committed, and
counted. -/
theorem clean_exit (manual : config.autoCommit = false) (fuel : ℕ) :
    (consumeLoop config fuel).wp freely
      (fun outcome log => ∀ n, outcome = .ok (some n) → AllDone config n log) [] := by
  have plain : ∀ op : ConsumerOp, op ≠ .poll → (∀ m, op ≠ .commit m) → ∀ log,
      (consumer op).wp freely (fun _ after => after = log) log := by
    intro op noPoll noCommit log
    refine (@Prog.wp_perform loopSig Exn _ _ (.inl op) _ log).mpr ⟨trivial, fun answer after step => ?_⟩
    cases op with
    | poll => exact absurd rfl noPoll
    | commit m => exact absurd rfl (noCommit m)
    | makeConsumer => exact step
    | stopIsSet => exact step
    | monotonic => exact step
    | close => exact step
  refine Prog.wp_bind.mpr (Prog.wp_mono ?_ (plain .makeConsumer nofun (fun _ => nofun) []))
  rintro (exn | _) log rfl
  · exact fun n returned => nomatch returned
  refine Prog.wp_bind.mpr (Prog.wp_mono ?_ (plain .monotonic nofun (fun _ => nofun) []))
  rintro (exn | start) log rfl
  · exact fun n returned => nomatch returned
  refine Prog.wp_bind.mpr (Prog.wp_attempt.mpr (Prog.wp_mono ?_ (allDone_body manual fuel start)))
  rintro (exn | left) log done
  · refine Prog.wp_bind.mpr (Prog.wp_mono ?_ (plain .close nofun (fun _ => nofun) log))
    rintro (exn' | _) after -
    · exact fun n returned => nomatch returned
    · exact fun n returned => nomatch returned
  cases left with
  | none => exact fun n returned => nomatch (Except.ok.inj returned)
  | some n =>
    refine Prog.wp_bind.mpr (Prog.wp_mono ?_ (plain .close nofun (fun _ => nofun) log))
    rintro (exn | _) after rfl
    · exact fun n returned => nomatch returned
    · intro n' returned
      exact done n' (Except.ok.inj returned)

/-! A run of two messages, committed together at the exit. -/

def twice : LoopConfig := { autoCommit := false, maxMessages := some 2, commitEvery := 50 }

/-- The message after those of the log. -/
def nextMessage (log : List Entry) : Message where
  topic := "normalized.updates"
  partition := 0
  offset := (handledMessages log).length
  value := some "event"

/-- A broker that always has another message, and a handler that returns. -/
def willing : (op : loopSig.Op) → List Entry → Except Exn (loopSig.Ans op) × List Entry
  | .inl .makeConsumer, log => (.ok (), log)
  | .inl .stopIsSet, log => (.ok false, log)
  | .inl .poll, log => (.ok (.message (nextMessage log)), .polled (nextMessage log) :: log)
  | .inl .monotonic, log => (.ok (0 : Int), log)
  | .inl (.commit m), log => (.ok (), .committed m :: log)
  | .inl .close, log => (.ok (), log)
  | .inr op, log => (.ok (), op.entry :: log)

/-- The next message is behind every message of the log. -/
def behind : loopSig.Op → List Entry → Bool
  | .inl .poll, log => log.all fun entry => match entry with
    | .polled earlier => decide (earlier.offset < (nextMessage log).offset)
    | _ => true
  | _, _ => true

theorem freely_willing (op : loopSig.Op) (log : List Entry) (met : behind op log = true) :
    freely.step op log (willing op log).1 (willing op log).2 := by
  match op with
  | .inl .poll =>
    refine ⟨rfl, fun earlier polled _ => ?_⟩
    exact of_decide_eq_true (List.all_eq_true.mp met _ polled)
  | .inl (.commit m) => exact Or.inl rfl
  | .inl .makeConsumer => rfl
  | .inl .stopIsSet => rfl
  | .inl .monotonic => rfl
  | .inl .close => rfl
  | .inr op => rfl

/-- Both messages are handled and the newer one is committed. -/
theorem clean_exit_two :
    ∃ first second : Message,
      (consumeLoop twice 4).run willing [] =
        (.ok (some 2), [.committed second, .handled second, .polled second, .handled first,
          .polled first]) ∧
      AllDone twice 2 [.committed second, .handled second, .polled second, .handled first,
        .polled first] := by
  let first := nextMessage []
  let second := nextMessage [.handled first, .polled first]
  have ended : (consumeLoop twice 4).run willing [] = (.ok (some 2), [.committed second,
      .handled second, .polled second, .handled first, .polled first]) := by decide +kernel
  have done := @Prog.wp_run_of_meets _ _ _ _ _ _ behind _ _ _ freely_willing (by decide +kernel)
    (@clean_exit twice rfl 4)
  rw [ended] at done
  exact ⟨first, second, ended, done 2 rfl⟩

end Exit

end Freshet.Kafka
