/-
**Indexing receipts tell the truth.**

The log of the statements that took effect keeps the index that each of them ran on, so it says what
a receipt may be compared with: the registration that made it, and the upserts before its stamp.
`Honest` is what every statement of the handler keeps (`Honest.exec`): only the registration makes a
receipt, and only the completion stamps one, when the log has all chunks of a version. From a
database without receipts it holds after any number of runs, stopped anywhere
(`receipts_truthful`).
-/

import Freshet.Pipeline.Rewriting

namespace Freshet.Pipeline

open Freshet.Lib Freshet.Kafka
open Freshet.Autopilot (Time)

/-! ### What a receipt says -/

/-- `SELECT first_queryable_at FROM event_indexing WHERE event_id = …`. -/
def Index.firstQueryable (index : Index) (eventId : String) : Option Time :=
  (index.eventIndexing.lookup eventId).bind Receipt.firstQueryableAt

/-- The entry is a registration of the event. -/
def registers (eventId : String) (entry : Executed) : Bool :=
  decide (entry.statement = .registerIndexing eventId)

/-- **When the event was first registered**: the oldest of its registrations. -/
def registration (log : List Executed) (eventId : String) : Option Executed :=
  log.reverse.find? (registers eventId)

/-- Every chunk of the version was written, no later than `time`. -/
def WrittenBy (log : List Executed) (ev : Event) (time : Time) : Prop :=
  ∀ i chunk, (chunkText ev.text)[i]? = some chunk → ∃ entry ∈ log, entry.time ≤ time ∧
    ∃ rec embedding model, entry.statement = .upsertRecord rec embedding model ∧
      rec.chunkId = chunkId ev.eventId i ∧ rec.text = chunk

/-- One of the messages is a version of the event whose chunks were all written by then. -/
def Observed (around : Surroundings) (values : List String) (log : List Executed)
    (eventId : String) (time : Time) : Prop :=
  ∃ value ∈ values, ∃ ev, Parsed around value ev ∧ ev.eventId = eventId ∧ WrittenBy log ev time

/-- **What the receipts say is true.** -/
structure Truthful (around : Surroundings) (values : List String) (w : World) : Prop where
  stable : ∀ entry ∈ w.log, ∀ eventId time, entry.before.firstQueryable eventId = some time →
    w.index.firstQueryable eventId = some time
  observed : ∀ eventId time, w.index.firstQueryable eventId = some time →
    (∃ first, registration w.log eventId = some first ∧ first.before.hasChunks eventId = false) ∧
      Observed around values w.log eventId time
  ordered : ∀ eventId receipt time, w.index.eventIndexing.lookup eventId = some receipt →
    receipt.firstQueryableAt = some time →
      ∃ last, receipt.lastQueryableAt = some last ∧ time ≤ last
  predated : ∀ eventId first, registration w.log eventId = some first →
    first.before.hasChunks eventId = true → w.index.firstQueryable eventId = none

/-! ### The invariant -/

/-- A receipt is that of the event's first registration, and its stamps are those of versions. -/
structure Honestly (around : Surroundings) (values : List String) (w : World) (eventId : String)
    (receipt : Receipt) : Prop where
  registered : ∃ first, registration w.log eventId = some first ∧
    receipt.firstIndexObserved = !first.before.hasChunks eventId
  stamped : ∀ time, receipt.firstQueryableAt = some time →
    receipt.firstIndexObserved = true ∧ Observed around values w.log eventId time ∧
      ∃ last, receipt.lastQueryableAt = some last ∧ time ≤ last
  bounded : ∀ last, receipt.lastQueryableAt = some last → last ≤ w.clock

structure Honest (around : Surroundings) (values : List String) (w : World) : Prop where
  stable : ∀ entry ∈ w.log, ∀ eventId time, entry.before.firstQueryable eventId = some time →
    w.index.firstQueryable eventId = some time
  receipts : ∀ eventId receipt, w.index.eventIndexing.lookup eventId = some receipt →
    Honestly around values w eventId receipt
  unregistered : ∀ eventId, w.index.eventIndexing.lookup eventId = none →
    registration w.log eventId = none
  times : ∀ entry ∈ w.log, entry.time ≤ w.clock

theorem registration_cons (entry : Executed) (log : List Executed) (eventId : String) :
    registration (entry :: log) eventId = (registration log eventId).or
      (if registers eventId entry then some entry else none) := by
  unfold registration
  rw [List.reverse_cons, List.find?_append, List.find?_singleton]

theorem registration_mono {log : List Executed} {eventId : String} {first : Executed}
    (found : registration log eventId = some first) (entry : Executed) :
    registration (entry :: log) eventId = some first := by
  rw [registration_cons, found]
  rfl

section Monotone

variable {around : Surroundings} {values : List String} {log : List Executed} {eventId : String}
  {time : Time} {w : World} {receipt : Receipt}

theorem Observed.mono (observed : Observed around values log eventId time) (entry : Executed) :
    Observed around values (entry :: log) eventId time := by
  obtain ⟨value, handled, ev, parsed, same, written⟩ := observed
  refine ⟨value, handled, ev, parsed, same, fun i chunk here => ?_⟩
  obtain ⟨upsert, member, rest⟩ := written i chunk here
  exact ⟨upsert, List.mem_cons_of_mem _ member, rest⟩

theorem Observed.more (observed : Observed around values log eventId time) (value : String) :
    Observed around (value :: values) log eventId time := by
  obtain ⟨handled, member, rest⟩ := observed
  exact ⟨handled, List.mem_cons_of_mem _ member, rest⟩

/-- A receipt that a statement leaves alone is as honest as before. -/
theorem Honestly.exec (honestly : Honestly around values w eventId receipt)
    {now : Time} (later : w.clock ≤ now) (statement : Statement) :
    Honestly around values (w.exec now statement) eventId receipt := by
  obtain ⟨first, found, same⟩ := honestly.registered
  refine ⟨⟨first, registration_mono found _, same⟩, fun time set => ?_, fun last set => ?_⟩
  · obtain ⟨observed, written, ordered⟩ := honestly.stamped time set
    exact ⟨observed, written.mono _, ordered⟩
  · exact (honestly.bounded last set).trans later

theorem Honestly.more (honestly : Honestly around values w eventId receipt) (value : String) :
    Honestly around (value :: values) w eventId receipt := by
  refine ⟨honestly.registered, fun time set => ?_, honestly.bounded⟩
  obtain ⟨observed, written, ordered⟩ := honestly.stamped time set
  exact ⟨observed, written.more value, ordered⟩

end Monotone

section Statements

variable {around : Surroundings} {values : List String} {w : World} {now : Time}

/-- What is left to show of a statement: the receipts as they are now, and those that were
stamped. -/
theorem Honest.step (honest : Honest around values w) (later : w.clock ≤ now)
    {statement : Statement}
    (receipts : ∀ eventId receipt,
      (w.exec now statement).index.eventIndexing.lookup eventId = some receipt →
        Honestly around values (w.exec now statement) eventId receipt)
    (unregistered : ∀ eventId,
      (w.exec now statement).index.eventIndexing.lookup eventId = none →
        registration (w.exec now statement).log eventId = none)
    (stable : ∀ eventId time, w.index.firstQueryable eventId = some time →
      (w.exec now statement).index.firstQueryable eventId = some time) :
    Honest around values (w.exec now statement) := by
  refine ⟨fun entry member eventId time set => ?_, receipts, unregistered, fun entry member => ?_⟩
  · rcases List.mem_cons.mp member with rfl | old
    · exact stable eventId time set
    · exact stable eventId time (honest.stable entry old eventId time set)
  · rcases List.mem_cons.mp member with rfl | old
    · exact Int.le_refl now
    · exact (honest.times entry old).trans later

/-- A statement that is about no receipt. -/
theorem Honest.unrelated (honest : Honest around values w) (later : w.clock ≤ now)
    {statement : Statement}
    (same : (w.index.exec now statement).eventIndexing = w.index.eventIndexing)
    (other : ∀ eventId, statement ≠ .registerIndexing eventId) :
    Honest around values (w.exec now statement) := by
  have table : (w.exec now statement).index.eventIndexing = w.index.eventIndexing := same
  refine honest.step later (fun eventId receipt found => ?_) (fun eventId absent => ?_)
    fun eventId time set => ?_
  · rw [table] at found
    exact (honest.receipts eventId receipt found).exec later statement
  · rw [table] at absent
    have before := honest.unregistered eventId absent
    unfold World.exec
    rw [registration_cons, before, if_neg]
    · rfl
    · exact fun registers => other eventId (of_decide_eq_true registers)
  · unfold Index.firstQueryable
    rw [table]
    exact set

/-- The first registration makes the receipt; the others change nothing. -/
theorem Honest.register (honest : Honest around values w) (later : w.clock ≤ now)
    (eventId : String) : Honest around values (w.exec now (.registerIndexing eventId)) := by
  have table : ∀ other, (w.exec now (.registerIndexing eventId)).index.eventIndexing.lookup other =
      if other = eventId then some ((w.index.eventIndexing.lookup other).getD
        ⟨!w.index.hasChunks eventId, none, none⟩) else w.index.eventIndexing.lookup other := by
    intro other
    show (w.index.eventIndexing.upsert eventId _ id).lookup other = _
    rw [Table.lookup_upsert, Option.map_id_fun, id]
    split_ifs with here
    · rw [here]
    · rfl
  refine honest.step later (fun other receipt found => ?_) (fun other absent => ?_)
    fun other time set => ?_
  · cases old : w.index.eventIndexing.lookup other with
    | some held =>
      have same : held = receipt := by
        rw [table, old] at found
        split_ifs at found <;> exact Option.some.inj found
      rw [← same]
      exact (honest.receipts other held old).exec later _
    | none =>
      rw [table, old] at found
      split_ifs at found with here
      obtain rfl := here
      obtain rfl := Option.some.inj found
      refine ⟨⟨⟨.registerIndexing other, now, w.index⟩, ?_, rfl⟩,
        fun time set => absurd set.symm (Option.some_ne_none time),
        fun last set => absurd set.symm (Option.some_ne_none last)⟩
      unfold World.exec
      have own : registers other ⟨.registerIndexing other, now, w.index⟩ = true :=
        decide_eq_true rfl
      rw [registration_cons, honest.unregistered other old, if_pos own]
      rfl
  · rw [table] at absent
    split_ifs at absent with here
    unfold World.exec
    rw [registration_cons, honest.unregistered other absent, if_neg]
    · rfl
    · intro registers
      exact here (Statement.registerIndexing.inj (of_decide_eq_true registers)).symm
  · obtain ⟨held, old, first⟩ := Option.bind_eq_some_iff.mp set
    unfold Index.firstQueryable
    rw [table, old]
    split_ifs <;> exact first

/-- **The completion stamps the receipt**, when the log has a version's chunks. -/
theorem Honest.complete (honest : Honest around values w) (later : w.clock ≤ now)
    {eventId : String} (observed : Observed around values w.log eventId now) :
    Honest around values (w.exec now (.completeIndexing eventId)) := by
  have table : ∀ other, (w.exec now (.completeIndexing eventId)).index.eventIndexing.lookup other =
      if other = eventId then (w.index.eventIndexing.lookup other).map (Index.complete now)
      else w.index.eventIndexing.lookup other := by
    intro other
    show (w.index.eventIndexing.modify eventId _).lookup other = _
    rw [Table.lookup_modify]
    split_ifs with here
    · rw [here]
    · rfl
  refine honest.step later (fun other receipt found => ?_) (fun other absent => ?_)
    fun other time set => ?_
  · rw [table] at found
    split_ifs at found with here
    · obtain rfl := here
      obtain ⟨held, old, rfl⟩ := Option.map_eq_some_iff.mp found
      have before := (honest.receipts other held old).exec later (.completeIndexing other)
      refine ⟨before.registered, fun time set => ?_, fun last set => ?_⟩
      · unfold Index.complete at set
        dsimp only at set
        split_ifs at set with first
        refine ⟨first, ?_, now, rfl, ?_⟩
        · cases stamp : held.firstQueryableAt with
          | none =>
            rw [stamp] at set
            obtain rfl := Option.some.inj set
            exact observed.mono _
          | some earlier =>
            rw [stamp] at set
            obtain rfl := Option.some.inj set
            exact (before.stamped _ stamp).2.1
        · cases stamp : held.firstQueryableAt with
          | none =>
            rw [stamp] at set
            obtain rfl := Option.some.inj set
            exact Int.le_refl _
          | some earlier =>
            rw [stamp] at set
            obtain rfl := Option.some.inj set
            obtain ⟨-, -, last, finished, le⟩ := before.stamped _ stamp
            exact le.trans (before.bounded last finished)
      · obtain rfl := Option.some.inj set
        exact Int.le_refl _
    · exact (honest.receipts other receipt found).exec later _
  · have before : w.index.eventIndexing.lookup other = none := by
      rw [table] at absent
      split_ifs at absent
      · exact Option.map_eq_none_iff.mp absent
      · exact absent
    unfold World.exec
    rw [registration_cons, honest.unregistered other before, if_neg]
    · rfl
    · exact fun registers => absurd (of_decide_eq_true registers) (by simp)
  · obtain ⟨held, old, first⟩ := Option.bind_eq_some_iff.mp set
    unfold Index.firstQueryable
    rw [table, old]
    split_ifs
    · show (Index.complete now held).firstQueryableAt = some time
      unfold Index.complete
      dsimp only
      rw [if_pos ((honest.receipts other held old).stamped time first).1, first]
      rfl
    · exact first

end Statements

/-! ### Runs -/

/-- **The messages a worker has been given**, newest first. Each run of the handler may have been
stopped at any call, returned or raised, and the database's clock never goes back. -/
inductive Receiving (around : Surroundings) (config : HandlerConfig) (first : World) :
    List String → World → Prop
  | start : Receiving around config first [] first
  | more {values : List String} {w next after : World} {value : String} {rest : Handling Leaving}
      (before : Receiving around config first values w) (index : next.index = w.index)
      (log : next.log = w.log) (later : w.clock ≤ next.clock)
      (run : Prog.Steps (handlerMachine around fun _ => True) (handle config value) next rest
        after) :
      Receiving around config first (value :: values) after

section Runs

variable {around : Surroundings} {config : HandlerConfig} {values : List String} {value : String}
  {w : World}

/-- The invariant says nothing of the producer and the streak. -/
theorem Honest.free (honest : Honest around values w) (p : Producer) (n : Nat) :
    Honest around values { w with producer := p, streak := n } :=
  ⟨honest.stable, fun eventId receipt found =>
    ⟨(honest.receipts eventId receipt found).registered,
      (honest.receipts eventId receipt found).stamped,
      (honest.receipts eventId receipt found).bounded⟩, honest.unregistered, honest.times⟩

/-- **Every point of the handler keeps it.** -/
theorem handle_honest (honest : Honest around (value :: values) w) :
    (handle config value).wp (handlerMachine around (Honest around (value :: values)))
      (fun _ after => Honest around (value :: values) after) w := by
  have ends : (handle config value).wp (handlerMachine around (Honest around (value :: values)))
      (Prog.Ends (Honest around (value :: values))
        fun _ after => Honest around (value :: values) after) w := by
    refine wp_handle (fun p => honest.free p w.streak)
      (fun error p now _ _ => honest.free p 0) fun ev parsed => ?_
    refine Prog.wp_mono ?_ (wp_writes honest (fun w p n here => here.free p n) ?_)
    · intro outcome after ends
      cases outcome with
      | error exn => exact ends
      | ok leaving => exact ends.1
    intro stamp vectors same w now statement here later issued complete
    cases statement with
    | registerIndexing eventId => exact here.register later eventId
    | completeIndexing eventId =>
      obtain rfl : eventId = ev.eventId := issued
      refine here.complete later ⟨value, List.mem_cons_self, ev, parsed, rfl, ?_⟩
      intro i chunk at'
      obtain ⟨v, member⟩ := pair_of_chunk same at'
      obtain ⟨entry, logged, indexedAt, column, -, upsert⟩ := complete rfl _ member
      exact ⟨entry, logged, (here.times entry logged).trans later, _, _, _, upsert, rfl, rfl⟩
    | upsertRecord rec embedding model => exact here.unrelated later rfl fun _ => by simp
    | deleteOrphanChunks eventId count => exact here.unrelated later rfl fun _ => by simp
    | ensureIncident incidentId title openedAt service =>
      exact here.unrelated later rfl fun _ => by simp
    | ensureService incidentId service => exact here.unrelated later rfl fun _ => by simp
    | incidentEvent incidentId eventId => exact here.unrelated later rfl fun _ => by simp
  refine Prog.wp_mono ?_ ends
  intro outcome after ends
  cases outcome <;> exact ends

variable {first : World}

theorem Receiving.honest (receiving : Receiving around config first values w)
    (empty : first.index.eventIndexing = ∅) (new : first.log = []) :
    Honest around values w := by
  induction receiving with
  | start =>
    constructor
    · intro entry member
      rw [new] at member
      exact absurd member List.not_mem_nil
    · intro eventId receipt found
      rw [empty] at found
      exact absurd found (by simp)
    · intro eventId _
      rw [new]
      rfl
    · intro entry member
      rw [new] at member
      exact absurd member List.not_mem_nil
  | @more values w next after value rest before index log later run ih =>
    have start : Honest around (value :: values) next := by
      constructor
      · rw [log, index]
        exact ih.stable
      · intro eventId receipt found
        rw [index] at found
        have honestly := (ih.receipts eventId receipt found).more value
        refine ⟨?_, ?_, fun last set => (honestly.bounded last set).trans later⟩
        · rw [log]
          exact honestly.registered
        · rw [log]
          exact honestly.stamped
      · rw [log, index]
        exact ih.unregistered
      · rw [log]
        exact fun entry member => (ih.times entry member).trans later
    exact Prog.kept_of_steps (fun _ _ safe => safe) (fun _ _ holds => holds) (handle_honest start)
      (Steps.demanding run _)

/-- **In every state that any runs of the handler reach, the receipts tell the truth.** -/
theorem receipts_truthful (receiving : Receiving around config first values w)
    (empty : first.index.eventIndexing = ∅) (new : first.log = []) :
    Truthful around values w := by
  have honest := receiving.honest empty new
  have first : ∀ eventId time, w.index.firstQueryable eventId = some time →
      ∃ receipt, w.index.eventIndexing.lookup eventId = some receipt ∧
        receipt.firstQueryableAt = some time := fun eventId time set =>
    Option.bind_eq_some_iff.mp set
  have observed : ∀ eventId time, w.index.firstQueryable eventId = some time →
      (∃ first, registration w.log eventId = some first ∧
        first.before.hasChunks eventId = false) ∧ Observed around values w.log eventId time := by
    intro eventId time set
    obtain ⟨receipt, found, stamped⟩ := first eventId time set
    have honestly := honest.receipts eventId receipt found
    obtain ⟨seen, written, -⟩ := honestly.stamped time stamped
    obtain ⟨reg, registered, same⟩ := honestly.registered
    rw [seen] at same
    exact ⟨⟨reg, registered, by simpa using same.symm⟩, written⟩
  refine ⟨honest.stable, observed, fun eventId receipt time found stamped =>
    ((honest.receipts eventId receipt found).stamped time stamped).2.2, ?_⟩
  intro eventId reg registered chunks
  cases set : w.index.firstQueryable eventId with
  | none => rfl
  | some time =>
    obtain ⟨⟨reg', registered', none'⟩, -⟩ := observed eventId time set
    obtain rfl := Option.some.inj (registered.symm.trans registered')
    exact absurd (chunks.symm.trans none') (by decide)

end Runs

/-! A message with a text, handled to its end. -/

def textedRun : Except Exn Leaving × World :=
  (handle plainConfig "event").run (calmHandler textedAround.validate zeroVectors) newWorld

theorem receipts_truthful_texted : Truthful textedAround ["event"] textedRun.2 := by
  have run := @Prog.steps_run handlerSig Exn Leaving World
    (handlerMachine textedAround fun _ => True) (calmHandler textedAround.validate zeroVectors)
    (handle plainConfig "event") newWorld (handlerStep_calm fun _ => rfl)
  have receiving : Receiving textedAround plainConfig newWorld ["event"] textedRun.2 :=
    .more .start rfl rfl (Int.le_refl _) run
  exact receipts_truthful receiving rfl rfl

example : textedRun.2.index.firstQueryable "openai:INC-1:a" = some 0 := by decide +kernel

end Freshet.Pipeline
