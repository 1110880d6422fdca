/-
**No offset is committed past unfinished work.**

* `Permitted` is what must hold where an offset is committed; `Bounded` what must hold everywhere.
  `loopMachine` demands both of every call.
* `Settled` relates the history to the map of pending messages between two turns of the loop:
  everything polled is handled, and every handled message that no commit covers has a pending
  message of its source at or above it. `commitEach_spec` empties the map against it, one commit
  at a time; `turn_spec` is the step lemma and `turns_spec` the induction over the loop.
-/

import Freshet.Kafka.ConsumeLoop

set_option linter.unusedSectionVars false

namespace Freshet.Kafka

open Freshet.Lib

/-! ### What the history says -/

/-- A commit covers the message: one of its source at or above its offset. -/
def covered (log : List Entry) (m : Message) : Bool :=
  log.any fun
    | .committed later => later.source == m.source && m.offset ≤ later.offset
    | _ => false

/-- The messages whose handler has returned. -/
def handledMessages (log : List Entry) : List Message :=
  log.filterMap fun
    | .handled m => some m
    | _ => none

/-- The handled messages that no commit covers. -/
def uncommitted (log : List Entry) : List Message :=
  (handledMessages log).filter fun m => !covered log m

/-- `pre_commit` has returned and nothing but commits came after it. -/
def Fresh : List Entry → Prop
  | .preCommitted :: _ => True
  | .committed _ :: older => Fresh older
  | _ => False

/-- **What must hold where an offset is committed**: the handler has returned for every message
polled from its partition at or below it, a `pre_commit` call after the last of them has returned,
no callback has raised, and no commit of the partition was as far. -/
structure Permitted (config : LoopConfig) (m : Message) (log : List Entry) : Prop where
  finished : ∀ earlier, .polled earlier ∈ log → earlier.source = m.source →
    earlier.offset ≤ m.offset → .handled earlier ∈ log
  flushed : config.preCommit = true → Fresh log
  forward : ∀ earlier, .committed earlier ∈ log → earlier.source = m.source →
    earlier.offset < m.offset
  clean : .failed ∉ log

/-- **What must hold everywhere**: at most a batch of handled messages is uncommitted. -/
def Bounded (config : LoopConfig) (log : List Entry) : Prop :=
  ((uncommitted log).length : Int) ≤ max 1 config.commitEvery

/-- The loop's calls, each checked against what must hold there. -/
def loopMachine (config : LoopConfig) : Machine loopSig Exn (List Entry) where
  safe op log := Bounded config log ∧ ∀ m, op = .inl (.commit m) → Permitted config m log
  step := loopStep

theorem covered_iff {log : List Entry} {m : Message} :
    covered log m = true ↔
      ∃ later, .committed later ∈ log ∧ later.source = m.source ∧ m.offset ≤ later.offset := by
  unfold covered
  rw [List.any_eq_true]
  constructor
  · rintro ⟨entry, member, covers⟩
    cases entry with
    | committed later => exact ⟨later, member, by simpa using covers⟩
    | polled _ => exact absurd covers Bool.false_ne_true
    | handled _ => exact absurd covers Bool.false_ne_true
    | preCommitted => exact absurd covers Bool.false_ne_true
    | returned => exact absurd covers Bool.false_ne_true
    | failed => exact absurd covers Bool.false_ne_true
  · rintro ⟨later, member, same, above⟩
    exact ⟨_, member, by simp [same, above]⟩

theorem mem_handledMessages {log : List Entry} {m : Message} :
    m ∈ handledMessages log ↔ .handled m ∈ log := by
  unfold handledMessages
  rw [List.mem_filterMap]
  constructor
  · rintro ⟨entry, member, is⟩
    cases entry with
    | handled other => obtain rfl := Option.some.inj is; exact member
    | polled _ => exact (nomatch is)
    | committed _ => exact (nomatch is)
    | preCommitted => exact (nomatch is)
    | returned => exact (nomatch is)
    | failed => exact (nomatch is)
  · exact fun member => ⟨_, member, rfl⟩

theorem mem_uncommitted {log : List Entry} {m : Message} :
    m ∈ uncommitted log ↔ .handled m ∈ log ∧ covered log m = false := by
  simp [uncommitted, List.mem_filter, mem_handledMessages]

/-- Neither a handling nor a commit. -/
def Neutral : Entry → Prop
  | .handled _ => False
  | .committed _ => False
  | _ => True

theorem uncommitted_neutral {entry : Entry} (neutral : Neutral entry) (log : List Entry) :
    uncommitted (entry :: log) = uncommitted log := by
  cases entry with
  | handled _ => exact neutral.elim
  | committed _ => exact neutral.elim
  | polled _ => rfl
  | preCommitted => rfl
  | returned => rfl
  | failed => rfl

/-- A handling adds at most its message. -/
theorem uncommitted_handled (m : Message) (log : List Entry) :
    (uncommitted (.handled m :: log)).length ≤ (uncommitted log).length + 1 := by
  have split : uncommitted (.handled m :: log) =
      if !covered log m then m :: uncommitted log else uncommitted log := List.filter_cons
  rw [split]
  split
  · exact Nat.le_refl _
  · exact Nat.le_succ _

/-- A commit adds nothing. -/
theorem uncommitted_committed (m : Message) (log : List Entry) :
    (uncommitted (.committed m :: log)).length ≤ (uncommitted log).length := by
  refine (List.Sublist.length_le ?_)
  refine List.monotone_filter_right _ fun other open_ => ?_
  simp only [Bool.not_eq_true'] at open_ ⊢
  exact (Bool.or_eq_false_iff.mp open_).2

theorem Bounded.neutral {config : LoopConfig} {entry : Entry} {log : List Entry}
    (bounded : Bounded config log) (neutral : Neutral entry) : Bounded config (entry :: log) := by
  unfold Bounded
  rw [uncommitted_neutral neutral]
  exact bounded

theorem Bounded.committed {config : LoopConfig} {log : List Entry} (bounded : Bounded config log)
    (m : Message) : Bounded config (.committed m :: log) :=
  Int.le_trans (Int.ofNat_le.mpr (uncommitted_committed m log)) bounded

/-! ### Between two turns -/

/-- **The history against the map of pending messages.** -/
structure Settled (pending : Pending) (log : List Entry) : Prop where
  clean : .failed ∉ log
  handled : ∀ m, .polled m ∈ log ↔ .handled m ∈ log
  behind : ∀ m, .committed m ∈ log → .polled m ∈ log
  distinct : pending.keys.Nodup
  keyed : ∀ key m, (key, m) ∈ pending → key = m.source ∧ .polled m ∈ log
  newest : ∀ key m, (key, m) ∈ pending → ∀ earlier, .polled earlier ∈ log →
    earlier.source = m.source → earlier.offset ≤ m.offset
  ahead : ∀ key m, (key, m) ∈ pending → ∀ earlier, .committed earlier ∈ log →
    earlier.source = m.source → earlier.offset < m.offset
  waiting : ∀ m ∈ uncommitted log, ∃ newest, (m.source, newest) ∈ pending

/-- Nothing pending, nothing uncommitted. -/
theorem Settled.uncommitted_nil {log : List Entry} (settled : Settled [] log) :
    uncommitted log = [] := by
  refine List.eq_nil_iff_forall_not_mem.mpr fun m member => ?_
  obtain ⟨newest, member⟩ := settled.waiting m member
  exact (nomatch member)

/-- An entry that is about no message changes nothing. -/
theorem Settled.neutral {pending : Pending} {log : List Entry} {entry : Entry}
    (settled : Settled pending log) (plain : entry = .preCommitted ∨ entry = .returned) :
    Settled pending (entry :: log) := by
  have neutral : Neutral entry := by rcases plain with rfl | rfl <;> trivial
  have about : ∀ other, other ∈ entry :: log → other ≠ entry → other ∈ log :=
    fun other member ne => (List.mem_cons.mp member).resolve_left ne
  refine ⟨?_, fun m => ⟨fun polled => ?_, fun handled => ?_⟩, ?_, settled.distinct, ?_, ?_, ?_, ?_⟩
  · exact fun failed => settled.clean (about _ failed (by rcases plain with rfl | rfl <;> simp))
  · exact List.mem_cons_of_mem _ ((settled.handled m).mp
      (about _ polled (by rcases plain with rfl | rfl <;> simp)))
  · exact List.mem_cons_of_mem _ ((settled.handled m).mpr
      (about _ handled (by rcases plain with rfl | rfl <;> simp)))
  · exact fun m member => List.mem_cons_of_mem _ (settled.behind m
      (about _ member (by rcases plain with rfl | rfl <;> simp)))
  · exact fun key m member =>
      ⟨(settled.keyed key m member).1, List.mem_cons_of_mem _ (settled.keyed key m member).2⟩
  · exact fun key m member earlier polled => settled.newest key m member earlier
      (about _ polled (by rcases plain with rfl | rfl <;> simp))
  · exact fun key m member earlier committed => settled.ahead key m member earlier
      (about _ committed (by rcases plain with rfl | rfl <;> simp))
  · rw [uncommitted_neutral neutral]
    exact settled.waiting

/-- A message polled and handled becomes the pending one of its source. -/
theorem Settled.message {pending : Pending} {log : List Entry} (settled : Settled pending log)
    {m : Message} (increasing : ∀ earlier, .polled earlier ∈ log → earlier.source = m.source →
      earlier.offset < m.offset) :
    Settled (pending.set m.source m) (.handled m :: .polled m :: log) := by
  have polled_iff : ∀ other, .polled other ∈ Entry.handled m :: .polled m :: log ↔
      other = m ∨ .polled other ∈ log := by intro other; simp
  have committed_iff : ∀ other, .committed other ∈ Entry.handled m :: .polled m :: log ↔
      .committed other ∈ log := by intro other; simp
  have settledAt : ∀ key x, (key, x) ∈ pending.set m.source m →
      (x = m ∧ key = m.source) ∨ (x.source ≠ m.source ∧ (key, x) ∈ pending) := by
    intro key x member
    rcases Dict.mem_set_of_nodup settled.distinct member with ⟨same, rfl⟩ | ⟨other, member⟩
    · exact .inl ⟨rfl, same⟩
    · exact .inr ⟨(settled.keyed key x member).1 ▸ other, member⟩
  refine ⟨by simpa using settled.clean, fun other => ?_, ?_, Dict.nodup_set _ _ settled.distinct,
    ?_, ?_, ?_, ?_⟩
  · rw [polled_iff, settled.handled]; simp
  · intro other committed
    exact (polled_iff other).mpr (.inr (settled.behind other ((committed_iff other).mp committed)))
  · intro key x member
    rcases settledAt key x member with ⟨rfl, rfl⟩ | ⟨-, member⟩
    · exact ⟨rfl, (polled_iff _).mpr (.inl rfl)⟩
    · exact ⟨(settled.keyed key x member).1, (polled_iff x).mpr (.inr (settled.keyed key x member).2)⟩
  · intro key x member earlier polled same
    rcases settledAt key x member with ⟨rfl, -⟩ | ⟨other, member⟩
    · rcases (polled_iff earlier).mp polled with rfl | polled
      · exact Int.le_refl _
      · exact Int.le_of_lt (increasing earlier polled same)
    · rcases (polled_iff earlier).mp polled with rfl | polled
      · exact absurd same.symm other
      · exact settled.newest key x member earlier polled same
  · intro key x member earlier committed same
    rw [committed_iff] at committed
    rcases settledAt key x member with ⟨rfl, -⟩ | ⟨-, member⟩
    · exact increasing earlier (settled.behind earlier committed) same
    · exact settled.ahead key x member earlier committed same
  · intro other member
    obtain ⟨handled, uncovered⟩ := mem_uncommitted.mp member
    by_cases same : other.source = m.source
    · exact ⟨m, same ▸ Dict.self_mem_set _ m pending⟩
    · have handled : .handled other ∈ log := by
        rcases List.mem_cons.mp handled with is | handled
        · exact absurd (congrArg Message.source (Entry.handled.inj is)) same
        · exact (List.mem_cons.mp handled).resolve_left (by simp)
      obtain ⟨newest, member⟩ := settled.waiting other (mem_uncommitted.mpr ⟨handled, uncovered⟩)
      exact ⟨newest, Dict.mem_set_of_ne same member⟩

/-- **A commit of the first pending message settles it.** -/
theorem Settled.commit {key : String × Int} {m : Message} {rest : Pending} {log : List Entry}
    (settled : Settled ((key, m) :: rest) log) : Settled rest (.committed m :: log) := by
  have here := settled.keyed key m List.mem_cons_self
  obtain ⟨new, distinct⟩ := List.nodup_cons.mp settled.distinct
  have elsewhere : ∀ k x, (k, x) ∈ rest → x.source ≠ m.source := by
    intro k x member same
    have keyed := settled.keyed k x (List.mem_cons_of_mem _ member)
    exact new (List.mem_map.mpr ⟨_, member, by rw [here.1, keyed.1, same]⟩)
  refine ⟨by simpa using settled.clean, by simpa using settled.handled, ?_, distinct, ?_, ?_, ?_, ?_⟩
  · intro other committed
    rcases List.mem_cons.mp committed with is | committed
    · rw [Entry.committed.inj is]
      exact List.mem_cons_of_mem _ here.2
    · exact List.mem_cons_of_mem _ (settled.behind other committed)
  · intro k x member
    have keyed := settled.keyed k x (List.mem_cons_of_mem _ member)
    exact ⟨keyed.1, List.mem_cons_of_mem _ keyed.2⟩
  · intro k x member earlier polled
    exact settled.newest k x (List.mem_cons_of_mem _ member) earlier (by simpa using polled)
  · intro k x member earlier committed same
    rcases List.mem_cons.mp committed with is | committed
    · rw [Entry.committed.inj is] at same
      exact absurd same.symm (elsewhere k x member)
    · exact settled.ahead k x (List.mem_cons_of_mem _ member) earlier committed same
  · intro other member
    obtain ⟨handled, uncovered⟩ := mem_uncommitted.mp member
    have handled : .handled other ∈ log := by simpa using handled
    have uncovered' := Bool.or_eq_false_iff.mp uncovered
    obtain ⟨newest, member⟩ := settled.waiting other (mem_uncommitted.mpr ⟨handled, uncovered'.2⟩)
    rcases List.mem_cons.mp member with is | member
    · rw [Prod.mk.injEq] at is
      have same : other.source = m.source := is.1.trans here.1
      have above := settled.newest key m List.mem_cons_self other
        ((settled.handled other).mpr handled) same
      exact absurd uncovered'.1 (by simp [same, above])
    · exact ⟨newest, member⟩

/-- What a commit of the first pending message needs is there. -/
theorem Settled.permitted {config : LoopConfig} {key : String × Int} {m : Message}
    {rest : Pending} {log : List Entry} (settled : Settled ((key, m) :: rest) log)
    (flushed : config.preCommit = true → Fresh log) : Permitted config m log where
  finished earlier polled _ _ := (settled.handled earlier).mp polled
  flushed := flushed
  forward := settled.ahead key m List.mem_cons_self
  clean := settled.clean

/-! ### What each part of the loop keeps -/

section Specs

variable {config : LoopConfig}

/-- A call that is no poll and no commit leaves the history as it is. -/
theorem ends_plain {op : ConsumerOp} {log : List Entry} (bounded : Bounded config log)
    (noPoll : op ≠ .poll) (noCommit : ∀ m, op ≠ .commit m)
    {good : op.Ans → List Entry → Prop} (holds : ∀ answer, good answer log) :
    (consumer op).wp (loopMachine config) (Prog.Ends (Bounded config) good) log := by
  refine (@Prog.wp_perform loopSig Exn _ _ (.inl op) _ log).mpr
    ⟨⟨bounded, fun m same => absurd (Sum.inl.inj same) (noCommit m)⟩, ?_⟩
  intro answer after step
  have same : after = log := by
    cases op with
    | poll => exact absurd rfl noPoll
    | commit m => exact absurd rfl (noCommit m)
    | makeConsumer => exact step
    | stopIsSet => exact step
    | monotonic => exact step
    | close => exact step
  subst same
  cases answer with
  | ok value => exact holds value
  | error exn => exact bounded

/-- A callback adds its entry, or a failure. -/
theorem ends_callback {op : CallbackOp} {log : List Entry} (bounded : Bounded config log)
    {good : Unit → List Entry → Prop} (holds : good () (op.entry :: log)) :
    (callback op).wp (loopMachine config) (Prog.Ends (Bounded config) good) log := by
  refine (@Prog.wp_perform loopSig Exn _ _ (.inr op) _ log).mpr
    ⟨⟨bounded, fun m same => (nomatch same)⟩, ?_⟩
  rintro answer after rfl
  cases answer with
  | ok value => exact holds
  | error exn => exact bounded.neutral trivial

theorem ends_optional {given : Bool} {op : CallbackOp} {log : List Entry}
    (bounded : Bounded config log) {good : Unit → List Entry → Prop}
    (absent : given = false → good () log) (present : given = true → good () (op.entry :: log)) :
    (ConsumeLoop.optional given op).wp (loopMachine config)
      (Prog.Ends (Bounded config) good) log := by
  cases given with
  | false => exact absent rfl
  | true => exact ends_callback bounded (present rfl)

/-- **Committing empties the map**, one permitted commit at a time. -/
theorem commitEach_spec {pending : Pending} {log : List Entry} (bounded : Bounded config log)
    (settled : Settled pending log) (flushed : config.preCommit = true → Fresh log) :
    (ConsumeLoop.commitEach pending.values).wp (loopMachine config)
      (Prog.Ends (Bounded config) fun _ after => Settled [] after ∧ Bounded config after) log := by
  induction pending generalizing log with
  | nil => exact ⟨settled, bounded⟩
  | cons head rest ih =>
    obtain ⟨key, m⟩ := head
    refine Prog.wp_seq (fun _ after => after = .committed m :: log)
      ((@Prog.wp_perform loopSig Exn _ _ (.inl (.commit m)) _ log).mpr ⟨⟨bounded, ?_⟩, ?_⟩) ?_
    · intro other same
      obtain rfl : m = other := by simpa using same
      exact settled.permitted flushed
    · rintro answer after (rfl | ⟨failed, rfl⟩)
      · cases answer with
        | ok value => exact rfl
        | error exn => exact bounded.committed m
      · cases answer with
        | ok value => exact absurd rfl failed
        | error exn => exact bounded
    · rintro value after rfl
      exact ih (bounded.committed m) settled.commit flushed

/-- Between two turns: the map is settled and the batch is not full. -/
structure Between (config : LoopConfig) (locals : Locals) (log : List Entry) : Prop where
  settled : Settled locals.pending log
  count : (uncommitted log).length ≤ locals.sinceCommit
  room : (locals.sinceCommit : Int) < max 1 config.commitEvery

theorem Between.bounded {locals : Locals} {log : List Entry}
    (between : Between config locals log) : Bounded config log :=
  Int.le_trans (Int.ofNat_le.mpr between.count) (Int.le_of_lt between.room)

theorem between_start (config : LoopConfig) (lastMsg : Int) : Between config { lastMsg } [] where
  settled := ⟨List.not_mem_nil, fun _ => ⟨fun h => (nomatch h), fun h => (nomatch h)⟩,
    fun _ h => (nomatch h), List.nodup_nil, fun _ _ h => (nomatch h), fun _ _ h => (nomatch h),
    fun _ _ h => (nomatch h), fun _ h => (nomatch h)⟩
  count := Nat.le_refl _
  room := by show ((0 : Nat) : Int) < _; omega

theorem Between.neutral {locals : Locals} {log : List Entry} {entry : Entry}
    (between : Between config locals log) (plain : entry = .preCommitted ∨ entry = .returned) :
    Between config locals (entry :: log) where
  settled := between.settled.neutral plain
  count := by
    rw [uncommitted_neutral (by rcases plain with rfl | rfl <;> trivial)]
    exact between.count
  room := between.room

/-- A settled map is committed whether the batch is full or not. -/
theorem commitPending_spec {locals : Locals} {log : List Entry} (bounded : Bounded config log)
    (settled : Settled locals.pending log)
    (room : locals.pending = [] → Between config locals log) :
    (ConsumeLoop.commitPending config locals).wp (loopMachine config)
      (Prog.Ends (Bounded config) (Between config)) log := by
  unfold ConsumeLoop.commitPending
  split
  · rename_i empty
    exact room empty
  · refine Prog.wp_seq (fun _ after => Settled locals.pending after ∧
      Bounded config after ∧ (config.preCommit = true → Fresh after)) ?_ ?_
    · refine ends_optional bounded (fun absent => ⟨settled, bounded, ?_⟩) fun _ =>
        ⟨settled.neutral (.inl rfl), bounded.neutral trivial, fun _ => trivial⟩
      exact fun present => absurd present (by simp [absent])
    · rintro value after ⟨settled, bounded, flushed⟩
      refine Prog.wp_seq _ (commitEach_spec bounded settled flushed) ?_
      rintro value last ⟨settled, bounded⟩
      exact ⟨settled, by simp [settled.uncommitted_nil], (between_start config 0).room⟩

/-- Committing between two turns, unless the client commits by itself. -/
theorem flush_spec (manual : config.autoCommit = false) {locals : Locals} {log : List Entry}
    (between : Between config locals log) :
    (ConsumeLoop.commitManual config locals).wp (loopMachine config)
      (Prog.Ends (Bounded config) (Between config)) log := by
  rw [ConsumeLoop.commitManual, manual]
  exact commitPending_spec between.bounded between.settled fun _ => between

/-- How a turn may end. -/
def TurnEnds (config : LoopConfig) : Turn → List Entry → Prop
  | .more locals, log => Between config locals log
  | .stopped locals, log => Between config locals log

theorem idle_spec (manual : config.autoCommit = false) {locals : Locals} {log : List Entry}
    (between : Between config locals log) :
    (ConsumeLoop.idle config locals).wp (loopMachine config)
      (Prog.Ends (Bounded config) (TurnEnds config)) log := by
  refine Prog.wp_seq _ (flush_spec manual between) ?_
  intro locals log between
  refine Prog.wp_seq (fun _ after => Between config locals after) ?_ ?_
  · exact ends_optional between.bounded (fun _ => between) fun _ => between.neutral (.inr rfl)
  · intro _ log between
    cases config.idleTimeout with
    | none => exact between
    | some timeout =>
      refine Prog.wp_seq (fun _ after => Between config locals after)
        (ends_plain between.bounded (by simp) (by simp) fun _ => between) ?_
      intro now log between
      split
      · exact between
      · exact between

/-- **A message polled, handled and accounted for.** -/
theorem deliver_spec (manual : config.autoCommit = false) {locals : Locals} {log : List Entry}
    {m : Message} (between : Between config locals log)
    (increasing : ∀ earlier, .polled earlier ∈ log → earlier.source = m.source →
      earlier.offset < m.offset) :
    (ConsumeLoop.deliver config locals m).wp (loopMachine config)
      (Prog.Ends (Bounded config) (TurnEnds config)) (.polled m :: log) := by
  have polled : Bounded config (.polled m :: log) := between.bounded.neutral trivial
  refine Prog.wp_seq (fun _ after => after = .polled m :: log)
    (ends_plain polled (by simp) (by simp) fun _ => rfl) ?_
  rintro now after rfl
  cases m.value with
  | none => exact polled
  | some value =>
    have settled := between.settled.message increasing
    have count : (uncommitted (.handled m :: .polled m :: log)).length ≤ locals.sinceCommit + 1 :=
      Nat.le_trans (uncommitted_handled m _) (Nat.succ_le_succ between.count)
    -- The message handled is the one more that the bound leaves room for.
    have bounded : Bounded config (.handled m :: .polled m :: log) := by
      have room := between.room
      unfold Bounded
      omega
    refine Prog.wp_seq (fun _ after => Settled (locals.pending.set m.source m) after ∧
        Bounded config after ∧ (uncommitted after).length ≤ locals.sinceCommit + 1)
      (ends_callback polled ⟨settled, bounded, count⟩) ?_
    rintro _ after ⟨settled, bounded, count⟩
    refine Prog.wp_seq (fun _ after => Settled (locals.pending.set m.source m) after ∧
        Bounded config after ∧ (uncommitted after).length ≤ locals.sinceCommit + 1)
      (ends_optional bounded (fun _ => ⟨settled, bounded, count⟩) fun _ =>
        ⟨settled.neutral (.inr rfl), bounded.neutral trivial, count⟩) ?_
    rintro _ after ⟨settled, bounded, count⟩
    refine Prog.wp_seq (Between config) ?_ fun locals log between =>
      ⟨between.settled, between.count, between.room⟩
    unfold ConsumeLoop.account
    rw [manual]
    dsimp only
    split
    · exact absurd ‹_› (by simp)
    · split
      · exact commitPending_spec bounded settled fun empty =>
          absurd empty (Dict.set_ne_nil _ m locals.pending)
      · rename_i full
        exact ⟨settled, count, Int.not_le.mp full⟩

/-- What a poll adds to the history, by what it hands out. -/
def PollAdds (log : List Entry) : Polled → List Entry → Prop
  | .message m, after => after = .polled m :: log ∧ ∀ earlier, .polled earlier ∈ log →
      earlier.source = m.source → earlier.offset < m.offset
  | _, after => after = log

theorem pollOnce_spec (manual : config.autoCommit = false) {locals : Locals} {log : List Entry}
    (between : Between config locals log) :
    (ConsumeLoop.pollOnce config locals).wp (loopMachine config)
      (Prog.Ends (Bounded config) (TurnEnds config)) log := by
  refine Prog.wp_seq (PollAdds log) ((@Prog.wp_perform loopSig Exn _ _ (.inl .poll) _ log).mpr
      ⟨⟨between.bounded, fun m same => (nomatch same)⟩, ?_⟩) ?_
  · intro answer after step
    cases answer with
    | ok polled => cases polled <;> exact step
    | error exn => exact step ▸ between.bounded
  · intro polled after step
    cases polled with
    | nothing => exact step ▸ idle_spec manual between
    | error text => exact step ▸ between
    | message m => exact step.1 ▸ deliver_spec manual between step.2

/-- **The step lemma**: one turn of the loop. -/
theorem turn_spec (manual : config.autoCommit = false) {locals : Locals} {log : List Entry}
    (between : Between config locals log) :
    (ConsumeLoop.turn config locals).wp (loopMachine config)
      (Prog.Ends (Bounded config) (TurnEnds config)) log := by
  unfold ConsumeLoop.turn
  split
  · refine Prog.wp_seq (fun _ after => after = log)
      (ends_plain between.bounded (by simp) (by simp) fun _ => rfl) ?_
    rintro stop after rfl
    cases stop with
    | true => exact between
    | false => exact pollOnce_spec manual between
  · exact pollOnce_spec manual between

/-- How the loop may end: stopped between two turns, or cut off within the bound. -/
def LoopEnds (config : LoopConfig) : Option Locals → List Entry → Prop
  | some locals, log => Between config locals log
  | none, log => Bounded config log

/-- **The loop**, by induction on the number of its turns. -/
theorem turns_spec (manual : config.autoCommit = false) (fuel : Nat) {locals : Locals}
    {log : List Entry} (between : Between config locals log) :
    (ConsumeLoop.turns config fuel locals).wp (loopMachine config)
      (Prog.Ends (Bounded config) (LoopEnds config)) log := by
  induction fuel generalizing locals log with
  | zero => exact between.bounded
  | succ fuel ih =>
    unfold ConsumeLoop.turns
    split
    · refine Prog.wp_seq _ (turn_spec manual between) ?_
      intro turn log ends
      cases turn with
      | more locals => exact ih ends
      | stopped locals => exact ends
    · exact between

theorem body_spec (manual : config.autoCommit = false) (fuel : Nat) {locals : Locals}
    {log : List Entry} (between : Between config locals log) :
    (ConsumeLoop.body config fuel locals).wp (loopMachine config)
      (Prog.Ends (Bounded config) fun _ => Bounded config) log := by
  refine Prog.wp_seq _ (turns_spec manual fuel between) ?_
  intro left log ends
  cases left with
  | none => exact ends
  | some locals =>
    exact Prog.wp_seq _ (flush_spec manual ends) fun locals log between => between.bounded

/-- **The whole loop makes every call where it is permitted.** -/
theorem consumeLoop_spec (manual : config.autoCommit = false) (fuel : Nat) :
    (consumeLoop config fuel).wp (loopMachine config)
      (Prog.Ends (Bounded config) fun _ => Bounded config) [] := by
  have start := fun lastMsg => between_start config lastMsg
  refine Prog.wp_seq (fun _ after => after = [])
    (ends_plain (start 0).bounded (by simp) (by simp) fun _ => rfl) ?_
  rintro _ after rfl
  refine Prog.wp_seq (fun _ after => after = [])
    (ends_plain (start 0).bounded (by simp) (by simp) fun _ => rfl) ?_
  rintro lastMsg after rfl
  refine Prog.wp_seq (fun _ => Bounded config)
    (Prog.wp_attempt.mpr (Prog.wp_mono ?_ (body_spec manual fuel (start lastMsg)))) ?_
  · intro outcome log ends
    cases outcome <;> exact ends
  · intro outcome log bounded
    have close : ∀ {α : Type} (last : Consuming α), (∀ log, Bounded config log →
        last.wp (loopMachine config) (Prog.Ends (Bounded config) fun _ => Bounded config) log) →
        ((consumer .close).bind fun _ => last).wp (loopMachine config)
          (Prog.Ends (Bounded config) fun _ => Bounded config) log := fun last rest =>
      Prog.wp_seq (fun _ => Bounded config)
        (ends_plain bounded (by simp) (by simp) fun _ => bounded) fun _ => rest
    cases outcome with
    | error exn => exact close _ fun _ bounded => bounded
    | ok left =>
      cases left with
      | none => exact bounded
      | some n => exact close _ fun _ bounded => bounded

end Specs

end Freshet.Kafka
