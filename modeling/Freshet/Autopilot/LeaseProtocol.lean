/-
**The lease protocol, and that every entry point of the autopilot follows it.**

A worker is `free`, or has `claimed` one slot of one incident, or has `posted` for it. The protocol
says what each phase permits: only a free worker claims or writes owed markers; a worker with a
claim only reads, releases, or posts the very item it claimed, a follow-up under the `slack_ts` it
read; a worker that has posted only records.

`program_follows` checks this on the text of the programs, one lemma for each function of the
consumer. The interleaving argument over the protocol is `AtMostOnce`.
-/

import Freshet.Autopilot.Consumer

namespace Freshet.Autopilot

open Freshet.Lib

/-- Where a worker stands. `thread` is the thread id it has read since it claimed, if any. -/
inductive Phase
  | free
  | claimed (incidentId : String) (slot : Slot) (thread : Option (Option String))
  | posted (incidentId : String) (slot : Slot)
deriving DecidableEq

/-- Calls that change neither the table nor what the worker knows of it. -/
def IsRead : Op → Prop
  | .sql (.incidentMeta _) | .sql (.incidentRow _) | .monotonic | .sleep | .indexedCount _
  | .incidentUpdates _ _ | .fetchRunbook _ | .incidentServices _ | .recurrenceFor _ _ _
  | .compose _ _ | .lastChannelId => True
  | _ => False

/-- What waiting for the index calls. -/
def IsWait : Op → Prop
  | .monotonic | .sleep | .indexedCount _ => True
  | _ => False

theorem isRead_of_isWait (op : Op) (wait : IsWait op) : IsRead op := by
  cases op <;> first | exact wait.elim | trivial

/-- Calls outside the claims: reads of the clock and of the table, owed markers, the row of an
incident that has an id. -/
def IsPlain : Op → Prop
  | .sql (.claim _ _) | .sql (.claimDeferred _ _) | .sql (.release _ _) | .sql (.markBrief _ _ _)
  | .sql (.markFollowup _ _) | .deliver _ _ _ _ | .compose _ _ => False
  | .sql (.ensureIncident incidentId _ _ _) => incidentId ≠ ""
  | _ => True

/-- The calls that do not fail in the protocol: the statements that close a claim, and the read of
the sink's attribute between a post and its mark. -/
def Certain : Op → Prop
  | .sql (.release _ _) | .sql (.markBrief _ _ _) | .sql (.markFollowup _ _)
  | .lastChannelId => True
  | _ => False

/-- The claims. -/
def IsClaim : Op → Prop
  | .sql (.claim _ _) | .sql (.claimDeferred _ _) => True
  | _ => False

/-- The mark of a slot. -/
def Marks (incidentId : String) : Slot → Op → Prop
  | .brief, op => ∃ slackTs channelId, op = .sql (.markBrief slackTs channelId incidentId)
  | .followup kind, op => op = .sql (.markFollowup kind incidentId)

namespace Phase

/-- **What a phase permits.** -/
def permits (op : Op) : Phase → Prop
  | free => IsPlain op ∨ IsRead op ∨ IsClaim op
  | claimed incidentId slot thread =>
    IsRead op ∨ op = .sql (.getSlackTs incidentId) ∨ op = .sql (.release slot incidentId) ∨
      ∃ findings under, op = .deliver incidentId slot findings under ∧
        ∀ kind, slot = .followup kind → thread = some under
  | posted incidentId slot => IsRead op ∨ Marks incidentId slot op

/-- The phase after a call has answered. -/
def next : (op : Op) → Phase → Except Exn op.Ans → Phase
  | .sql (.claim slot incidentId), phase, answer =>
    match answer with
    | .ok true => claimed incidentId slot none
    | _ => phase
  | .sql (.claimDeferred kind incidentId), phase, answer =>
    match answer with
    | .ok (some (_, slackTs)) => claimed incidentId (.followup kind) (some slackTs)
    | _ => phase
  | .sql (.getSlackTs _), phase, answer =>
    match phase, answer with
    | claimed incidentId slot _, .ok row => claimed incidentId slot (some row.join)
    | _, _ => phase
  | .deliver incidentId slot _ _, phase, answer =>
    match answer with
    | .ok _ => posted incidentId slot
    | .error _ => phase
  | .sql (.release _ _), _, _ => free
  | .sql (.markBrief _ _ _), _, _ => free
  | .sql (.markFollowup _ _), _, _ => free
  | _, phase, _ => phase

end Phase

/-- **The protocol**: a mark or a release that is made succeeds. -/
def leaseProtocol : Machine sig Exn Phase where
  safe := Phase.permits
  step op phase answer after :=
    (Certain op → ∃ value, answer = .ok value) ∧ after = Phase.next op phase answer

/-- The program ends with the worker free again, whatever the outcome. -/
abbrev ReturnsClaim {α : Type} (program : Auto α) : Prop :=
  program.wp leaseProtocol (fun _ phase => phase = .free) .free

theorem wp_ask {op : Op} {post : Except Exn op.Ans → Phase → Prop} {phase : Phase} :
    (ask op).wp leaseProtocol post phase ↔
      phase.permits op ∧ ∀ answer, (Certain op → ∃ value, answer = .ok value) →
        post answer (phase.next op answer) := by
  rw [ask, Prog.wp_perform]
  constructor
  · exact fun holds => ⟨holds.1, fun answer certain => holds.2 answer _ ⟨certain, rfl⟩⟩
  · rintro ⟨permitted, rest⟩
    refine ⟨permitted, ?_⟩
    rintro answer after ⟨certain, rfl⟩
    exact rest answer certain

/-- The rule for `except Exception: cleanup; raise`. -/
theorem wp_onError {α S : Type} {m : Machine sig Exn S} {body : Auto α} {cleanup : Auto Unit}
    {post : Except Exn α → S → Prop} {s : S} :
    (onError body cleanup).wp m post s ↔
      body.wp m (fun outcome after => match outcome with
        | .ok value => post (.ok value) after
        | .error exn => cleanup.wp m (fun outcome last => match outcome with
          | .ok _ => post (.error exn) last
          | .error other => post (.error other) last) after) s := by
  unfold onError
  simp only [Prog.bind_eq, Prog.wp_bind, Prog.wp_attempt]
  constructor
  · refine Prog.wp_mono ?_
    rintro (exn | value) after holds
    · refine Prog.wp_mono ?_ (Prog.wp_bind.mp holds)
      rintro (other | done) last kept <;> exact kept
    · exact holds
  · refine Prog.wp_mono ?_
    rintro (exn | value) after holds
    · refine Prog.wp_bind.mpr (Prog.wp_mono ?_ holds)
      rintro (other | done) last kept <;> exact kept
    · exact holds

/-! ### Reading keeps the phase -/

theorem next_of_isRead {op : Op} (read : IsRead op) (phase : Phase) (answer : Except Exn op.Ans) :
    phase.next op answer = phase := by
  cases op with
  | sql stmt => cases stmt <;> first | exact read.elim | rfl
  | deliver => exact read.elim
  | _ => rfl

theorem permits_of_isRead {op : Op} (read : IsRead op) (phase : Phase) : phase.permits op := by
  cases phase with
  | free => exact Or.inr (Or.inl read)
  | claimed => exact Or.inl read
  | posted => exact Or.inl read

/-- A program that only reads keeps the phase, whatever its outcome. -/
theorem wp_of_reads {α : Type} {program : Auto α} (uses : program.Uses IsRead) (phase : Phase) :
    program.wp leaseProtocol (fun _ after => after = phase) phase := by
  refine Prog.wp_of_uses uses rfl ?_
  rintro op read _ rfl
  refine ⟨permits_of_isRead read _, ?_⟩
  rintro answer after ⟨-, rfl⟩
  exact next_of_isRead read _ answer

theorem next_of_isPlain {op : Op} (plain : IsPlain op) (answer : Except Exn op.Ans) :
    Phase.free.next op answer = .free := by
  cases op with
  | sql stmt => cases stmt <;> first | exact plain.elim | rfl
  | deliver => exact plain.elim
  | _ => rfl

/-- A program of plain calls keeps a free worker free. -/
theorem returnsClaim_of_plain {α : Type} {program : Auto α} (uses : program.Uses IsPlain) :
    ReturnsClaim program := by
  refine Prog.wp_of_uses uses rfl ?_
  rintro op plain _ rfl
  refine ⟨Or.inl plain, ?_⟩
  rintro answer after ⟨-, rfl⟩
  exact next_of_isPlain plain answer

/-! ### Gathering only reads -/

theorem summarise_uses (hasComposer : Bool) (updates : List Update) (question : String) :
    (summarise hasComposer updates question).Uses IsRead := by
  unfold summarise
  split_ifs
  · trivial
  · trivial
  · refine Prog.uses_bind (Prog.uses_attempt (Prog.uses_perform trivial)) ?_
    rintro ((message | message) | narrative) <;> trivial

theorem gather_uses (hasComposer hasEmbedder : Bool)
    (service incidentId status question : String) (summary : Option String)
    (asOf : Option Time) :
    (gather hasComposer hasEmbedder service incidentId status question summary asOf).Uses
      IsRead := by
  unfold gather
  refine Prog.uses_bind (Prog.uses_perform trivial) fun own => ?_
  refine Prog.uses_bind (Prog.uses_perform trivial) fun runbook => ?_
  refine Prog.uses_bind (summarise_uses _ _ _) fun narrative => ?_
  refine Prog.uses_bind (Prog.uses_perform trivial) fun row => ?_
  refine Prog.uses_bind (Prog.uses_perform trivial) fun services => ?_
  refine Prog.uses_bind ?_ fun recurrence => Prog.uses_ret _
  unfold recurrenceOf
  split_ifs
  · exact Prog.uses_perform trivial
  · trivial

theorem gatherFindings_uses (hasComposer hasEmbedder : Bool)
    (service incidentId status : String) :
    (gatherFindings hasComposer hasEmbedder service incidentId status).Uses IsRead :=
  Prog.uses_bind (Prog.uses_perform trivial) fun _ => gather_uses _ _ _ _ _ _ _ _

theorem gatherPostmortem_uses (hasComposer : Bool) (service incidentId : String) :
    (gatherPostmortem hasComposer service incidentId).Uses IsRead :=
  Prog.uses_bind (Prog.uses_perform trivial) fun _ => gather_uses _ _ _ _ _ _ _ _

theorem pollIndex_uses (incidentId : String) (deadline : Time) (polls : Nat) :
    (pollIndex incidentId deadline polls).Uses IsWait := by
  induction polls with
  | zero => exact Prog.uses_perform trivial
  | succ polls ih =>
    refine Prog.uses_bind (Prog.uses_perform trivial) fun n => ?_
    split_ifs
    · trivial
    · refine Prog.uses_bind (Prog.uses_perform trivial) fun now => ?_
      split_ifs
      · trivial
      · exact Prog.uses_bind (Prog.uses_perform trivial) fun _ => ih

theorem waitForIndex_uses (incidentId : String) (timeoutS : Nat) :
    (waitForIndex incidentId timeoutS).Uses IsWait :=
  Prog.uses_bind (Prog.uses_perform trivial) fun _ => pollIndex_uses _ _ _

/-! ### Posting under a claim -/

/-- A gathering followed by the rest: the rest starts in the phase the gathering started in. -/
theorem wp_bind_reads {α β : Type} {first : Auto α} {rest : α → Auto β}
    {post : Except Exn β → Phase → Prop} {phase : Phase} (uses : first.Uses IsRead)
    (next : ∀ value, (rest value).wp leaseProtocol post phase)
    (failed : ∀ exn, post (.error exn) phase) :
    (first.bind rest).wp leaseProtocol post phase := by
  rw [Prog.wp_bind]
  refine Prog.wp_mono ?_ (wp_of_reads uses phase)
  rintro (exn | value) after rfl
  · exact failed exn
  · exact next value

/-- The claim that `free` worker makes: won, it holds the slot; lost, it is still free. -/
theorem wp_claim {slot : Slot} {incidentId : String} {post : Except Exn Bool → Phase → Prop}
    (won : post (.ok true) (.claimed incidentId slot none)) (lost : post (.ok false) .free)
    (failed : ∀ exn, post (.error exn) .free) :
    (sql (.claim slot incidentId)).wp leaseProtocol post .free := by
  refine wp_ask.mpr ⟨Or.inr (Or.inr trivial), fun answer _ => ?_⟩
  match answer with
  | .ok true => exact won
  | .ok false => exact lost
  | .error exn => exact failed exn

/-- A release ends the claim. -/
theorem wp_release {incidentId : String} {slot : Slot} {thread : Option (Option String)}
    {post : Except Exn Unit → Phase → Prop} (done : post (.ok ()) .free) :
    (sql (.release slot incidentId)).wp leaseProtocol post (.claimed incidentId slot thread) := by
  refine wp_ask.mpr ⟨Or.inr (Or.inr (Or.inl rfl)), fun answer certain => ?_⟩
  obtain ⟨value, rfl⟩ := certain trivial
  exact done

/-- A mark ends the claim of a worker that has posted. -/
theorem wp_mark {incidentId : String} {kind : Followup} {post : Except Exn Unit → Phase → Prop}
    (done : post (.ok ()) .free) :
    (sql (.markFollowup kind incidentId)).wp leaseProtocol post
      (.posted incidentId (.followup kind)) := by
  refine wp_ask.mpr ⟨Or.inr rfl, fun answer certain => ?_⟩
  obtain ⟨value, rfl⟩ := certain trivial
  exact done

/-- The delivery of the claimed item, a follow-up under the thread that was read. -/
theorem wp_deliver {incidentId : String} {slot : Slot} {thread : Option (Option String)}
    {findings : Findings} {under : Option String}
    {post : Except Exn (Option String) → Phase → Prop}
    (read : ∀ kind, slot = .followup kind → thread = some under)
    (done : ∀ ts, post (.ok ts) (.posted incidentId slot))
    (failed : ∀ exn, post (.error exn) (.claimed incidentId slot thread)) :
    (ask (.deliver incidentId slot findings under)).wp leaseProtocol post
      (.claimed incidentId slot thread) := by
  refine wp_ask.mpr ⟨Or.inr (Or.inr (Or.inr ⟨findings, under, rfl, read⟩)), fun answer _ => ?_⟩
  match answer with
  | .ok ts => exact done ts
  | .error exn => exact failed exn

/-- A follow-up branch ends free, or, having failed, still with its claim. -/
def FreeOrHolding (incidentId : String) (kind : Followup) : Except Exn Unit → Phase → Prop
  | .ok _, phase => phase = .free
  | .error _, phase => ∃ thread, phase = .claimed incidentId (.followup kind) thread

/-- What the `try` of a follow-up branch does under its claim: read the thread, gather, post,
record. -/
theorem wp_postFollowup {kind : Followup} {incidentId : String} {gathered : Auto Findings}
    (uses : gathered.Uses IsRead) (thread : Option (Option String)) :
    ((sql (.getSlackTs incidentId)).bind fun row => gathered.bind fun findings =>
      (ask (.deliver incidentId (.followup kind) findings row.join)).bind fun _ =>
        sql (.markFollowup kind incidentId)).wp leaseProtocol
      (FreeOrHolding incidentId kind) (.claimed incidentId (.followup kind) thread) := by
  rw [Prog.wp_bind]
  refine wp_ask.mpr ⟨Or.inr (Or.inl rfl), fun answer _ => ?_⟩
  match answer with
  | .error exn => exact ⟨thread, rfl⟩
  | .ok row =>
    refine wp_bind_reads uses (fun findings => ?_) (fun exn => ⟨_, rfl⟩)
    rw [Prog.wp_bind]
    refine wp_deliver (fun _ _ => rfl) (fun ts => ?_) (fun exn => ⟨_, rfl⟩)
    exact wp_mark rfl

/-- Claim a slot and, under the claim, run a follow-up branch that releases on any failure. -/
theorem returnsClaim_claimAndPost {kind : Followup} {incidentId : String} {body : Auto Unit}
    (follows : ∀ thread, body.wp leaseProtocol (FreeOrHolding incidentId kind)
      (.claimed incidentId (.followup kind) thread)) :
    ReturnsClaim ((sql (.claim (.followup kind) incidentId)).bind fun won =>
      if won = true then onError body (sql (.release (.followup kind) incidentId))
      else pure ()) := by
  unfold ReturnsClaim
  rw [Prog.wp_bind]
  refine wp_claim ?_ rfl (fun _ => rfl)
  refine wp_onError.mpr (Prog.wp_mono ?_ (follows none))
  rintro (exn | value) after holds
  · obtain ⟨thread, rfl⟩ := holds
    exact wp_release rfl
  · exact holds

/-! ### The entry points -/

theorem returnsClaim_bind {α β : Type} {first : Auto α} {rest : α → Auto β}
    (start : ReturnsClaim first) (next : ∀ value, ReturnsClaim (rest value)) :
    ReturnsClaim (first.bind rest) := by
  refine Prog.wp_bind.mpr (Prog.wp_mono ?_ start)
  rintro (exn | value) after rfl
  · rfl
  · exact next value

theorem eventTs_uses (config : Config) (ev : LifecycleEvent) :
    (eventTs config ev).Uses IsPlain := by
  unfold eventTs
  cases config.parseTs ev.ts with
  | none => exact Prog.uses_perform trivial
  | some ts => trivial

theorem ensureIncident_uses (incidentId service : String) (openedAt : Time) (title : String) :
    (ensureIncident incidentId service openedAt title).Uses IsPlain := by
  unfold ensureIncident
  split_ifs with unnamed
  · trivial
  · exact Prog.uses_bind (Prog.uses_perform unnamed) fun _ => Prog.uses_perform trivial

theorem handleOpened_uses (config : Config) (ev : LifecycleEvent) :
    (handleOpened config ev).Uses IsPlain := by
  refine Prog.uses_bind (Prog.uses_perform trivial) fun now => ?_
  refine Prog.uses_bind (eventTs_uses config ev) fun ts => ?_
  split_ifs
  · trivial
  · refine Prog.uses_bind (eventTs_uses config ev) fun openedAt => ?_
    exact Prog.uses_bind (ensureIncident_uses _ _ _ _) fun _ => Prog.uses_perform trivial

theorem isStale_uses (config : Config) (ev : LifecycleEvent) (opened : Option Time) :
    (isStale config ev opened).Uses IsPlain := by
  cases opened with
  | none => trivial
  | some openedAt => exact Prog.uses_bind (eventTs_uses config ev) fun _ => trivial

theorem handleInProgress_follows (config : Config) (ev : LifecycleEvent) :
    ReturnsClaim (handleInProgress config ev) := by
  refine returnsClaim_bind (returnsClaim_of_plain (Prog.uses_perform trivial)) fun opened => ?_
  refine returnsClaim_bind (returnsClaim_of_plain (isStale_uses _ _ _)) fun stale => ?_
  split_ifs
  · exact rfl
  refine returnsClaim_bind (returnsClaim_of_plain (eventTs_uses _ _)) fun openedAt => ?_
  refine returnsClaim_bind (returnsClaim_of_plain (ensureIncident_uses _ _ _ _)) fun _ => ?_
  refine returnsClaim_bind (returnsClaim_of_plain (Prog.uses_perform trivial)) fun _ => ?_
  refine returnsClaim_bind (returnsClaim_of_plain (Prog.uses_perform trivial)) fun _ => ?_
  exact returnsClaim_claimAndPost fun thread =>
    @wp_postFollowup .progress ev.incidentId _ (gatherFindings_uses _ _ _ _ _) thread

theorem handleResolved_follows (config : Config) (ev : LifecycleEvent) :
    ReturnsClaim (handleResolved config ev) := by
  refine returnsClaim_bind (returnsClaim_of_plain (eventTs_uses _ _)) fun ts => ?_
  refine returnsClaim_bind (returnsClaim_of_plain (Prog.uses_perform trivial)) fun opened => ?_
  split_ifs
  · exact rfl
  refine returnsClaim_bind (returnsClaim_of_plain (Prog.uses_perform trivial)) fun _ => ?_
  refine returnsClaim_bind (returnsClaim_of_plain (Prog.uses_perform trivial)) fun _ => ?_
  exact returnsClaim_claimAndPost fun thread =>
    @wp_postFollowup .postmortem ev.incidentId _ (gatherPostmortem_uses _ _ _) thread

theorem handleLifecycle_follows (config : Config) (raw : RawLifecycle) :
    ReturnsClaim (handleLifecycle config raw) := by
  unfold handleLifecycle
  cases LifecycleEvent.fromJson raw with
  | error exn => rfl
  | ok ev =>
    simp only
    split_ifs
    · exact returnsClaim_of_plain (handleOpened_uses config ev)
    · exact handleInProgress_follows config ev
    · exact handleResolved_follows config ev
    · rfl

/-- The `try` of the brief drain ends with the brief posted, or with the claim still held. -/
theorem wp_postBrief (config : Config) (incidentId service : String) :
    (postBrief config incidentId service).wp leaseProtocol
      (fun outcome phase => match outcome with
        | .ok _ => phase = .posted incidentId .brief
        | .error _ => phase = .claimed incidentId .brief none)
      (.claimed incidentId .brief none) := by
  refine wp_bind_reads (Prog.uses_mono isRead_of_isWait (waitForIndex_uses _ _)) (fun _ => ?_)
    (fun _ => rfl)
  refine wp_bind_reads (gatherFindings_uses _ _ _ _ _) (fun findings => ?_) (fun _ => rfl)
  exact wp_deliver (fun kind impossible => nomatch impossible) (fun _ => rfl) (fun _ => rfl)

theorem drainBriefs_follows (config : Config) (due : List (String × String)) :
    ReturnsClaim (drainBriefs config due) := by
  induction due with
  | nil => rfl
  | cons item later ih =>
    obtain ⟨incidentId, service⟩ := item
    refine Prog.wp_bind.mpr (wp_claim ?_ ih (fun _ => rfl))
    refine Prog.wp_bind.mpr (Prog.wp_attempt.mpr ?_)
    refine Prog.wp_mono ?_ (wp_postBrief config incidentId service)
    rintro ((message | message) | ts) after rfl
    · exact Prog.wp_bind.mpr (wp_release rfl)
    · exact Prog.wp_bind.mpr (wp_release rfl)
    · refine Prog.wp_bind.mpr (wp_ask.mpr ⟨Or.inl trivial, fun answer certain => ?_⟩)
      obtain ⟨channelId, rfl⟩ := certain trivial
      refine Prog.wp_bind.mpr (wp_ask.mpr ⟨Or.inr ⟨ts, channelId, rfl⟩, fun answer certain => ?_⟩)
      obtain ⟨value, rfl⟩ := certain trivial
      exact returnsClaim_bind ih fun _ => rfl

/-- A deferred delivery that wins its claim posts under the `slack_ts` the claim returned. -/
theorem deliverDeferred_follows {kind : Followup} {incidentId : String}
    {gathered : String → Auto Findings} (uses : ∀ service, (gathered service).Uses IsRead) :
    ReturnsClaim (deliverDeferred kind incidentId gathered
      (sql (.release (.followup kind) incidentId)) (sql (.markFollowup kind incidentId))) := by
  refine Prog.wp_bind.mpr (wp_ask.mpr ⟨Or.inr (Or.inr trivial), fun answer _ => ?_⟩)
  match answer with
  | .error exn => exact rfl
  | .ok none => exact rfl
  | .ok (some (service, slackTs)) =>
    refine Prog.wp_bind.mpr (wp_onError.mpr ?_)
    refine wp_bind_reads (uses service) (fun findings => ?_) (fun exn => wp_release rfl)
    refine Prog.wp_bind.mpr (wp_deliver (fun _ _ => rfl) (fun ts => ?_) (fun exn => wp_release rfl))
    exact Prog.wp_bind.mpr (wp_mark rfl)

theorem deliverPending_follows (config : Config) (incidentId : String) :
    ReturnsClaim (deliverPending config incidentId) := by
  refine returnsClaim_bind (deliverDeferred_follows fun _ => gatherFindings_uses _ _ _ _ _) ?_
  intro progress
  refine returnsClaim_bind (deliverDeferred_follows fun _ => gatherPostmortem_uses _ _ _) ?_
  exact fun postmortem => rfl

theorem drainFollowups_follows (config : Config) (pending : List String) :
    ReturnsClaim (drainFollowups config pending) := by
  induction pending with
  | nil => rfl
  | cons incidentId later ih =>
    refine Prog.wp_bind.mpr (Prog.wp_attempt.mpr ?_)
    refine Prog.wp_mono ?_ (deliverPending_follows config incidentId)
    rintro ((message | message) | delivered) after rfl
    · rfl
    · rfl
    · exact returnsClaim_bind ih fun _ => rfl

theorem drainPendingFollowups_follows (config : Config) :
    ReturnsClaim (drainPendingFollowups config) :=
  returnsClaim_bind (returnsClaim_of_plain (Prog.uses_perform trivial))
    fun pending => drainFollowups_follows config pending

theorem drainDueBriefs_follows (config : Config) : ReturnsClaim (drainDueBriefs config) := by
  refine returnsClaim_bind (returnsClaim_of_plain (Prog.uses_perform trivial)) fun due => ?_
  refine returnsClaim_bind (drainBriefs_follows config due) fun delivered => ?_
  exact returnsClaim_bind (drainPendingFollowups_follows config) fun _ => rfl

theorem handleAndDrain_follows (config : Config) (raw : RawLifecycle) :
    ReturnsClaim (handleAndDrain config raw) :=
  returnsClaim_bind (handleLifecycle_follows config raw) fun _ => drainDueBriefs_follows config

/-- **Every job follows the protocol.** -/
theorem program_follows (job : Job) : ReturnsClaim job.program := by
  cases job with
  | handleLifecycle config raw => exact handleLifecycle_follows config raw
  | drainDueBriefs config => exact returnsClaim_bind (drainDueBriefs_follows config) fun _ => rfl
  | drainPendingFollowups config =>
    exact returnsClaim_bind (drainPendingFollowups_follows config) fun _ => rfl
  | handleAndDrain config raw =>
    exact returnsClaim_bind (handleAndDrain_follows config raw) fun _ => rfl
  | indexed incidentId service openedAt title =>
    exact returnsClaim_of_plain (ensureIncident_uses _ _ _ _)
  | markSeen seenTs incidentId => exact returnsClaim_of_plain (Prog.uses_perform trivial)

end Freshet.Autopilot
