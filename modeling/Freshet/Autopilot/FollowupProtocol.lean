/-
**What a worker knows when it claims or posts a follow-up.**

A worker posts only what it has claimed. And before some claims it has learned something of the
incident's row: the handler of an in-progress event has ensured the row and recorded the event; the
drain goes through incidents whose briefs are posted, and has seen to the in-progress update of one
before it claims its postmortem.

`program_careful` checks this on the text of the programs, one lemma for each function of the
consumer. What the facts are worth among other workers is shown in `FollowupOrder`.
-/

import Freshet.Autopilot.LeaseProtocol

namespace Freshet.Autopilot

open Freshet.Lib

/-! ### What an answer teaches -/

/-- What a worker may know of an incident: that its row is there, that an in-progress event of it is
recorded, that its brief is posted, that the drain has seen to its in-progress update, and that the
worker has claimed a follow-up of it. -/
inductive Fact
  | there (incidentId : String)
  | noted (incidentId : String)
  | listed (incidentId : String)
  | passed (incidentId : String)
  | claimed (kind : Followup) (incidentId : String)

/-- What a worker knows since it took up its job. -/
abbrev Knowledge := Fact → Prop

/-- **What an answer teaches.** The drain has seen to the in-progress update of an incident that it
was given where it could not claim it, or has recorded it. -/
def learns (knows : Knowledge) : (op : Op) → Except Exn op.Ans → Fact → Prop
  | .sql (.ensureIncident incidentId _ _ _), answer, fact =>
    answer = .ok () ∧ fact = .there incidentId
  | .sql (.defer .progress incidentId), answer, fact =>
    answer = .ok () ∧ fact = .noted incidentId ∧ (knows (.there incidentId) ∨ incidentId = "")
  | .sql (.pendingFollowups _), answer, fact =>
    ∃ pending, answer = .ok pending ∧ ∃ incidentId ∈ pending, fact = .listed incidentId
  | .sql (.claim (.followup kind) incidentId), answer, fact =>
    answer = .ok true ∧ fact = .claimed kind incidentId
  | .sql (.claimDeferred kind incidentId), answer, fact =>
    (∃ row, answer = .ok (some row) ∧ fact = .claimed kind incidentId) ∨
      kind = .progress ∧ answer = .ok none ∧ fact = .passed incidentId ∧ knows (.listed incidentId)
  | .sql (.markFollowup kind incidentId), answer, fact =>
    kind = .progress ∧ answer = .ok () ∧ fact = .passed incidentId ∧ knows (.listed incidentId)
  | _, _, _ => False

/-- A statement that fails teaches nothing. -/
theorem not_learns_error (knows : Knowledge) (stmt : Stmt) (exn : Exn) (fact : Fact) :
    ¬ learns knows (.sql stmt) (.error exn) fact := by
  intro new
  cases stmt with
  | ensureIncident => cases new.1
  | defer kind incidentId =>
    cases kind
    · cases new.1
    · exact new
  | pendingFollowups limit =>
    obtain ⟨pending, impossible, -⟩ := new
    cases impossible
  | claim slot incidentId =>
    cases slot
    · exact new
    · cases new.1
  | claimDeferred kind incidentId =>
    rcases new with ⟨row, impossible, -⟩ | ⟨-, impossible, -⟩
    · cases impossible
    · cases impossible
  | markFollowup => cases new.2.1
  | _ => exact new

/-- What is known after a call. -/
def learned (op : Op) (knows : Knowledge) (answer : Except Exn op.Ans) : Knowledge :=
  fun fact => knows fact ∨ learns knows op answer fact

/-- **The protocol**: a row is ensured for an id only; a follow-up is posted and marked by a worker
that has claimed it; an in-progress event is recorded before its claim; and the drain sees to the
in-progress update before it claims the postmortem. -/
def followupProtocol : Machine sig Exn Knowledge where
  safe op knows := match op with
    | .sql (.ensureIncident incidentId _ _ _) => incidentId ≠ ""
    | .sql (.claim (.followup .progress) incidentId) => knows (.noted incidentId)
    | .sql (.claimDeferred .postmortem incidentId) => knows (.passed incidentId)
    | .sql (.markFollowup kind incidentId) => knows (.claimed kind incidentId)
    | .deliver incidentId (.followup kind) _ _ => knows (.claimed kind incidentId)
    | _ => True
  step op knows answer after := after = learned op knows answer

/-- The program follows the protocol, whatever was learned before it. -/
def Careful {α : Type} (program : Auto α) : Prop :=
  ∀ knows, program.wp followupProtocol (fun _ _ => True) knows

/-- **Nothing that was learned is forgotten.** -/
theorem wp_remembers {α : Type} {program : Auto α} {post : Except Exn α → Knowledge → Prop}
    {knows : Knowledge} (holds : program.wp followupProtocol post knows) :
    program.wp followupProtocol (fun outcome after => post outcome after ∧
      ∀ fact, knows fact → after fact) knows := by
  induction program generalizing knows with
  | ret value => exact ⟨holds, fun _ known => known⟩
  | raise exn => exact ⟨holds, fun _ known => known⟩
  | call op next ih =>
    refine ⟨holds.1, fun answer after moved => ?_⟩
    cases moved
    refine Prog.wp_mono ?_ (ih answer (holds.2 answer _ rfl))
    intro outcome last both
    exact ⟨both.1, fun fact known => both.2 fact (Or.inl known)⟩

/-! ### Calls that ask for nothing -/

/-- Calls that the protocol permits anywhere. -/
def IsSilent : Op → Prop
  | .deliver _ (.followup _) _ _ | .sql (.claim (.followup .progress) _)
  | .sql (.claimDeferred .postmortem _) | .sql (.markFollowup _ _) => False
  | .sql (.ensureIncident incidentId _ _ _) => incidentId ≠ ""
  | _ => True

theorem safe_of_isSilent {op : Op} (silent : IsSilent op) (knows : Knowledge) :
    followupProtocol.safe op knows := by
  cases op with
  | sql stmt =>
    cases stmt with
    | claim slot incidentId =>
      rcases slot with _ | ⟨_ | _⟩
      · trivial
      · exact silent.elim
      · trivial
    | claimDeferred kind incidentId =>
      cases kind
      · trivial
      · exact silent.elim
    | markFollowup => exact silent.elim
    | ensureIncident => exact silent
    | _ => trivial
  | deliver incidentId slot findings thread =>
    cases slot
    · trivial
    · exact silent.elim
  | _ => trivial

theorem careful_of_silent {α : Type} {program : Auto α} (uses : program.Uses IsSilent) :
    Careful program := by
  intro knows
  refine Prog.wp_of_uses uses trivial fun op silent knows _ => ?_
  exact ⟨safe_of_isSilent silent knows, fun _ _ _ => trivial⟩

theorem careful_bind {α β : Type} {first : Auto α} {rest : α → Auto β} (start : Careful first)
    (next : ∀ value, Careful (rest value)) : Careful (first.bind rest) := by
  intro knows
  refine Prog.wp_bind.mpr (Prog.wp_mono ?_ (start knows))
  intro outcome after _
  cases outcome with
  | ok value => exact next value after
  | error exn => trivial

theorem careful_ret {α : Type} (value : α) : Careful (.ret value : Auto α) := fun _ => trivial

theorem careful_raise {α : Type} (exn : Exn) : Careful (.raise exn : Auto α) := fun _ => trivial

/-- One call that asks for nothing. -/
theorem careful_ask {op : Op} (silent : IsSilent op) : Careful (ask op) :=
  careful_of_silent (Prog.uses_perform silent)

theorem isSilent_of_isPlain (op : Op) (plain : IsPlain op) : IsSilent op := by
  cases op with
  | sql stmt => cases stmt <;> first | exact plain.elim | exact plain
  | deliver => exact plain.elim
  | _ => trivial

theorem isSilent_of_isRead (op : Op) (read : IsRead op) : IsSilent op := by
  cases op with
  | sql stmt => cases stmt <;> first | exact read.elim | exact read
  | deliver => exact read.elim
  | _ => trivial

theorem careful_of_plain {α : Type} {program : Auto α} (uses : program.Uses IsPlain) :
    Careful program :=
  careful_of_silent (Prog.uses_mono isSilent_of_isPlain uses)

theorem careful_of_reads {α : Type} {program : Auto α} (uses : program.Uses IsRead) :
    Careful program :=
  careful_of_silent (Prog.uses_mono isSilent_of_isRead uses)

/-- What comes after a program still knows what was known before it. -/
theorem wp_bind_careful {α β : Type} {first : Auto α} {rest : α → Auto β} {knows : Knowledge}
    {fact : Fact} (known : knows fact) (start : Careful first)
    (next : ∀ value (after : Knowledge), after fact →
      (rest value).wp followupProtocol (fun _ _ => True) after) :
    (first.bind rest).wp followupProtocol (fun _ _ => True) knows := by
  refine Prog.wp_bind.mpr (Prog.wp_mono ?_ (wp_remembers (start knows)))
  intro outcome after remembered
  cases outcome with
  | ok value => exact next value after (remembered.2 fact known)
  | error exn => trivial

/-! ### Posting what was claimed -/

section Followup

variable {kind : Followup} {incidentId : String} {knows : Knowledge}

/-- A post by a worker that has claimed it. -/
theorem wp_post_claimed {β : Type} {findings : Findings} {thread : Option String}
    {rest : Option String → Auto β} (claimed : knows (.claimed kind incidentId))
    (next : ∀ ts (after : Knowledge), after (.claimed kind incidentId) →
      (rest ts).wp followupProtocol (fun _ _ => True) after) :
    ((ask (.deliver incidentId (.followup kind) findings thread)).bind rest).wp followupProtocol
      (fun _ _ => True) knows := by
  refine ⟨claimed, fun answer after moved => ?_⟩
  cases moved
  cases answer with
  | error exn => trivial
  | ok ts => exact next ts _ (Or.inl claimed)

/-- The body of a follow-up branch, under its claim. -/
theorem wp_followup {gathered : Auto Findings} (uses : gathered.Uses IsRead)
    (claimed : knows (.claimed kind incidentId)) :
    ((sql (.getSlackTs incidentId)).bind fun row => gathered.bind fun findings =>
      (ask (.deliver incidentId (.followup kind) findings row.join)).bind fun _ =>
        sql (.markFollowup kind incidentId)).wp followupProtocol (fun _ _ => True) knows := by
  refine wp_bind_careful claimed (careful_ask trivial) fun row after claimed => ?_
  refine wp_bind_careful claimed (careful_of_reads uses) fun findings after claimed => ?_
  refine wp_post_claimed claimed fun ts after claimed => ⟨claimed, fun answer _ _ => ?_⟩
  cases answer <;> trivial

/-- `except Exception: release; raise` asks for nothing more. -/
theorem wp_onError_silent {α : Type} {body : Auto α} {cleanup : Auto Unit}
    (start : body.wp followupProtocol (fun _ _ => True) knows)
    (silent : cleanup.Uses IsSilent) :
    (onError body cleanup).wp followupProtocol (fun _ _ => True) knows := by
  refine wp_onError.mpr (Prog.wp_mono ?_ start)
  intro outcome after _
  cases outcome with
  | ok value => trivial
  | error exn =>
    refine Prog.wp_mono ?_ (careful_of_silent silent after)
    intro outcome last _
    cases outcome <;> trivial

/-- Claim a follow-up and post it under the claim. -/
theorem wp_claimAndPost {body : Auto Unit}
    (permitted : followupProtocol.safe (.sql (.claim (.followup kind) incidentId)) knows)
    (follows : ∀ after : Knowledge, after (.claimed kind incidentId) →
      body.wp followupProtocol (fun _ _ => True) after) :
    ((sql (.claim (.followup kind) incidentId)).bind fun won =>
      if won = true then onError body (sql (.release (.followup kind) incidentId))
      else pure ()).wp followupProtocol (fun _ _ => True) knows := by
  refine ⟨permitted, fun answer after moved => ?_⟩
  cases moved
  cases answer with
  | error exn => trivial
  | ok won =>
    cases won with
    | false => trivial
    | true =>
      exact wp_onError_silent (follows _ (Or.inr ⟨rfl, rfl⟩)) (Prog.uses_perform trivial)

/-- A deferred delivery that returns has seen to what it was given. -/
theorem wp_deliverDeferred_passed {gathered : String → Auto Findings}
    (uses : ∀ service, (gathered service).Uses IsRead)
    (permitted : followupProtocol.safe (.sql (.claimDeferred kind incidentId)) knows) :
    (deliverDeferred kind incidentId gathered (sql (.release (.followup kind) incidentId))
      (sql (.markFollowup kind incidentId))).wp followupProtocol
      (fun outcome after => ∀ done, outcome = .ok done → kind = .progress →
        knows (.listed incidentId) → after (.passed incidentId)) knows := by
  refine ⟨permitted, fun answer after moved => ?_⟩
  cases moved
  cases answer with
  | error exn =>
    intro done impossible
    cases impossible
  | ok row =>
    cases row with
    | none => exact fun _ _ progress listed => Or.inr (Or.inr ⟨progress, rfl, rfl, listed⟩)
    | some row =>
      obtain ⟨service, slackTs⟩ := row
      have claimed : learned (.sql (.claimDeferred kind incidentId)) knows
          (.ok (some (service, slackTs))) (.claimed kind incidentId) :=
        Or.inr (Or.inl ⟨_, rfl, rfl⟩)
      have posted := @wp_onError_silent _ _ _ (sql (.release (.followup kind) incidentId))
        (wp_bind_careful claimed (careful_of_reads (uses service)) fun findings after claimed =>
          @wp_post_claimed kind incidentId after Unit findings slackTs _ claimed
            fun _ after _ => careful_ret () after) (Prog.uses_perform trivial)
      show ((onError _ _).bind fun _ => (sql (.markFollowup kind incidentId)).bind fun _ =>
        .ret true).wp followupProtocol _ _
      refine Prog.wp_bind.mpr (Prog.wp_mono ?_ (wp_remembers posted))
      intro outcome last remembered
      cases outcome with
      | error exn =>
        intro done impossible
        cases impossible
      | ok done =>
        refine ⟨remembered.2 _ claimed, fun answer recorded moved => ?_⟩
        cases moved
        cases answer with
        | error exn =>
          intro done impossible
          cases impossible
        | ok done =>
          intro value _ progress listed
          exact Or.inr ⟨progress, rfl, rfl, remembered.2 _ (Or.inl listed)⟩

end Followup

/-! ### Handling one event -/

/-- The row is ensured, but for an event that names no incident. -/
theorem wp_ensureIncident_there (incidentId service : String) (openedAt : Time) (title : String)
    (knows : Knowledge) :
    (ensureIncident incidentId service openedAt title).wp followupProtocol
      (fun outcome after => outcome = .ok () → after (.there incidentId) ∨ incidentId = "")
      knows := by
  unfold ensureIncident
  split_ifs with unnamed
  · exact fun _ => Or.inr unnamed
  · refine ⟨unnamed, fun answer after moved => ?_⟩
    cases moved
    cases answer with
    | error exn =>
      intro impossible
      cases impossible
    | ok done =>
      refine ⟨trivial, fun answer later moved => ?_⟩
      cases moved
      cases answer with
      | error exn =>
        intro impossible
        cases impossible
      | ok done => exact fun _ => Or.inl (Or.inl (Or.inr ⟨rfl, rfl⟩))

theorem handleInProgress_careful (config : Config) (ev : LifecycleEvent) :
    Careful (handleInProgress config ev) := by
  refine careful_bind (careful_ask trivial) fun opened => ?_
  refine careful_bind (careful_of_plain (isStale_uses _ _ _)) fun stale => ?_
  split_ifs
  · exact fun _ => trivial
  refine careful_bind (careful_of_plain (eventTs_uses _ _)) fun openedAt => ?_
  intro knows
  refine Prog.wp_bind.mpr (Prog.wp_mono ?_ (wp_ensureIncident_there _ _ _ _ knows))
  intro outcome ensured there
  cases outcome with
  | error exn => trivial
  | ok done =>
    refine ⟨trivial, fun answer scheduled moved => ?_⟩
    cases moved
    cases answer with
    | error exn => trivial
    | ok done =>
      refine ⟨trivial, fun answer recorded moved => ?_⟩
      cases moved
      cases answer with
      | error exn => trivial
      | ok done =>
        refine wp_claimAndPost (Or.inr ⟨rfl, rfl, (there rfl).imp_left Or.inl⟩) ?_
        exact fun after claimed => wp_followup (gatherFindings_uses _ _ _ _ _) claimed

theorem handleResolved_careful (config : Config) (ev : LifecycleEvent) :
    Careful (handleResolved config ev) := by
  refine careful_bind (careful_of_plain (eventTs_uses _ _)) fun ts => ?_
  refine careful_bind (careful_ask trivial) fun opened => ?_
  split_ifs
  · exact fun _ => trivial
  refine careful_bind (careful_ask trivial) fun _ => ?_
  refine careful_bind (careful_ask trivial) fun _ => ?_
  intro knows
  exact wp_claimAndPost trivial fun after claimed =>
    wp_followup (gatherPostmortem_uses _ _ _) claimed

theorem handleLifecycle_careful (config : Config) (raw : RawLifecycle) :
    Careful (handleLifecycle config raw) := by
  unfold handleLifecycle
  cases LifecycleEvent.fromJson raw with
  | error exn => exact fun _ => trivial
  | ok ev =>
    show Careful (if ev.type = "opened" then _ else if ev.type = "in_progress" then _
      else if ev.type = "resolved" then _ else _)
    split_ifs
    · exact careful_of_plain (handleOpened_uses config ev)
    · exact handleInProgress_careful config ev
    · exact handleResolved_careful config ev
    · exact fun _ => trivial

/-! ### Draining -/

theorem drainBriefs_careful (config : Config) (due : List (String × String)) :
    Careful (drainBriefs config due) := by
  induction due with
  | nil => exact fun _ => trivial
  | cons item later ih =>
    obtain ⟨incidentId, service⟩ := item
    refine careful_bind (careful_ask trivial) fun won => ?_
    split_ifs
    · have posted : Careful (postBrief config incidentId service) :=
        careful_bind (careful_of_reads (Prog.uses_mono isRead_of_isWait (waitForIndex_uses _ _)))
          fun _ => careful_bind (careful_of_reads (gatherFindings_uses _ _ _ _ _))
            fun _ => careful_ask trivial
      intro knows
      refine Prog.wp_bind.mpr (Prog.wp_attempt.mpr (Prog.wp_mono ?_ (posted knows)))
      intro outcome after _
      cases outcome with
      | ok ts =>
        have recorded : Careful ((ask .lastChannelId).bind fun channelId =>
            (markBriefDelivered incidentId ts channelId).bind fun _ =>
              (drainBriefs config later).bind fun delivered => .ret (delivered + 1)) :=
          careful_bind (careful_ask trivial) fun channelId =>
            careful_bind (careful_ask trivial) fun _ => careful_bind ih fun _ => careful_ret _
        exact recorded after
      | error exn =>
        have released : ∀ rest : Unit → Auto Nat, (∀ done, Careful (rest done)) →
            Careful ((releaseIncident incidentId).bind rest) :=
          fun rest ends => careful_bind (careful_ask trivial) ends
        cases exn with
        | budgetExhausted message => exact released _ (fun _ => careful_ret 0) after
        | error message => exact released _ (fun _ => careful_raise (.error message)) after
    · exact ih

/-- **The in-progress update comes first.** -/
theorem wp_deliverPending_careful (config : Config) {incidentId : String} {knows : Knowledge}
    (listed : knows (.listed incidentId)) :
    (deliverPending config incidentId).wp followupProtocol (fun _ _ => True) knows := by
  refine Prog.wp_bind.mpr (Prog.wp_mono ?_ (@wp_deliverDeferred_passed .progress incidentId knows _
    (fun _ => gatherFindings_uses _ _ _ _ _) trivial))
  intro outcome after passed
  cases outcome with
  | error exn => trivial
  | ok progress =>
    refine Prog.wp_bind.mpr (Prog.wp_mono ?_ (@wp_deliverDeferred_passed .postmortem incidentId after _
      (fun _ => gatherPostmortem_uses _ _ _) (passed progress rfl rfl listed)))
    intro outcome last _
    cases outcome <;> trivial

theorem wp_drainFollowups_careful (config : Config) (pending : List String) {knows : Knowledge}
    (listed : ∀ incidentId ∈ pending, knows (.listed incidentId)) :
    (drainFollowups config pending).wp followupProtocol (fun _ _ => True) knows := by
  induction pending generalizing knows with
  | nil => trivial
  | cons incidentId later ih =>
    refine Prog.wp_bind.mpr (Prog.wp_attempt.mpr (Prog.wp_mono ?_
      (wp_remembers (wp_deliverPending_careful config (listed incidentId List.mem_cons_self)))))
    intro outcome after remembered
    cases outcome with
    | ok count =>
      refine Prog.wp_bind.mpr (Prog.wp_mono ?_ (ih fun other member =>
        remembered.2 _ (listed other (List.mem_cons_of_mem _ member))))
      intro outcome last _
      cases outcome <;> trivial
    | error exn => cases exn <;> trivial

theorem drainPendingFollowups_careful (config : Config) :
    Careful (drainPendingFollowups config) := by
  intro knows
  refine ⟨trivial, fun answer after moved => ?_⟩
  cases moved
  cases answer with
  | error exn => trivial
  | ok pending =>
    exact wp_drainFollowups_careful config pending fun incidentId member =>
      Or.inr ⟨pending, rfl, incidentId, member, rfl⟩

theorem drainDueBriefs_careful (config : Config) : Careful (drainDueBriefs config) := by
  refine careful_bind (careful_ask trivial) fun due => ?_
  refine careful_bind (drainBriefs_careful config due) fun delivered => ?_
  exact careful_bind (drainPendingFollowups_careful config) fun _ => careful_ret _

/-- **Every job follows the protocol.** -/
theorem program_careful (job : Job) : Careful job.program := by
  cases job with
  | handleLifecycle config raw => exact handleLifecycle_careful config raw
  | drainDueBriefs config => exact careful_bind (drainDueBriefs_careful config) fun _ => careful_ret _
  | drainPendingFollowups config =>
    exact careful_bind (drainPendingFollowups_careful config) fun _ => careful_ret _
  | handleAndDrain config raw =>
    refine careful_bind (careful_bind (handleLifecycle_careful config raw) fun _ => ?_)
      fun _ => careful_ret _
    exact drainDueBriefs_careful config
  | indexed incidentId service openedAt title =>
    exact careful_of_plain (ensureIncident_uses _ _ _ _)
  | markSeen seenTs incidentId => exact careful_ask trivial

end Freshet.Autopilot
