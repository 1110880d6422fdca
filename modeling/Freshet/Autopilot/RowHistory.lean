/-
**The history of an incident is written once.**

A row of `incidents` says what happened: when the incident opened and was resolved, what it is called,
what was delivered and under which thread. Several statements write these columns, and none of them
checks all that was there. `Grows` says what becomes of a row whatever is done (`grows_change`). A
delivery that is recorded again gets another stamp, and the brief another thread; where none is, the row
`Ages` (`ages_change`). A worker that records a slot has claimed it, and while its lease runs the slot is
undelivered (`Related.held`), so in a run whose claims are closed within their leases every row only ages
(`history_kept`).
-/

import Freshet.Autopilot.AtMostOnce
import Freshet.Autopilot.Owed

set_option linter.unusedSectionVars false

namespace Freshet.Autopilot

open Freshet.Lib

/-- **What becomes of a row**, whatever is done. -/
structure Grows (row later : Row) : Prop where
  openedAt : later.openedAt = row.openedAt
  resolvedAt : ∀ t, row.resolvedAt = some t → later.resolvedAt = some t
  title : row.title ≠ "" → later.title = row.title
  primaryService : ∀ service, row.primaryService = some service →
    later.primaryService = some service
  delivered : ∀ slot, (row.delivered slot).isSome → (later.delivered slot).isSome

theorem Grows.refl (row : Row) : Grows row row :=
  ⟨rfl, fun _ => id, fun _ => rfl, fun _ => id, fun _ => id⟩

theorem Grows.trans {first second third : Row} (one : Grows first second)
    (two : Grows second third) : Grows first third where
  openedAt := two.openedAt.trans one.openedAt
  resolvedAt t here := two.resolvedAt t (one.resolvedAt t here)
  title named := by
    rw [two.title (by rw [one.title named]; exact named), one.title named]
  primaryService service here := two.primaryService service (one.primaryService service here)
  delivered slot here := two.delivered slot (one.delivered slot here)

/-- **What becomes of a row** in which no delivery is recorded twice. -/
structure Ages (row later : Row) : Prop where
  openedAt : later.openedAt = row.openedAt
  resolvedAt : ∀ t, row.resolvedAt = some t → later.resolvedAt = some t
  title : row.title ≠ "" → later.title = row.title
  primaryService : ∀ service, row.primaryService = some service →
    later.primaryService = some service
  delivered : ∀ slot t, row.delivered slot = some t → later.delivered slot = some t
  thread : (row.delivered .brief).isSome → later.slackTs = row.slackTs ∧
    later.slackChannelId = row.slackChannelId

theorem Ages.refl (row : Row) : Ages row row :=
  ⟨rfl, fun _ => id, fun _ => rfl, fun _ => id, fun _ _ => id, fun _ => ⟨rfl, rfl⟩⟩

theorem Ages.trans {first second third : Row} (one : Ages first second) (two : Ages second third) :
    Ages first third where
  openedAt := two.openedAt.trans one.openedAt
  resolvedAt t here := two.resolvedAt t (one.resolvedAt t here)
  title named := by
    rw [two.title (by rw [one.title named]; exact named), one.title named]
  primaryService service here := two.primaryService service (one.primaryService service here)
  delivered slot t here := two.delivered slot t (one.delivered slot t here)
  thread recorded := by
    obtain ⟨t, here⟩ := Option.isSome_iff_exists.mp recorded
    obtain ⟨slackTs, channel⟩ := two.thread (by rw [one.delivered .brief t here]; rfl)
    exact ⟨slackTs.trans (one.thread recorded).1, channel.trans (one.thread recorded).2⟩

theorem Ages.grows {row later : Row} (ages : Ages row later) : Grows row later where
  openedAt := ages.openedAt
  resolvedAt := ages.resolvedAt
  title := ages.title
  primaryService := ages.primaryService
  delivered slot here := by
    obtain ⟨t, here⟩ := Option.isSome_iff_exists.mp here
    rw [ages.delivered slot t here]
    rfl

namespace Row

variable (row : Row) (slot : Slot) (value : Option Time) (now : Time) (kind : Followup)

/-- The columns that no slot update writes. -/
structure SameStory (row later : Row) : Prop where
  openedAt : later.openedAt = row.openedAt
  resolvedAt : later.resolvedAt = row.resolvedAt
  title : later.title = row.title
  primaryService : later.primaryService = row.primaryService
  slackTs : later.slackTs = row.slackTs
  slackChannelId : later.slackChannelId = row.slackChannelId

theorem sameStory_setLease : SameStory row (row.setLease slot value) := by
  rcases slot with _ | ⟨_ | _⟩ <;> exact ⟨rfl, rfl, rfl, rfl, rfl, rfl⟩

theorem sameStory_record : SameStory row (row.record slot now) := by
  rcases slot with _ | ⟨_ | _⟩ <;> exact ⟨rfl, rfl, rfl, rfl, rfl, rfl⟩

theorem sameStory_defer : SameStory row (row.defer kind) := by
  cases kind <;> exact ⟨rfl, rfl, rfl, rfl, rfl, rfl⟩

/-- Such an update ages a row if what was delivered stays. -/
theorem SameStory.ages {row later : Row} (same : SameStory row later)
    (delivered : ∀ slot t, row.delivered slot = some t → later.delivered slot = some t) :
    Ages row later where
  openedAt := same.openedAt
  resolvedAt _ here := same.resolvedAt.trans here
  title _ := same.title
  primaryService _ here := same.primaryService.trans here
  delivered := delivered
  thread _ := ⟨same.slackTs, same.slackChannelId⟩

end Row

/-- **A statement ages its row**, unless it records a slot again. -/
theorem ages_change (stmt : Stmt) (now : Time) (row : Row)
    (once : ∀ slot, stmt.marks = some slot → row.delivered slot = none) :
    Ages row (stmt.change now row) := by
  have delivered : ∀ slot t, row.delivered slot = some t →
      (stmt.change now row).delivered slot = some t := by
    intro slot t here
    rw [delivered_change, if_neg]
    · exact here
    · intro marks
      rw [once slot marks] at here
      cases here
  cases stmt with
  | claim slot incidentId =>
    simp only [Stmt.change] at delivered ⊢
    split_ifs at delivered ⊢
    · exact (row.sameStory_setLease slot _).ages delivered
    · exact .refl row
  | claimDeferred kind incidentId =>
    simp only [Stmt.change] at delivered ⊢
    split_ifs at delivered ⊢
    · exact (row.sameStory_setLease _ _).ages delivered
    · exact .refl row
  | release slot incidentId => exact (row.sameStory_setLease slot none).ages delivered
  | markBrief slackTs channelId incidentId =>
    have unrecorded : row.delivered .brief = none := once .brief rfl
    refine ⟨rfl, fun _ => id, fun _ => rfl, fun _ => id, delivered, fun recorded => ?_⟩
    rw [unrecorded] at recorded
    cases recorded
  | markFollowup kind incidentId => exact (row.sameStory_record _ now).ages delivered
  | schedule window incidentId =>
    simp only [Stmt.change] at delivered ⊢
    split_ifs at delivered ⊢
    · exact ⟨rfl, fun _ => id, fun _ => rfl, fun _ => id, delivered, fun _ => ⟨rfl, rfl⟩⟩
    · exact .refl row
  | defer kind incidentId =>
    simp only [Stmt.change] at delivered ⊢
    split_ifs at delivered ⊢
    · exact (row.sameStory_defer kind).ages delivered
    · exact .refl row
  | markResolved resolvedAt incidentId =>
    refine ⟨rfl, fun t here => ?_, fun _ => rfl, fun _ => id, delivered, fun _ => ⟨rfl, rfl⟩⟩
    show row.resolvedAt.or (some resolvedAt) = some t
    rw [here, Option.some_or]
  | ensureIncident incidentId title openedAt service =>
    refine ⟨rfl, fun _ => id, fun named => if_neg named, fun service' here => ?_, delivered,
      fun _ => ⟨rfl, rfl⟩⟩
    show row.primaryService.or (some service) = some service'
    rw [here, Option.some_or]
  | markSeen seenTs incidentId =>
    exact ⟨rfl, fun _ => id, fun _ => rfl, fun _ => id, delivered, fun _ => ⟨rfl, rfl⟩⟩
  | _ => exact .refl row

/-- **Whatever a statement does, its row grows.** -/
theorem grows_change (stmt : Stmt) (now : Time) (row : Row) : Grows row (stmt.change now row) := by
  by_cases once : ∀ slot, stmt.marks = some slot → row.delivered slot = none
  · exact (ages_change stmt now row once).grows
  -- a delivery is recorded again
  have delivered : ∀ slot, (row.delivered slot).isSome →
      ((stmt.change now row).delivered slot).isSome := by
    intro slot here
    rw [delivered_change]
    split_ifs
    · rfl
    · exact here
  cases stmt with
  | markBrief slackTs channelId incidentId =>
    exact ⟨rfl, fun _ => id, fun _ => rfl, fun _ => id, delivered⟩
  | markFollowup kind incidentId =>
    have same : Row.SameStory row (Stmt.change now row (.markFollowup kind incidentId)) :=
      row.sameStory_record _ now
    exact ⟨same.openedAt, fun _ here => same.resolvedAt.trans here, fun _ => same.title,
      fun _ here => same.primaryService.trans here, delivered⟩
  | _ => exact absurd (fun slot marks => nomatch marks) once

/-! ### Runs -/

section Runs

variable {W : Type} [DecidableEq W] {becomes : Row → Row → Prop}

/-- Every row is still there, and this has become of it. -/
def EachRow (becomes : Row → Row → Prop) (before after : Incidents) : Prop :=
  ∀ incidentId row, before.lookup incidentId = some row →
    ∃ later, after.lookup incidentId = some later ∧ becomes row later

theorem EachRow.refl (same : ∀ row, becomes row row) (table : Incidents) :
    EachRow becomes table table :=
  fun _ row found => ⟨row, found, same row⟩

theorem EachRow.trans (chain : ∀ {one two three}, becomes one two → becomes two three → becomes one three)
    {first second third : Incidents} (one : EachRow becomes first second)
    (two : EachRow becomes second third) : EachRow becomes first third := by
  intro incidentId row found
  obtain ⟨later, found', between⟩ := one incidentId row found
  obtain ⟨last, found'', after⟩ := two incidentId later found'
  exact ⟨last, found'', chain between after⟩

theorem eachRow_exec (same : ∀ row, becomes row row) {stmt : Stmt} {now : Time} {table : Incidents}
    (change : ∀ incidentId row, stmt.target = some incidentId →
      table.lookup incidentId = some row → becomes row (stmt.change now row)) :
    EachRow becomes table (stmt.exec now table).2 := by
  intro incidentId row found
  rw [lookup_exec, found]
  split_ifs with target
  · exact ⟨_, rfl, change incidentId row target found⟩
  · exact ⟨row, rfl, same row⟩

/-- In every run every row grows. -/
theorem grows_of_reaches {first last : Pool sig Exn (World W) W}
    (run : Pool.Reaches (autopilot W) first last) :
    EachRow Grows first.shared.incidents last.shared.incidents := by
  refine @Pool.shared_relation _ _ _ _ _ _ (fun world after : World W =>
    EachRow Grows world.incidents after.incidents) _ _ run (fun world => .refl .refl _)
    (.trans .trans) ?_ ?_
  · intro worker op world answer after calls
    rcases incidents_of_calls calls with same | ⟨stmt, -, eq⟩
    · rw [same]
      exact .refl .refl _
    · rw [eq]
      exact eachRow_exec .refl fun _ row _ _ => grows_change stmt _ row
  · rintro world _ ⟨now, -, rfl⟩
    exact .refl .refl _

/-- What a phase lets be recorded is undelivered. -/
theorem undelivered_of_permits {world : World W} {phases : W → Phase}
    (related : Related world phases) {worker : W} {stmt : Stmt}
    (permitted : (phases worker).permits (.sql stmt)) {slot : Slot} {incidentId : String} {row : Row}
    (marks : stmt.marks = some slot) (target : stmt.target = some incidentId)
    (found : world.incidents.lookup incidentId = some row) : row.delivered slot = none := by
  have posted : phases worker = .posted incidentId slot := by
    cases stmt with
    | markBrief slackTs channelId about =>
      obtain rfl := Option.some.inj marks
      obtain rfl := Option.some.inj target
      exact Phase.posted_of_permits_markBrief permitted
    | markFollowup kind about =>
      obtain rfl := Option.some.inj marks
      obtain rfl := Option.some.inj target
      exact Phase.posted_of_permits_markFollowup permitted
    | _ => cases marks
  obtain ⟨taken, row', -, -, found', -, undelivered, -⟩ :=
    related.held worker incidentId slot (by rw [posted]; rfl)
  rw [found] at found'
  obtain rfl := Option.some.inj found'
  exact undelivered

/-- One step of the workers ages the table. -/
theorem ages_step {start : Time} {before after : Pool sig Exn (World W) W}
    (run : Pool.Reaches (promptly W) (Pool.idle (World.init start)) before)
    (one : Pool.Step (promptly W) before after) :
    EachRow Ages before.shared.incidents after.shared.incidents := by
  obtain ⟨phases, ⟨related, -⟩, following⟩ := related_of_reaches run
  cases one with
  | @call worker op next answer after running step =>
    have here := following worker
    rw [running] at here
    rcases incidents_of_calls step.1 with same | ⟨stmt, rfl, eq⟩
    · show EachRow Ages before.shared.incidents after.incidents
      rw [same]
      exact .refl .refl _
    · show EachRow Ages before.shared.incidents after.incidents
      rw [eq]
      exact eachRow_exec .refl fun incidentId row target found =>
        ages_change stmt _ row fun slot marks =>
          undelivered_of_permits related here.1 marks target found
  | start worker finished taken => exact .refl .refl _
  | kill worker killed => exact .refl .refl _
  | env moved =>
    obtain ⟨now, -, rfl, -⟩ := moved
    exact .refl .refl _

/-- **What a row of `incidents` says happened is never unsaid**: from any pool that the workers reach
to any later one, whatever the events and however the workers interleave, every row grows, and it ages
where each claim is closed within its lease. -/
theorem history_kept :
    (∀ {first last : Pool sig Exn (World W) W}, Pool.Reaches (autopilot W) first last →
      EachRow Grows first.shared.incidents last.shared.incidents) ∧
    ∀ {start : Time} {first last : Pool sig Exn (World W) W},
      Pool.Reaches (promptly W) (Pool.idle (World.init start)) first →
      Pool.Reaches (promptly W) first last →
        EachRow Ages first.shared.incidents last.shared.incidents := by
  refine ⟨grows_of_reaches, fun run later => ?_⟩
  induction later with
  | refl => exact .refl .refl _
  | tail between one ih => exact ih.trans .trans (ages_step (run.trans between) one)

end Runs

/-- One worker handles the opening, and drains. -/
def onlyOpened : World Unit :=
  Pool.runAll (fun op world => world.serve calmReply () op) (World.init 0)
    [(calmJob "opened").program]

/-- Then it handles the resolution. -/
def thenResolved : World Unit :=
  Pool.runAll (fun op world => world.serve calmReply () op) onlyOpened
    [(calmJob "resolved").program]

/-- The brief that was recorded before the resolution is recorded after it. -/
theorem history_kept_thenResolved :
    ∃ row, onlyOpened.incidents.lookup "inc" = some row ∧ row.briefDeliveredAt = some 0 ∧
      ∃ after, thenResolved.incidents.lookup "inc" = some after ∧ Ages row after := by
  obtain ⟨prog, reaches, free⟩ := @Pool.reaches_runAll _ _ _ _ _ (promptly Unit) ()
    (fun op world => world.serve calmReply () op) (promptly_serve calmReply ())
    [(calmJob "opened").program] (fun _ member => ⟨_, List.mem_singleton.mp member⟩)
    (Pool.idle (World.init 0)) trivial
  obtain ⟨prog', reaches', -⟩ := @Pool.reaches_runAll _ _ _ _ _ (promptly Unit) ()
    (fun op world => world.serve calmReply () op) (promptly_serve calmReply ())
    [(calmJob "resolved").program] (fun _ member => ⟨_, List.mem_singleton.mp member⟩)
    ⟨onlyOpened, prog⟩ free
  obtain ⟨row, found, recorded⟩ : ∃ row, onlyOpened.incidents.lookup "inc" = some row ∧
      row.briefDeliveredAt = some 0 := ⟨_, rfl, rfl⟩
  exact ⟨row, found, recorded, history_kept.2 reaches reaches' "inc" row found⟩

end Freshet.Autopilot
