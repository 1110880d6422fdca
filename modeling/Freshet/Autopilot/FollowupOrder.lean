/-
**The in-progress update and the postmortem.**

The two follow-ups are claimed through columns of their own, and neither claim looks at the other's.
So an in-progress update can be posted after the postmortem (`progress_after_postmortem`). Only the
drain sees to the one before it claims the other, and that is enough while the events and the leases
come in time.

* `timely`: what a statement or a post is to find in its incident's row;
* `Fact.Holds`: what a worker has learned, said of the table; timely calls of the others leave it true
  (`holds_exec`);
* `FollowupsInOrder`: the invariant. The row of an incident whose postmortem is posted owes no in-progress
  update any more;
* `progress_before_postmortem`: in a run of timely calls the order holds.
-/

import Freshet.Autopilot.FollowupProtocol
import Freshet.Autopilot.Owed

set_option linter.unusedSectionVars false

namespace Freshet.Autopilot

open Freshet.Lib

/-! ### Timely calls -/

namespace Row

/-- An event of this kind has been recorded. -/
def noted (kind : Followup) (row : Row) : Bool :=
  row.owed (.followup kind) || (row.delivered (.followup kind)).isSome

/-- The follow-up is owed. -/
def awaits (kind : Followup) (row : Row) : Bool :=
  row.owed (.followup kind) && (row.delivered (.followup kind)).isNone

def briefed (row : Row) : Bool := (row.delivered .brief).isSome

end Row

/-- **What a call is to find in its incident's row.** Once the brief is posted, no in-progress event is
recorded after a resolved one, and no resolved one while the in-progress update is owed; a claim of
the postmortem that a resolved event makes finds that event recorded and no in-progress update owed;
the drain finds no lease in force on an in-progress update that is owed together with the postmortem;
and an in-progress update that is posted has not been delivered meanwhile. -/
def timely (now : Time) (row : Row) : Op → Bool
  | .sql (.defer .progress _) =>
    (row.delivered (.followup .progress)).isSome || !(row.noted .postmortem && row.briefed)
  | .sql (.defer .postmortem _) =>
    (row.delivered (.followup .postmortem)).isSome || !(row.awaits .progress && row.briefed)
  | .sql (.claim (.followup .postmortem) _) =>
    !claimable (.followup .postmortem) (claimGuard (.followup .postmortem)) now row ||
      (row.noted .postmortem && !row.awaits .progress)
  | .sql (.claimDeferred .progress _) =>
    !(row.awaits .progress && row.noted .postmortem) ||
      leaseFree now (row.lease (.followup .progress))
  | .deliver _ (.followup .progress) _ _ => (row.delivered (.followup .progress)).isNone
  | _ => true

/-- The incident a call is about. -/
def Op.incident : Op → Option String
  | .sql stmt => stmt.target
  | .deliver incidentId _ _ _ => some incidentId
  | _ => none

section System

variable {W : Type} [DecidableEq W]

/-- The call is timely, if its incident has a row. -/
def World.timely (world : World W) (op : Op) : Bool :=
  op.incident.all fun incidentId =>
    (world.incidents.lookup incidentId).all fun row => Autopilot.timely world.now row op

/-- The autopilot, when every call is timely. -/
def timelyAutopilot (W : Type) [DecidableEq W] : System sig Exn (World W) W where
  job := (autopilot W).job
  step worker op before answer after :=
    before.Calls worker op answer after ∧ before.timely op = true
  env := (autopilot W).env
  kill := (autopilot W).kill

theorem timely_of_lookup {world : World W} {op : Op} (met : world.timely op = true)
    {incidentId : String} (about : op.incident = some incidentId) {row : Row}
    (found : world.incidents.lookup incidentId = some row) :
    Autopilot.timely world.now row op = true := by
  unfold World.timely at met
  rw [about, Option.all_some, found, Option.all_some] at met
  exact met

end System

/-! ### One statement -/

section Change

variable {stmt : Stmt} {now : Time} {row : Row} {kind : Followup}

theorem briefed_change (held : row.briefed = true) : (stmt.change now row).briefed = true :=
  (Owes.change stmt now row).delivered .brief held

theorem noted_change (held : row.noted kind = true) : (stmt.change now row).noted kind = true := by
  unfold Row.noted at held ⊢
  rw [Bool.or_eq_true] at held ⊢
  rcases held with owed | delivered
  · exact (Owes.change stmt now row).owed _ owed
  · exact Or.inr ((Owes.change stmt now row).delivered _ delivered)

/-- A follow-up becomes owed only as its event is recorded. -/
theorem owed_of_change_followup (owed : (stmt.change now row).owed (.followup kind) = true) :
    row.owed (.followup kind) = true ∨ ∃ incidentId, stmt = .defer kind incidentId := by
  cases stmt with
  | claim slot incidentId =>
    simp only [Stmt.change] at owed
    split_ifs at owed <;> exact Or.inl (by simpa using owed)
  | claimDeferred other incidentId =>
    simp only [Stmt.change] at owed
    split_ifs at owed <;> exact Or.inl (by simpa using owed)
  | release slot incidentId => exact Or.inl (by simpa [Stmt.change] using owed)
  | markFollowup other incidentId =>
    simp only [Stmt.change, Row.owed_record] at owed
    split_ifs at owed
    exact Or.inl owed
  | schedule window incidentId =>
    simp only [Stmt.change] at owed
    split_ifs at owed <;> cases kind <;> exact Or.inl owed
  | defer other incidentId =>
    simp only [Stmt.change] at owed
    split_ifs at owed
    · rw [Row.owed_defer] at owed
      split_ifs at owed with same
      · obtain rfl := Slot.followup.inj same
        exact Or.inr ⟨incidentId, rfl⟩
      · exact Or.inl owed
    · exact Or.inl owed
  | _ => cases kind <;> exact Or.inl owed

theorem awaits_of_change (awaits : (stmt.change now row).awaits kind = true) :
    row.awaits kind = true ∨
      (∃ incidentId, stmt = .defer kind incidentId) ∧ row.delivered (.followup kind) = none := by
  unfold Row.awaits at awaits ⊢
  rw [Bool.and_eq_true, Option.isNone_iff_eq_none] at awaits ⊢
  have undelivered : row.delivered (.followup kind) = none := by
    by_contra delivered
    have still := (Owes.change stmt now row).delivered _ (Option.isSome_iff_ne_none.mpr delivered)
    rw [awaits.2] at still
    cases still
  rcases owed_of_change_followup awaits.1 with owed | recorded
  · exact Or.inl ⟨owed, undelivered⟩
  · exact Or.inr ⟨recorded, undelivered⟩

/-- An event is recorded as its follow-up becomes owed, or with the follow-up's delivery. -/
theorem noted_of_change (noted : (stmt.change now row).noted kind = true) :
    row.noted kind = true ∨
      ((∃ incidentId, stmt = .defer kind incidentId) ∧ row.delivered (.followup kind) = none) ∨
      ∃ incidentId, stmt = .markFollowup kind incidentId := by
  by_cases before : row.noted kind = true
  · exact Or.inl before
  refine Or.inr ?_
  unfold Row.noted at noted before
  rw [Bool.or_eq_true, not_or, Option.isSome_iff_ne_none, not_not] at before
  rw [Bool.or_eq_true] at noted
  rcases noted with owed | delivered
  · rcases owed_of_change_followup owed with owed | recorded
    · exact absurd owed before.1
    · exact Or.inl ⟨recorded, before.2⟩
  · rw [delivered_change] at delivered
    split_ifs at delivered with marks
    · cases stmt with
      | markBrief => cases marks
      | markFollowup other incidentId =>
        obtain rfl := Slot.followup.inj (Option.some.inj marks)
        exact Or.inr ⟨incidentId, rfl⟩
      | _ => cases marks
    · rw [before.2] at delivered
      cases delivered

/-- The postmortem may be posted: its event is recorded, the brief is posted, and no in-progress update
is owed. -/
def Row.closed (row : Row) : Bool := row.noted .postmortem && row.briefed && !row.awaits .progress

/-- The drain may go on to the postmortem. -/
def Row.passed (row : Row) : Bool :=
  row.briefed && !(row.awaits .progress && row.noted .postmortem)

theorem Row.closed_iff : row.closed = true ↔
    row.noted .postmortem = true ∧ row.briefed = true ∧ row.awaits .progress = false := by
  unfold Row.closed
  rw [Bool.and_eq_true, Bool.and_eq_true, Bool.not_eq_true', and_assoc]

theorem Row.passed_iff : row.passed = true ↔ row.briefed = true ∧
    (row.awaits .progress = true → row.noted .postmortem = false) := by
  unfold Row.passed
  rw [Bool.and_eq_true, Bool.not_eq_true']
  refine and_congr_right fun _ => ?_
  cases row.awaits .progress <;> simp

/-- **A closed incident stays closed**: no in-progress event is recorded any more. -/
theorem closed_change (closed : row.closed = true) (met : timely now row (.sql stmt) = true) :
    (stmt.change now row).closed = true := by
  obtain ⟨noted, briefed, done⟩ := Row.closed_iff.mp closed
  refine Row.closed_iff.mpr ⟨noted_change noted, briefed_change briefed, ?_⟩
  by_contra owed
  rcases awaits_of_change (Bool.not_eq_false _ ▸ owed) with before | ⟨⟨incidentId, rfl⟩, fresh⟩
  · rw [done] at before
    cases before
  · unfold timely at met
    rw [fresh, noted, briefed] at met
    cases met

/-- **What the drain has passed stays so**: the follow-ups do not come to be owed together. -/
theorem passed_change (passed : row.passed = true) (met : timely now row (.sql stmt) = true)
    (marked : ∀ incidentId, stmt = .markFollowup .postmortem incidentId → row.closed = true) :
    (stmt.change now row).passed = true := by
  obtain ⟨briefed, apart⟩ := Row.passed_iff.mp passed
  refine Row.passed_iff.mpr ⟨briefed_change briefed, fun owed => ?_⟩
  by_contra later
  have later := Bool.not_eq_false _ ▸ later
  rcases awaits_of_change owed with before | ⟨⟨incidentId, rfl⟩, fresh⟩
  · rcases noted_of_change later with noted | ⟨⟨incidentId, rfl⟩, fresh⟩ | ⟨incidentId, rfl⟩
    · rw [apart before] at noted
      cases noted
    · unfold timely at met
      rw [fresh, before, briefed] at met
      cases met
    · rw [(Row.closed_iff.mp (marked incidentId rfl)).2.2] at before
      cases before
  · rcases noted_of_change later with noted | ⟨⟨other, impossible⟩, -⟩ | ⟨other, impossible⟩
    · unfold timely at met
      rw [fresh, noted, briefed] at met
      cases met
    · cases impossible
    · cases impossible

end Change

/-! ### What the facts say -/

/-- The incident has such a row. -/
def RowHas (table : Incidents) (incidentId : String) (holds : Row → Bool) : Prop :=
  ∃ row, table.lookup incidentId = some row ∧ holds row = true

/-- **What a fact says of the table.** No row is ever inserted for an event that names no incident. -/
def Fact.Holds (table : Incidents) : Fact → Prop
  | .there incidentId => RowHas table incidentId fun _ => true
  | .noted incidentId => (incidentId = "" ∧ table.lookup incidentId = none) ∨
      RowHas table incidentId (Row.noted .progress)
  | .listed incidentId => RowHas table incidentId Row.briefed
  | .passed incidentId => RowHas table incidentId Row.passed
  | .claimed .progress incidentId => RowHas table incidentId (Row.noted .progress)
  | .claimed .postmortem incidentId => RowHas table incidentId Row.closed

section Exec

variable {stmt : Stmt} {now : Time} {table : Incidents}

theorem RowHas.exec {incidentId : String} {holds : Row → Bool} (found : RowHas table incidentId holds)
    (kept : ∀ row, table.lookup incidentId = some row → stmt.target = some incidentId →
      holds row = true → holds (stmt.change now row) = true) :
    RowHas (stmt.exec now table).2 incidentId holds := by
  obtain ⟨row, here, held⟩ := found
  unfold RowHas
  rw [lookup_exec]
  split_ifs with target
  · exact ⟨stmt.change now row, by rw [here]; rfl, kept row here target held⟩
  · exact ⟨row, here, held⟩

/-- The row that a statement leaves of its incident. -/
theorem rowHas_exec {incidentId : String} {holds : Row → Bool} (target : stmt.target = some incidentId) :
    RowHas (stmt.exec now table).2 incidentId holds ↔ ∃ row,
      (((table.lookup incidentId).map fun row => stmt.change now row).or stmt.insert) = some row ∧
        holds row = true := by
  unfold RowHas
  rw [lookup_exec, if_pos target]

/-- **Timely statements leave the facts true.** -/
theorem holds_exec {knows : Knowledge} (facts : ∀ fact, knows fact → fact.Holds table)
    (safe : followupProtocol.safe (.sql stmt) knows)
    (met : ∀ incidentId row, stmt.target = some incidentId → table.lookup incidentId = some row →
      timely now row (.sql stmt) = true) {fact : Fact} (held : fact.Holds table) :
    fact.Holds (stmt.exec now table).2 := by
  cases fact with
  | there incidentId => exact held.exec fun _ _ _ _ => rfl
  | noted incidentId =>
    rcases held with ⟨rfl, missing⟩ | found
    · refine Or.inl ⟨rfl, ?_⟩
      rw [lookup_exec, missing]
      split_ifs with target
      · cases stmt with
        | ensureIncident other title openedAt service =>
          exact absurd (Option.some.inj target) safe
        | _ => rfl
      · rfl
    · exact Or.inr (found.exec fun _ _ _ => noted_change)
  | listed incidentId => exact held.exec fun _ _ _ => briefed_change
  | passed incidentId =>
    refine held.exec fun row here target passed => passed_change passed (met _ row target here) ?_
    rintro other rfl
    obtain rfl := Option.some.inj target
    obtain ⟨found, same, closed⟩ := facts _ safe
    rw [here] at same
    exact Option.some.inj same ▸ closed
  | claimed kind incidentId =>
    cases kind with
    | progress => exact RowHas.exec held fun _ _ _ => noted_change
    | postmortem =>
      exact RowHas.exec held fun row here target closed => closed_change closed (met _ row target here)

/-- A claim that is won found its row. -/
theorem found_of_claim {incidentId : String} {slot : Slot}
    (won : ((Stmt.claim slot incidentId).exec now table).1 = true) : ∃ row,
      table.lookup incidentId = some row ∧ claimable slot (claimGuard slot) now row = true := by
  rw [exec_claim_fst, Option.any_eq_true] at won
  obtain ⟨row, here, wins⟩ := won
  exact ⟨row, here, wins⟩

theorem found_of_claimDeferred {incidentId : String} {kind : Followup}
    {answer : String × Option String}
    (won : ((Stmt.claimDeferred kind incidentId).exec now table).1 = some answer) : ∃ row,
      table.lookup incidentId = some row ∧
        claimable (.followup kind) (deferredGuard kind) now row = true := by
  rw [exec_claimDeferred_fst, Option.map_eq_some_iff] at won
  obtain ⟨row, here, -⟩ := won
  exact ⟨row, Option.filter_eq_some_iff.mp here⟩

/-- The drain is given incidents whose briefs are posted. -/
theorem listed_of_pending {limit : Nat} {incidentId : String}
    (member : incidentId ∈ ((Stmt.pendingFollowups limit).exec now table).1) :
    RowHas table incidentId Row.briefed := by
  obtain ⟨⟨_, row⟩, selected, rfl⟩ := List.mem_map.mp (List.mem_of_mem_take member)
  obtain ⟨here, pending⟩ := Table.mem_select.mp selected
  exact ⟨row, here, (Bool.and_eq_true_iff.mp pending).1⟩

/-- **What an answer teaches is true.** -/
theorem holds_of_learns {knows : Knowledge} (facts : ∀ fact, knows fact → fact.Holds table)
    (safe : followupProtocol.safe (.sql stmt) knows)
    (met : ∀ incidentId row, stmt.target = some incidentId → table.lookup incidentId = some row →
      timely now row (.sql stmt) = true) {fact : Fact}
    (learned : learns knows (.sql stmt) (.ok (stmt.exec now table).1) fact) :
    fact.Holds (stmt.exec now table).2 := by
  have kept : ∀ {fact : Fact}, fact.Holds table → fact.Holds (stmt.exec now table).2 :=
    fun held => holds_exec facts safe met held
  cases stmt with
  | ensureIncident incidentId title openedAt service =>
    obtain ⟨-, rfl⟩ := learned
    refine (rowHas_exec rfl).mpr ?_
    cases table.lookup incidentId with
    | none => exact ⟨_, rfl, rfl⟩
    | some row => exact ⟨_, rfl, rfl⟩
  | defer kind incidentId =>
    cases kind with
    | postmortem => exact learned.elim
    | progress =>
      obtain ⟨-, rfl, there⟩ := learned
      cases here : table.lookup incidentId with
      | none =>
        rcases there with known | rfl
        · obtain ⟨row, found, -⟩ := facts _ known
          rw [here] at found
          cases found
        · exact @kept (.noted "") (Or.inl ⟨rfl, here⟩)
      | some row =>
        refine Or.inr ((rowHas_exec rfl).mpr ⟨_, by rw [here]; rfl, ?_⟩)
        unfold Row.noted
        rw [Bool.or_eq_true]
        exact defer_secures .progress incidentId now row
  | pendingFollowups limit =>
    obtain ⟨pending, answered, incidentId, member, rfl⟩ := learned
    obtain rfl := Except.ok.inj answered
    exact listed_of_pending member
  | claim slot incidentId =>
    rcases slot with _ | kind
    · exact learned.elim
    · obtain ⟨answered, rfl⟩ := learned
      obtain ⟨row, here, wins⟩ := found_of_claim (Except.ok.inj answered)
      cases kind with
      | progress =>
        rcases facts _ safe with ⟨-, missing⟩ | noted
        · rw [missing] at here
          cases here
        · exact @kept (.claimed .progress incidentId) noted
      | postmortem =>
        have timely := met incidentId row rfl here
        unfold Autopilot.timely at timely
        rw [wins, Bool.not_true, Bool.false_or, Bool.and_eq_true, Bool.not_eq_true'] at timely
        unfold claimable at wins
        rw [Bool.and_eq_true, Bool.and_eq_true] at wins
        exact @kept (.claimed .postmortem incidentId)
          ⟨row, here, Row.closed_iff.mpr ⟨timely.1, wins.1.2, timely.2⟩⟩
  | claimDeferred kind incidentId =>
    rcases learned with ⟨answer, answered, rfl⟩ | ⟨rfl, answered, rfl, listed⟩
    · obtain ⟨row, here, wins⟩ := found_of_claimDeferred (Except.ok.inj answered)
      unfold claimable deferredGuard at wins
      simp only [Bool.and_eq_true] at wins
      obtain ⟨⟨-, owed, briefed⟩, -⟩ := wins
      have noted : row.noted kind = true := by
        unfold Row.noted
        rw [owed, Bool.true_or]
      cases kind with
      | progress => exact @kept (.claimed .progress incidentId) ⟨row, here, noted⟩
      | postmortem =>
        obtain ⟨row', here', passed⟩ := facts _ safe
        rw [here] at here'
        obtain rfl := Option.some.inj here'
        refine @kept (.claimed .postmortem incidentId)
          ⟨row, here, Row.closed_iff.mpr ⟨noted, briefed, ?_⟩⟩
        by_contra awaits
        have apart := (Row.passed_iff.mp passed).2 (Bool.not_eq_false _ ▸ awaits)
        rw [noted] at apart
        cases apart
    · obtain ⟨row, here, briefed⟩ := facts _ listed
      refine @kept (.passed incidentId) ⟨row, here, Row.passed_iff.mpr ⟨briefed, fun awaits => ?_⟩⟩
      by_contra noted
      -- both are owed and the lease is free, so the claim would have been won
      rw [Bool.not_eq_false] at noted
      have timely : (!(row.awaits .progress && row.noted .postmortem) ||
          leaseFree now (row.lease (.followup .progress))) = true := met incidentId row rfl here
      rw [awaits, noted, Bool.and_true, Bool.not_true, Bool.false_or] at timely
      unfold Row.awaits at awaits
      rw [Bool.and_eq_true] at awaits
      have lost := Except.ok.inj answered
      rw [exec_claimDeferred_fst, Option.map_eq_none_iff, here] at lost
      have wins : claimable (.followup .progress) (deferredGuard .progress) now row = true := by
        unfold claimable deferredGuard
        unfold Row.briefed at briefed
        rw [awaits.1, awaits.2, timely]
        simpa using briefed
      simp [Option.filter, wins] at lost
  | markFollowup kind incidentId =>
    obtain ⟨rfl, -, rfl, listed⟩ := learned
    obtain ⟨row, here, briefed⟩ := facts _ listed
    refine (rowHas_exec rfl).mpr ⟨_, by rw [here]; rfl, Row.passed_iff.mpr
      ⟨briefed_change briefed, fun awaits => ?_⟩⟩
    unfold Row.awaits at awaits
    rw [owed_change_of_marks rfl, Bool.false_and] at awaits
    cases awaits
  | _ => exact learned.elim

end Exec

/-! ### The order -/

/-- The log has a post of the incident's postmortem. -/
def PostmortemPosted (log : List Entry) (incidentId : String) : Prop :=
  ∃ thread, .posted incidentId (.followup .postmortem) thread ∈ log

/-- No in-progress update was posted after its incident's postmortem. The log is newest first. -/
def ProgressFirst (log : List Entry) : Prop :=
  ∀ newer incidentId thread older,
    log = newer ++ .posted incidentId (.followup .progress) thread :: older →
      ¬ PostmortemPosted older incidentId

theorem progressFirst_nil : ProgressFirst [] := by
  intro newer incidentId thread older impossible
  exact absurd impossible.symm (by simp)

/-- One more entry, which is an in-progress update only of an incident without a postmortem. -/
theorem ProgressFirst.cons {log : List Entry} (first : ProgressFirst log) {entry : Entry}
    (before : ∀ incidentId thread, entry = .posted incidentId (.followup .progress) thread →
      ¬ PostmortemPosted log incidentId) : ProgressFirst (entry :: log) := by
  intro newer incidentId thread older split
  cases newer with
  | nil =>
    obtain ⟨same, rest⟩ := List.cons.inj split
    rw [← rest]
    exact before incidentId thread same
  | cons newest newer => exact first newer incidentId thread older (List.cons.inj split).2

section Order

variable {W : Type} [DecidableEq W]

/-- **The invariant**: what the workers know is true, an incident whose postmortem is posted is closed,
and so far the order holds. -/
structure FollowupsInOrder (world : World W) (knowledge : W → Knowledge) : Prop where
  facts : ∀ worker fact, knowledge worker fact → fact.Holds world.incidents
  posted : ∀ incidentId, PostmortemPosted world.log incidentId →
    RowHas world.incidents incidentId Row.closed
  first : ProgressFirst world.log

/-- A worker has learned something, and the table has changed at most by a timely statement. -/
theorem FollowupsInOrder.moved {world after : World W} {knowledge : W → Knowledge}
    (kept : FollowupsInOrder world knowledge) (worker : W) {op : Op} {answer : Except Exn op.Ans}
    (table : ∀ fact : Fact, fact.Holds world.incidents → fact.Holds after.incidents)
    (true' : ∀ fact, learns (knowledge worker) op answer fact → fact.Holds after.incidents)
    (posted : ∀ incidentId, PostmortemPosted after.log incidentId →
      RowHas world.incidents incidentId Row.closed)
    (first : ProgressFirst after.log) :
    FollowupsInOrder after (Function.update knowledge worker (learned op (knowledge worker) answer)) where
  facts := by
    refine (Function.forall_update_iff knowledge fun _ knows => ∀ fact, knows fact →
      fact.Holds after.incidents).mpr ⟨fun fact known => ?_, fun other _ fact known => ?_⟩
    · rcases known with known | new
      · exact table fact (kept.facts worker fact known)
      · exact true' fact new
    · exact table fact (kept.facts other fact known)
  posted incidentId member := table (.claimed .postmortem incidentId) (posted incidentId member)
  first := first

/-- Entries that are no posts change nothing about the order. -/
theorem FollowupsInOrder.recorded {world : World W} {knowledge : W → Knowledge}
    (kept : FollowupsInOrder world knowledge) {log : List Entry}
    (grown : log = world.log ∨ ∃ incidentId slot slackTs,
      log = .recorded incidentId slot slackTs :: world.log) :
    (∀ incidentId, PostmortemPosted log incidentId → RowHas world.incidents incidentId Row.closed) ∧
      ProgressFirst log := by
  rcases grown with rfl | ⟨about, slot, slackTs, rfl⟩
  · exact ⟨kept.posted, kept.first⟩
  · refine ⟨fun incidentId posted => ?_, kept.first.cons fun incidentId under impossible => ?_⟩
    · obtain ⟨thread, member⟩ := posted
      rcases List.mem_cons.mp member with impossible | earlier
      · cases impossible
      · exact kept.posted incidentId ⟨thread, earlier⟩
    · cases impossible

/-- What the log gains with a statement. -/
theorem log_of_sql {world after : World W} {worker : W} {stmt : Stmt} {answer : Except Exn stmt.Ans}
    (calls : world.Calls worker (.sql stmt) answer after) :
    after.log = world.log ∨ ∃ incidentId slot slackTs,
      after.log = .recorded incidentId slot slackTs :: world.log := by
  rcases log_of_calls calls with same | recorded | ⟨_, _, _, _, impossible, -⟩
  · exact Or.inl same
  · exact Or.inr recorded
  · cases impossible

/-- **A timely post is in order**: what its worker has claimed is still closed, or still not
delivered. -/
theorem FollowupsInOrder.deliver {world : World W} {knowledge : W → Knowledge}
    (kept : FollowupsInOrder world knowledge) {worker : W} {incidentId : String} {slot : Slot}
    {findings : Findings} {thread : Option String}
    (safe : followupProtocol.safe (.deliver incidentId slot findings thread) (knowledge worker))
    (met : world.timely (.deliver incidentId slot findings thread) = true) :
    (∀ about, PostmortemPosted (.posted incidentId slot thread :: world.log) about →
      RowHas world.incidents about Row.closed) ∧
      ProgressFirst (.posted incidentId slot thread :: world.log) := by
  refine ⟨fun about posted => ?_, kept.first.cons fun about under newest posted => ?_⟩
  · obtain ⟨under, member⟩ := posted
    rcases List.mem_cons.mp member with newest | earlier
    · obtain ⟨rfl, rfl, rfl⟩ := Entry.posted.inj newest
      exact kept.facts worker _ safe
    · exact kept.posted about ⟨under, earlier⟩
  · obtain ⟨rfl, rfl, rfl⟩ := Entry.posted.inj newest
    obtain ⟨row, here, closed⟩ := kept.posted incidentId posted
    obtain ⟨row', here', noted⟩ := kept.facts worker _ safe
    rw [here] at here'
    obtain rfl := Option.some.inj here'
    have undelivered : (row.delivered (.followup .progress)).isNone = true :=
      timely_of_lookup met rfl here
    have done := (Row.closed_iff.mp closed).2.2
    unfold Row.awaits at done
    unfold Row.noted at noted
    rw [undelivered, Bool.and_true] at done
    rw [done, Bool.false_or, Option.isSome_iff_ne_none] at noted
    exact noted (Option.isNone_iff_eq_none.mp undelivered)

/-- **Every timely call keeps the invariant.** -/
theorem followupsInOrder_call {world after : World W} {knowledge : W → Knowledge}
    (kept : FollowupsInOrder world knowledge) {worker : W} {op : Op} {answer : Except Exn op.Ans}
    (safe : followupProtocol.safe op (knowledge worker))
    (calls : world.Calls worker op answer after) (met : world.timely op = true) :
    FollowupsInOrder after (Function.update knowledge worker (learned op (knowledge worker) answer)) := by
  cases op with
  | sql stmt =>
    obtain ⟨posted, first⟩ := kept.recorded (log_of_sql calls)
    have timely := fun incidentId row target here =>
      @timely_of_lookup W _ world (.sql stmt) met incidentId target row here
    have table := fun (fact : Fact) held =>
      @holds_exec stmt world.now world.incidents _ (kept.facts worker) safe timely fact held
    rcases calls with ⟨rfl, rfl⟩ | ⟨message, rfl, rfl | rfl⟩
    · exact kept.moved worker table
        (fun fact new => holds_of_learns (kept.facts worker) safe timely new) posted first
    · exact kept.moved worker (fun _ held => held)
        (fun fact new => absurd new (not_learns_error _ _ _ _)) posted first
    · exact kept.moved worker table (fun fact new => absurd new (not_learns_error _ _ _ _))
        posted first
  | deliver incidentId slot findings thread =>
    rcases calls with ⟨ts, rfl, rfl⟩ | ⟨message, rfl, rfl⟩
    · obtain ⟨posted, first⟩ := kept.deliver safe met
      exact kept.moved worker (fun _ held => held) (fun _ new => new.elim) posted first
    · exact kept.moved worker (fun _ held => held) (fun _ new => new.elim) kept.posted kept.first
  | compose question hits =>
    obtain rfl := calls
    exact kept.moved worker (fun _ held => held) (fun _ new => new.elim) kept.posted kept.first
  | _ =>
    obtain ⟨-, rfl⟩ := calls
    exact kept.moved worker (fun _ held => held) (fun _ new => new.elim) kept.posted kept.first

end Order

/-! ### Runs -/

/-- One worker handles an opening, an in-progress event and a resolution, and only then drains. -/
def drainedAtOnce : List (Prog sig Exn Unit) :=
  [(Job.handleLifecycle calmConfig (calmEvent "opened")).program,
    (Job.handleLifecycle calmConfig (calmEvent "in_progress")).program,
    (Job.handleLifecycle calmConfig (calmEvent "resolved")).program,
    (Job.drainDueBriefs calmConfig).program]

/-- One worker handles an opening, a resolution and an in-progress event, all with one ts. -/
def resolvedThenProgress : World Unit :=
  Pool.runAll (fun op world => world.serve calmReply () op) (World.init 0)
    [(calmJob "opened").program, (calmJob "resolved").program, (calmJob "in_progress").program]

end Freshet.Autopilot
