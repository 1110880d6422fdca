/-
**What one statement does to one row.**

Every statement writes at most one incident, and to it a pure change of its row (`Stmt.change`);
only `ENSURE_INCIDENT_SQL` creates one. `lookup_exec` says so once for all statements; what the
columns of the three slots do under a change is read off `Stmt.change` below, and the table and the
SQL are not looked at again.
-/

import Freshet.Autopilot.Effects

namespace Freshet.Autopilot

open Freshet.Lib

/-! ### Columns under the slot updates -/

namespace Row

variable (row : Row) (slot other : Slot) (value : Option Time) (now : Time) (kind : Followup)

@[simp] theorem lease_setLease :
    (row.setLease slot value).lease other = if other = slot then value else row.lease other := by
  rcases slot with _ | ⟨_ | _⟩ <;> rcases other with _ | ⟨_ | _⟩ <;> rfl

@[simp] theorem delivered_setLease :
    (row.setLease slot value).delivered other = row.delivered other := by
  rcases slot with _ | ⟨_ | _⟩ <;> rcases other with _ | ⟨_ | _⟩ <;> rfl

@[simp] theorem owed_setLease : (row.setLease slot value).owed other = row.owed other := by
  rcases slot with _ | ⟨_ | _⟩ <;> rcases other with _ | ⟨_ | _⟩ <;> rfl

@[simp] theorem slackTs_setLease : (row.setLease slot value).slackTs = row.slackTs := by
  rcases slot with _ | ⟨_ | _⟩ <;> rfl

@[simp] theorem lease_record : (row.record slot now).lease other = row.lease other := by
  rcases slot with _ | ⟨_ | _⟩ <;> rcases other with _ | ⟨_ | _⟩ <;> rfl

@[simp] theorem delivered_record : (row.record slot now).delivered other =
    if other = slot then some now else row.delivered other := by
  rcases slot with _ | ⟨_ | _⟩ <;> rcases other with _ | ⟨_ | _⟩ <;> rfl

@[simp] theorem owed_record : (row.record slot now).owed other =
    if other = slot then false else row.owed other := by
  rcases slot with _ | ⟨_ | _⟩ <;> rcases other with _ | ⟨_ | _⟩ <;> rfl

@[simp] theorem slackTs_record : (row.record slot now).slackTs = row.slackTs := by
  rcases slot with _ | ⟨_ | _⟩ <;> rfl

@[simp] theorem lease_defer : (row.defer kind).lease other = row.lease other := by
  rcases kind with _ | _ <;> rcases other with _ | ⟨_ | _⟩ <;> rfl

@[simp] theorem delivered_defer : (row.defer kind).delivered other = row.delivered other := by
  rcases kind with _ | _ <;> rcases other with _ | ⟨_ | _⟩ <;> rfl

@[simp] theorem owed_defer : (row.defer kind).owed other =
    if other = .followup kind then true else row.owed other := by
  rcases kind with _ | _ <;> rcases other with _ | ⟨_ | _⟩ <;> rfl

@[simp] theorem slackTs_defer : (row.defer kind).slackTs = row.slackTs := by
  rcases kind with _ | _ <;> rfl

end Row

/-! ### The change a statement makes -/

/-- The extra condition of each slot's own claim: a follow-up needs the brief delivered. -/
def claimGuard : Slot → Row → Bool
  | .brief, _ => true
  | .followup _, row => (row.delivered .brief).isSome

/-- The extra condition of the drain's claims: also owed. -/
def deferredGuard (kind : Followup) (row : Row) : Bool :=
  row.owed (.followup kind) && (row.delivered .brief).isSome

theorem claimOf_eq (slot : Slot) : claimOf slot = takeLease slot (claimGuard slot) := by
  rcases slot with _ | ⟨_ | _⟩ <;> rfl

theorem claimDeferredOf_eq (kind : Followup) :
    claimDeferredOf kind = takeLease (.followup kind) (deferredGuard kind) := by
  cases kind <;> rfl

theorem releaseOf_eq (slot : Slot) : releaseOf slot = clearLease slot := by
  rcases slot with _ | ⟨_ | _⟩ <;> rfl

theorem markFollowupOf_eq (kind : Followup) : markFollowupOf kind = markFollowup kind := by
  cases kind <;> rfl

theorem deferOf_eq (kind : Followup) : deferOf kind = setNeeded kind := by
  cases kind <;> rfl

/-- A claim of a slot wins on this row. -/
def claimable (slot : Slot) (guard : Row → Bool) (now : Time) (row : Row) : Bool :=
  (row.delivered slot).isNone && guard row && leaseFree now (row.lease slot)

/-- The incident a statement writes. -/
def Stmt.target : Stmt → Option String
  | claim _ incidentId | claimDeferred _ incidentId | release _ incidentId
  | markBrief _ _ incidentId | markFollowup _ incidentId | schedule _ incidentId
  | defer _ incidentId | markResolved _ incidentId | ensureIncident incidentId _ _ _
  | markSeen _ incidentId => some incidentId
  | _ => none

/-- The change a statement makes to the row it writes. -/
def Stmt.change (now : Time) (row : Row) : Stmt → Row
  | claim slot _ =>
    if claimable slot (claimGuard slot) now row then row.setLease slot (some now) else row
  | claimDeferred kind _ =>
    if claimable (.followup kind) (deferredGuard kind) now row then
      row.setLease (.followup kind) (some now)
    else row
  | release slot _ => row.setLease slot none
  | markBrief slackTs channelId _ =>
    { row.record .brief now with
      slackTs := slackTs.or row.slackTs
      slackChannelId := channelId.or row.slackChannelId }
  | markFollowup kind _ => row.record (.followup kind) now
  | schedule window _ =>
    if row.briefDeliveredAt.isNone && row.briefDueAt.isNone then
      { row with briefDueAt := some (now + window) }
    else row
  | defer kind _ => if (row.delivered (.followup kind)).isNone then row.defer kind else row
  | markResolved resolvedAt _ => { row with resolvedAt := row.resolvedAt.or (some resolvedAt) }
  | ensureIncident _ title _ service =>
    { row with
      title := if row.title = "" then title else row.title
      primaryService := row.primaryService.or (some service) }
  | markSeen seenTs _ => { row with threadSeenTs := some seenTs }
  | _ => row

/-- The row a statement inserts where there is none. -/
def Stmt.insert : Stmt → Option Row
  | ensureIncident _ title openedAt service => some (freshRow title openedAt service)
  | _ => none

/-- **Every statement acts on one row.** -/
theorem lookup_exec (stmt : Stmt) (now : Time) (table : Incidents) (incidentId : String) :
    (stmt.exec now table).2.lookup incidentId =
      if stmt.target = some incidentId then
        ((table.lookup incidentId).map fun row => stmt.change now row).or stmt.insert
      else table.lookup incidentId := by
  cases stmt with
  | claim slot target =>
    simp only [Stmt.exec, claimOf_eq, takeLease, Table.lookup_updateWhere, Stmt.target,
      Option.some.injEq, Stmt.insert, Option.or_none, @eq_comm _ incidentId]
    split_ifs with same
    · rw [same]; rfl
    · rfl
  | claimDeferred kind target =>
    simp only [Stmt.exec, claimDeferredOf_eq, takeLease, Table.lookup_updateWhere, Stmt.target,
      Option.some.injEq, Stmt.insert, Option.or_none, @eq_comm _ incidentId]
    split_ifs with same
    · rw [same]; rfl
    · rfl
  | release slot target =>
    simp only [Stmt.exec, releaseOf_eq, clearLease, Table.lookup_modify, Stmt.target,
      Option.some.injEq, Stmt.insert, Option.or_none, @eq_comm _ incidentId]
    split_ifs with same
    · rw [same]; rfl
    · rfl
  | markBrief slackTs channelId target =>
    simp only [Stmt.exec, markBriefSql, Table.lookup_modify, Stmt.target,
      Option.some.injEq, Stmt.insert, Option.or_none, @eq_comm _ incidentId]
    split_ifs with same
    · rw [same]; rfl
    · rfl
  | markFollowup kind target =>
    simp only [Stmt.exec, markFollowupOf_eq, Autopilot.markFollowup, Table.lookup_modify,
      Stmt.target, Option.some.injEq, Stmt.insert, Option.or_none, @eq_comm _ incidentId]
    split_ifs with same
    · rw [same]; rfl
    · rfl
  | schedule window target =>
    simp only [Stmt.exec, scheduleSql, Table.lookup_updateWhere, Stmt.target,
      Option.some.injEq, Stmt.insert, Option.or_none, @eq_comm _ incidentId]
    split_ifs with same
    · rw [same]; rfl
    · rfl
  | defer kind target =>
    simp only [Stmt.exec, deferOf_eq, setNeeded, Table.lookup_updateWhere, Stmt.target,
      Option.some.injEq, Stmt.insert, Option.or_none, @eq_comm _ incidentId]
    split_ifs with same
    · rw [same]; rfl
    · rfl
  | markResolved resolvedAt target =>
    simp only [Stmt.exec, markResolvedSql, Table.lookup_modify, Stmt.target,
      Option.some.injEq, Stmt.insert, Option.or_none, @eq_comm _ incidentId]
    split_ifs with same
    · rw [same]; rfl
    · rfl
  | ensureIncident target title openedAt service =>
    simp only [Stmt.exec, ensureIncidentSql, Table.lookup_upsert, Stmt.target,
      Option.some.injEq, Stmt.insert, @eq_comm _ incidentId]
    split_ifs with same
    · subst same
      cases table.lookup target <;> rfl
    · rfl
  | markSeen seenTs target =>
    simp only [Stmt.exec, markSeenSql, Table.lookup_modify, Stmt.target,
      Option.some.injEq, Stmt.insert, Option.or_none, @eq_comm _ incidentId]
    split_ifs with same
    · rw [same]; rfl
    · rfl
  | _ => simp [Stmt.exec, Stmt.target]

/-- **The answer of a claim**: whether the row is there and can be claimed. -/
theorem exec_claim_fst (slot : Slot) (incidentId : String) (now : Time) (table : Incidents) :
    ((Stmt.claim slot incidentId).exec now table).1 =
      (table.lookup incidentId).any (claimable slot (claimGuard slot) now) := by
  simp only [Stmt.exec, claimOf_eq, takeLease, Table.updateWhere_fst]
  change ((((table.lookup incidentId).filter (claimable slot (claimGuard slot) now)).map _).isSome)
    = _
  cases table.lookup incidentId with
  | none => rfl
  | some row => by_cases wins : claimable slot (claimGuard slot) now row = true <;>
      simp [wins, Option.filter]

theorem exec_claimDeferred_fst (kind : Followup) (incidentId : String) (now : Time)
    (table : Incidents) :
    ((Stmt.claimDeferred kind incidentId).exec now table).1 =
      ((table.lookup incidentId).filter
        (claimable (.followup kind) (deferredGuard kind) now)).map fun row =>
          (row.primaryService.getD "", row.slackTs) := by
  simp only [Stmt.exec, claimDeferredOf_eq, takeLease, Table.updateWhere_fst, Option.map_map]
  change (((table.lookup incidentId).filter
    (claimable (.followup kind) (deferredGuard kind) now)).map _) = _
  congr 1
  funext row
  cases kind <;> rfl

/-! ### Columns under a change -/

/-- The slot a statement records as delivered. -/
def Stmt.marks : Stmt → Option Slot
  | markBrief _ _ _ => some .brief
  | markFollowup kind _ => some (.followup kind)
  | _ => none

/-- The slot a statement claims, under its guard. -/
def Stmt.claims : Stmt → Option (Slot × (Row → Bool))
  | claim slot _ => some (slot, claimGuard slot)
  | claimDeferred kind _ => some (.followup kind, deferredGuard kind)
  | _ => none

/-- The slot a statement releases. -/
def Stmt.releases : Stmt → Option Slot
  | release slot _ => some slot
  | _ => none

theorem delivered_change (stmt : Stmt) (now : Time) (row : Row) (slot : Slot) :
    (stmt.change now row).delivered slot =
      if stmt.marks = some slot then some now else row.delivered slot := by
  cases stmt with
  | markBrief slackTs channelId target =>
    rcases slot with _ | ⟨_ | _⟩ <;> simp [Stmt.change, Stmt.marks, Row.delivered, Row.record]
  | markFollowup kind target =>
    simp only [Stmt.change, Row.delivered_record, Stmt.marks, Option.some.injEq, eq_comm]
  | claim target incidentId => simp only [Stmt.change, Stmt.marks]; split_ifs <;> simp_all
  | claimDeferred kind incidentId => simp only [Stmt.change, Stmt.marks]; split_ifs <;> simp_all
  | release target incidentId => simp [Stmt.change, Stmt.marks]
  | schedule window incidentId =>
    simp only [Stmt.change, Stmt.marks, reduceCtorEq, if_false]
    split_ifs
    · rcases slot with _ | ⟨_ | _⟩ <;> rfl
    · rfl
  | defer kind incidentId => simp only [Stmt.change, Stmt.marks]; split_ifs <;> simp_all
  | _ => rcases slot with _ | ⟨_ | _⟩ <;> rfl

theorem slackTs_change (stmt : Stmt) (now : Time) (row : Row)
    (other : stmt.marks ≠ some .brief) : (stmt.change now row).slackTs = row.slackTs := by
  cases stmt with
  | markBrief => exact absurd rfl other
  | claim => simp only [Stmt.change]; split_ifs <;> simp
  | claimDeferred => simp only [Stmt.change]; split_ifs <;> simp
  | schedule => simp only [Stmt.change]; split_ifs <;> rfl
  | defer => simp only [Stmt.change]; split_ifs <;> simp
  | _ => simp [Stmt.change]

@[simp] theorem Row.openedAt_setLease (row : Row) (slot : Slot) (value : Option Time) :
    (row.setLease slot value).openedAt = row.openedAt := by
  rcases slot with _ | ⟨_ | _⟩ <;> rfl

/-- No statement moves the opening time of an incident. -/
theorem openedAt_change (stmt : Stmt) (now : Time) (row : Row) :
    (stmt.change now row).openedAt = row.openedAt := by
  cases stmt with
  | claim => simp only [Stmt.change]; split_ifs <;> simp
  | claimDeferred => simp only [Stmt.change]; split_ifs <;> simp
  | release => simp [Stmt.change]
  | markFollowup kind => cases kind <;> rfl
  | schedule => simp only [Stmt.change]; split_ifs <;> rfl
  | defer kind =>
    simp only [Stmt.change]
    split_ifs
    · cases kind <;> rfl
    · rfl
  | _ => rfl

/-- A lease column changes only by a claim that wins or by a release. -/
theorem lease_change (stmt : Stmt) (now : Time) (row : Row) (slot : Slot) :
    (stmt.change now row).lease slot = row.lease slot ∨ stmt.releases = some slot ∨
      ∃ guard, stmt.claims = some (slot, guard) ∧ claimable slot guard now row = true := by
  cases stmt with
  | claim target incidentId =>
    simp only [Stmt.change]
    split_ifs with wins
    · by_cases same : slot = target
      · subst same
        exact Or.inr (Or.inr ⟨_, rfl, wins⟩)
      · simp [same]
    · exact Or.inl rfl
  | claimDeferred kind incidentId =>
    simp only [Stmt.change]
    split_ifs with wins
    · by_cases same : slot = .followup kind
      · subst same
        exact Or.inr (Or.inr ⟨_, rfl, wins⟩)
      · simp [same]
    · exact Or.inl rfl
  | release target incidentId =>
    by_cases same : slot = target
    · subst same
      exact Or.inr (Or.inl rfl)
    · simp [Stmt.change, same]
  | markBrief slackTs channelId target =>
    left
    rcases slot with _ | ⟨_ | _⟩ <;> rfl
  | markFollowup kind target => simp [Stmt.change]
  | schedule window target =>
    left
    simp only [Stmt.change]
    split_ifs
    · rcases slot with _ | ⟨_ | _⟩ <;> rfl
    · rfl
  | defer kind target => left; simp only [Stmt.change]; split_ifs <;> simp
  | _ => left; rcases slot with _ | ⟨_ | _⟩ <;> rfl

theorem lease_change_of_releases {stmt : Stmt} {slot : Slot} (releases : stmt.releases = some slot)
    (now : Time) (row : Row) : (stmt.change now row).lease slot = none := by
  cases stmt with
  | release target incidentId =>
    obtain rfl := Option.some_injective _ releases
    simp [Stmt.change]
  | _ => cases releases

/-- One call changes the table as one statement does, or not at all. -/
theorem incidents_of_calls {W : Type} [DecidableEq W] {world after : World W} {worker : W} {op : Op}
    {answer : Except Exn op.Ans} (calls : world.Calls worker op answer after) :
    after.incidents = world.incidents ∨
      ∃ stmt : Stmt, op = .sql stmt ∧
        after.incidents = (stmt.exec world.now world.incidents).2 := by
  cases op with
  | sql stmt =>
    rcases calls with ⟨-, rfl⟩ | ⟨message, -, rfl | rfl⟩
    · exact Or.inr ⟨stmt, rfl, rfl⟩
    · exact Or.inl rfl
    · exact Or.inr ⟨stmt, rfl, rfl⟩
  | deliver incidentId slot findings thread =>
    rcases calls with ⟨ts, -, rfl⟩ | ⟨message, -, rfl⟩ <;> exact Or.inl rfl
  | compose question hits =>
    obtain rfl := calls
    exact Or.inl rfl
  | _ =>
    obtain ⟨-, rfl⟩ := calls
    exact Or.inl rfl

/-- What a call leaves in the log: a record of a mark, a post, or nothing. -/
theorem log_of_calls {W : Type} [DecidableEq W] {world after : World W} {worker : W} {op : Op}
    {answer : Except Exn op.Ans} (calls : world.Calls worker op answer after) :
    after.log = world.log ∨
    (∃ incidentId slot slackTs, after.log = .recorded incidentId slot slackTs :: world.log) ∨
    ∃ incidentId slot findings thread, op = .deliver incidentId slot findings thread ∧
      after.log = .posted incidentId slot thread :: world.log := by
  cases op with
  | sql stmt =>
    rcases calls with ⟨-, rfl⟩ | ⟨message, -, rfl | rfl⟩
    · cases stmt with
      | markBrief => exact Or.inr (Or.inl ⟨_, _, _, rfl⟩)
      | markFollowup => exact Or.inr (Or.inl ⟨_, _, _, rfl⟩)
      | _ => exact Or.inl rfl
    · exact Or.inl rfl
    · exact Or.inl rfl
  | deliver incidentId slot findings thread =>
    rcases calls with ⟨ts, -, rfl⟩ | ⟨message, -, rfl⟩
    · exact Or.inr (Or.inr ⟨_, _, _, _, rfl, rfl⟩)
    · exact Or.inl rfl
  | compose question hits =>
    obtain rfl := calls
    exact Or.inl rfl
  | _ =>
    obtain ⟨-, rfl⟩ := calls
    exact Or.inl rfl

end Freshet.Autopilot
