/-
**Owed work is never dropped.**

`autopilot` is the system of all the workers with nothing promised: a worker may be killed between
any two of its calls, any statement may fail or have its answer lost, the clock may pass any lease.
So the argument cannot use what a worker was about to do. It looks at one statement at a time:

* `Owes.change`: no statement takes an owed marker away before the delivery is recorded, and none
  clears a delivered column;
* `Settled`: a delivered slot owes nothing. With it the selection predicates and the claim
  predicates, which are separate texts, agree on every owed item whose lease is free.
-/

import Freshet.Autopilot.Consumer
import Freshet.Autopilot.RowEffect

namespace Freshet.Autopilot

open Freshet.Lib

/-- **The workers, with nothing promised.** -/
def autopilot (W : Type) [DecidableEq W] : System sig Exn (World W) W where
  job _ program := ∃ job : Job, program = job.program
  step worker op world answer after := world.Calls worker op answer after
  env world after := ∃ now, world.now ≤ now ∧ after = { world with now }
  kill _ _ := True

/-! ### One statement -/

/-- `later` has dropped nothing of `row`: what was delivered still is, what was owed is owed or
delivered. Nor has its opening time moved. -/
structure Owes (row later : Row) : Prop where
  opened : later.openedAt = row.openedAt
  delivered : ∀ slot, (row.delivered slot).isSome → (later.delivered slot).isSome
  owed : ∀ slot, row.owed slot = true → later.owed slot = true ∨ (later.delivered slot).isSome

theorem Owes.refl (row : Row) : Owes row row := ⟨rfl, fun _ => id, fun _ => Or.inl⟩

theorem Owes.trans {first second third : Row} (one : Owes first second) (two : Owes second third) :
    Owes first third where
  opened := two.opened.trans one.opened
  delivered slot before := two.delivered slot (one.delivered slot before)
  owed slot before := by
    rcases one.owed slot before with still | delivered
    · exact two.owed slot still
    · exact Or.inr (two.delivered slot delivered)

/-- A statement keeps an owed marker unless it records the delivery. -/
theorem owed_change (stmt : Stmt) (now : Time) (row : Row) (slot : Slot)
    (owed : row.owed slot = true) :
    (stmt.change now row).owed slot = true ∨ stmt.marks = some slot := by
  cases stmt with
  | claim target incidentId => simp only [Stmt.change]; split_ifs <;> simp [owed]
  | claimDeferred kind incidentId => simp only [Stmt.change]; split_ifs <;> simp [owed]
  | release target incidentId => simp [Stmt.change, owed]
  | markBrief slackTs channelId incidentId =>
    rcases slot with _ | ⟨_ | _⟩
    · exact Or.inr rfl
    · exact Or.inl owed
    · exact Or.inl owed
  | markFollowup kind incidentId =>
    by_cases same : slot = .followup kind
    · exact Or.inr (congrArg some same.symm)
    · simp [Stmt.change, same, owed]
  | schedule window incidentId =>
    simp only [Stmt.change]
    split_ifs with unset
    · rcases slot with _ | ⟨_ | _⟩
      · exact Or.inl rfl
      · exact Or.inl owed
      · exact Or.inl owed
    · exact Or.inl owed
  | defer kind incidentId =>
    simp only [Stmt.change]
    split_ifs <;> simp [owed]
  | _ => exact Or.inl (by rcases slot with _ | ⟨_ | _⟩ <;> exact owed)

theorem Owes.change (stmt : Stmt) (now : Time) (row : Row) : Owes row (stmt.change now row) where
  opened := openedAt_change stmt now row
  delivered slot before := by
    rw [delivered_change]
    split_ifs
    · rfl
    · exact before
  owed slot before := by
    rcases owed_change stmt now row slot before with still | marks
    · exact Or.inl still
    · exact Or.inr (by simp [delivered_change, marks])

theorem schedule_secures (window : Time) (incidentId : String) (now : Time) (row : Row) :
    ((Stmt.schedule window incidentId).change now row).owed .brief = true ∨
      (((Stmt.schedule window incidentId).change now row).delivered .brief).isSome := by
  simp only [Stmt.change]
  split_ifs with unset
  · exact Or.inl rfl
  · rw [Bool.and_eq_true, not_and_or, Option.isNone_iff_eq_none, Option.isNone_iff_eq_none] at unset
    rcases unset with delivered | due
    · exact Or.inr (Option.isSome_iff_ne_none.mpr delivered)
    · exact Or.inl (Option.isSome_iff_ne_none.mpr due)

theorem defer_secures (kind : Followup) (incidentId : String) (now : Time) (row : Row) :
    ((Stmt.defer kind incidentId).change now row).owed (.followup kind) = true ∨
      (((Stmt.defer kind incidentId).change now row).delivered (.followup kind)).isSome := by
  simp only [Stmt.change]
  split_ifs with unset
  · exact Or.inl (by simp)
  · exact Or.inr (by simpa [Option.isSome_iff_ne_none] using unset)

/-- **A delivered slot owes nothing.** -/
def Settled (row : Row) : Prop :=
  ∀ slot, (row.delivered slot).isSome → row.owed slot = false

theorem settled_freshRow (title : String) (openedAt : Time) (service : String) :
    Settled (freshRow title openedAt service) := by
  rintro (_ | ⟨_ | _⟩) delivered <;> cases delivered

/-- A marker is set only on an undelivered slot. -/
theorem owed_of_change (stmt : Stmt) (now : Time) (row : Row) (slot : Slot)
    (owed : (stmt.change now row).owed slot = true) :
    row.owed slot = true ∨ row.delivered slot = none := by
  cases stmt with
  | claim target incidentId =>
    simp only [Stmt.change] at owed
    split_ifs at owed <;> exact Or.inl (by simpa using owed)
  | claimDeferred kind incidentId =>
    simp only [Stmt.change] at owed
    split_ifs at owed <;> exact Or.inl (by simpa using owed)
  | release target incidentId => exact Or.inl (by simpa [Stmt.change] using owed)
  | markBrief slackTs channelId incidentId =>
    rcases slot with _ | ⟨_ | _⟩
    · cases owed
    · exact Or.inl owed
    · exact Or.inl owed
  | markFollowup kind incidentId =>
    simp only [Stmt.change, Row.owed_record] at owed
    split_ifs at owed
    exact Or.inl owed
  | schedule window incidentId =>
    simp only [Stmt.change] at owed
    split_ifs at owed with unset
    · rcases slot with _ | ⟨_ | _⟩
      · simp only [Bool.and_eq_true, Option.isNone_iff_eq_none] at unset
        exact Or.inr unset.1
      · exact Or.inl owed
      · exact Or.inl owed
    · exact Or.inl owed
  | defer kind incidentId =>
    simp only [Stmt.change] at owed
    split_ifs at owed with unset
    · rw [Row.owed_defer] at owed
      split_ifs at owed with same
      · subst same
        exact Or.inr (Option.isNone_iff_eq_none.mp unset)
      · exact Or.inl owed
    · exact Or.inl owed
  | _ => exact Or.inl (by rcases slot with _ | ⟨_ | _⟩ <;> exact owed)

/-- A mark clears the owed marker it settles. -/
theorem owed_change_of_marks {stmt : Stmt} {slot : Slot} (marks : stmt.marks = some slot)
    (now : Time) (row : Row) : (stmt.change now row).owed slot = false := by
  cases stmt with
  | markBrief slackTs channelId incidentId =>
    obtain rfl := Option.some_injective _ marks
    rfl
  | markFollowup kind incidentId =>
    obtain rfl := Option.some_injective _ marks
    simp [Stmt.change]
  | _ => cases marks

theorem Settled.change {row : Row} (settled : Settled row) (stmt : Stmt) (now : Time) :
    Settled (stmt.change now row) := by
  intro slot delivered
  by_cases marks : stmt.marks = some slot
  · exact owed_change_of_marks marks now row
  · rw [delivered_change, if_neg marks] at delivered
    by_contra owed
    rcases owed_of_change stmt now row slot (by simpa using owed) with before | undelivered
    · rw [settled slot delivered] at before
      cases before
    · rw [undelivered] at delivered
      cases delivered

/-! ### The table -/

/-- `later` has dropped nothing of `table`. -/
def Keeps (table later : Incidents) : Prop :=
  ∀ incidentId row, table.lookup incidentId = some row →
    ∃ row', later.lookup incidentId = some row' ∧ Owes row row'

theorem Keeps.refl (table : Incidents) : Keeps table table :=
  fun _ row found => ⟨row, found, .refl row⟩

theorem Keeps.trans {first second third : Incidents} (one : Keeps first second)
    (two : Keeps second third) : Keeps first third := by
  intro incidentId row found
  obtain ⟨row', found', owes⟩ := one incidentId row found
  obtain ⟨row'', found'', owes'⟩ := two incidentId row' found'
  exact ⟨row'', found'', owes.trans owes'⟩

theorem keeps_exec (stmt : Stmt) (now : Time) (table : Incidents) :
    Keeps table (stmt.exec now table).2 := by
  intro incidentId row found
  rw [lookup_exec, found]
  split_ifs
  · exact ⟨_, rfl, .change stmt now row⟩
  · exact ⟨row, rfl, .refl row⟩

/-- The incident has a row that owes the slot or has delivered it. -/
def Secured (table : Incidents) (incidentId : String) (slot : Slot) : Prop :=
  ∃ row, table.lookup incidentId = some row ∧
    (row.owed slot = true ∨ (row.delivered slot).isSome)

theorem Secured.keeps {table later : Incidents} {incidentId : String} {slot : Slot}
    (secured : Secured table incidentId slot) (keeps : Keeps table later) :
    Secured later incidentId slot := by
  obtain ⟨row, found, here⟩ := secured
  obtain ⟨row', found', owes⟩ := keeps incidentId row found
  refine ⟨row', found', ?_⟩
  rcases here with owed | delivered
  · exact owes.owed slot owed
  · exact Or.inr (owes.delivered slot delivered)

def AllSettled (table : Incidents) : Prop :=
  ∀ incidentId row, table.lookup incidentId = some row → Settled row

theorem AllSettled.exec {table : Incidents} (settled : AllSettled table) (stmt : Stmt)
    (now : Time) : AllSettled (stmt.exec now table).2 := by
  intro incidentId row' found'
  rw [lookup_exec] at found'
  split_ifs at found' with target
  · cases found : table.lookup incidentId with
    | some row =>
      rw [found] at found'
      obtain rfl := Option.some_injective _ found'
      exact (settled incidentId row found).change stmt now
    | none =>
      rw [found] at found'
      cases stmt with
      | ensureIncident =>
        obtain rfl := Option.some_injective _ found'
        exact settled_freshRow _ _ _
      | _ => cases found'
  · exact settled incidentId row' found'

/-! ### Selections and claims -/

/-- The drain's claim of an item. -/
def drainClaim : Slot → Time → String → Incidents → Option Row × Incidents
  | .brief => claimSql
  | .followup kind => claimDeferredOf kind

/-- The drain's selection of a kind of item lists the incident. -/
def Listed (now : Time) (table : Incidents) (incidentId : String) : Slot → Prop
  | .brief => incidentId ∈ (dueSql now table).map fun entry => entry.1
  | .followup _ => incidentId ∈ pendingFollowupsSql now table

/-- An item is ripe: a brief's due time has come, a follow-up's brief is delivered. -/
def Ripe (now : Time) (row : Row) : Slot → Prop
  | .brief => ∀ due, row.briefDueAt = some due → due ≤ now
  | .followup _ => (row.delivered .brief).isSome

section Item

variable {now : Time} {table : Incidents} {incidentId : String} {row : Row}

theorem undelivered_of_owed (settled : Settled row) {slot : Slot} (owed : row.owed slot = true) :
    row.delivered slot = none := by
  cases delivered : row.delivered slot with
  | none => rfl
  | some at' =>
    have clear := settled slot (by rw [delivered]; rfl)
    rw [owed] at clear
    cases clear

/-- **The selection lists every ripe owed item whose lease is free.** -/
theorem listed_of_owed (found : table.lookup incidentId = some row) (settled : Settled row)
    {slot : Slot} (owed : row.owed slot = true) (free : leaseFree now (row.lease slot) = true)
    (ripe : Ripe now row slot) : Listed now table incidentId slot := by
  have undelivered := undelivered_of_owed settled owed
  cases slot with
  | brief =>
    obtain ⟨due, dueAt⟩ := Option.isSome_iff_exists.mp owed
    have selected : isDue now row = true := by
      have none : row.briefDeliveredAt = none := undelivered
      simp [isDue, dueAt, ripe due dueAt, none]
    simp only [Listed, dueSql, List.mem_map]
    exact ⟨_, ⟨⟨incidentId, row⟩, Table.mem_select.mpr ⟨found, selected⟩, rfl⟩, rfl⟩
  | followup kind =>
    have arm : isPendingArm now kind row = true := by
      simp [isPendingArm, owed, undelivered, free]
    have selected : isPending now row = true := by
      have briefed : row.briefDeliveredAt.isSome = true := ripe
      cases kind <;> simp [isPending, briefed, arm]
    simp only [Listed, pendingFollowupsSql, List.mem_map]
    exact ⟨⟨incidentId, row⟩, Table.mem_select.mpr ⟨found, selected⟩, rfl⟩

/-- **The drain's claim of an owed item whose lease is free succeeds.** -/
theorem drainClaim_of_owed (found : table.lookup incidentId = some row) (settled : Settled row)
    {slot : Slot} (owed : row.owed slot = true) (free : leaseFree now (row.lease slot) = true)
    (ripe : Ripe now row slot) : (drainClaim slot now incidentId table).1.isSome := by
  have undelivered := undelivered_of_owed settled owed
  cases slot with
  | brief =>
    simp [drainClaim, claimSql, takeLease, Table.updateWhere_fst, found, Option.filter,
      undelivered, free]
  | followup kind =>
    have briefed : (row.delivered .brief).isSome = true := ripe
    simp [drainClaim, claimDeferredOf_eq, takeLease, Table.updateWhere_fst, found, Option.filter,
      undelivered, free, deferredGuard, owed, briefed]

end Item

/-! ### Every run -/

section Runs

variable {W : Type} [DecidableEq W]

theorem keeps_of_reaches {first last : Pool sig Exn (World W) W}
    (run : Pool.Reaches (autopilot W) first last) :
    Keeps first.shared.incidents last.shared.incidents := by
  refine @Pool.shared_relation _ _ _ _ _ _ (fun world after : World W =>
    Keeps world.incidents after.incidents) _ _ run (fun world => .refl _) .trans ?_ ?_
  · intro worker op world answer after calls
    rcases incidents_of_calls calls with same | ⟨stmt, -, eq⟩
    · rw [same]
      exact .refl _
    · rw [eq]
      exact keeps_exec stmt _ _
  · rintro world _ ⟨now, -, rfl⟩
    exact .refl _

theorem allSettled_of_reaches {start : Time} {pool : Pool sig Exn (World W) W}
    (run : Pool.Reaches (autopilot W) (Pool.idle (World.init start)) pool) :
    AllSettled pool.shared.incidents := by
  refine Pool.invariant (fun pool => AllSettled pool.shared.incidents) run
    (fun _ _ found => nomatch found) ?_
  intro before after settled one
  cases one with
  | call worker running calls =>
    rcases incidents_of_calls calls with same | ⟨stmt, -, eq⟩
    · simpa [same] using settled
    · simpa [eq] using settled.exec stmt _
  | start worker finished taken => exact settled
  | kill worker killed => exact settled
  | env moved =>
    obtain ⟨now, -, rfl⟩ := moved
    exact settled

end Runs

/-- **Owed work is never dropped.** In every run of the unrestricted system: what a row owes, it
owes until the delivery is recorded, and no delivery is forgotten; and an owed item that is ripe and
whose lease is free is listed by the drain's selection and won by the drain's claim. -/
theorem owed_never_dropped {W : Type} [DecidableEq W] {start : Time}
    {pool later : Pool sig Exn (World W) W}
    (run : Pool.Reaches (autopilot W) (Pool.idle (World.init start)) pool)
    (more : Pool.Reaches (autopilot W) pool later) {incidentId : String} {row : Row}
    (found : pool.shared.incidents.lookup incidentId = some row) :
    (∃ row', later.shared.incidents.lookup incidentId = some row' ∧ ∀ slot,
      (row.owed slot = true → row'.owed slot = true ∨ (row'.delivered slot).isSome) ∧
      ((row.delivered slot).isSome → (row'.delivered slot).isSome)) ∧
    ∀ slot, row.owed slot = true → leaseFree pool.shared.now (row.lease slot) = true →
      Ripe pool.shared.now row slot →
        Listed pool.shared.now pool.shared.incidents incidentId slot ∧
        (drainClaim slot pool.shared.now incidentId pool.shared.incidents).1.isSome := by
  constructor
  · obtain ⟨row', found', owes⟩ := keeps_of_reaches more incidentId row found
    exact ⟨row', found', fun slot => ⟨owes.owed slot, owes.delivered slot⟩⟩
  · intro slot owed free ripe
    have settled := allSettled_of_reaches run incidentId row found
    exact ⟨listed_of_owed found settled owed free ripe,
      drainClaim_of_owed found settled owed free ripe⟩

/-- An undisturbed worker is one of the workers of `autopilot`. -/
theorem autopilot_serve {W : Type} [DecidableEq W] (reply : (op : Op) → op.Ans) (worker : W)
    (op : Op) (world : World W) :
    (autopilot W).step worker op world (world.serve reply worker op).1
      (world.serve reply worker op).2 :=
  World.calls_serve reply worker op world

/-- One worker handles an opening and does not drain. -/
def openedOnly : World Unit :=
  Pool.runAll (fun op world => world.serve calmReply () op) (World.init 0)
    [(Job.handleLifecycle calmConfig (calmEvent "opened")).program]

theorem owed_never_dropped_openedOnly :
    (openedOnly.incidents.lookup "inc").any (fun row => row.owed .brief) = true ∧
    Listed openedOnly.now openedOnly.incidents "inc" .brief ∧
    (drainClaim .brief openedOnly.now "inc" openedOnly.incidents).1.isSome := by
  have jobs : ∀ program ∈ [(Job.handleLifecycle calmConfig (calmEvent "opened")).program],
      (autopilot Unit).job () program := by
    intro program member
    obtain rfl := List.mem_singleton.mp member
    exact ⟨_, rfl⟩
  obtain ⟨prog, reaches, -⟩ := @Pool.reaches_runAll _ _ _ _ _ (autopilot Unit) ()
    (fun op world => world.serve calmReply () op) (autopilot_serve calmReply ()) _ jobs
    (Pool.idle (World.init 0)) trivial
  have found : openedOnly.incidents.lookup "inc" =
      some { freshRow "" 0 "github" with briefDueAt := some 0 } := by rfl
  refine ⟨by rfl, (owed_never_dropped reaches .refl found).2 .brief rfl rfl ?_⟩
  rintro due ⟨⟩
  exact le_refl _

end Freshet.Autopilot
