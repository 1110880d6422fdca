/-
**A statement that is tried again has the effect of one.**

`ResilientConnection` tries a statement again after a broken connection, and an earlier try may have
taken effect. Within the time of one lease the tries of a statement leave its row as one of them alone
would (`effect_ran`), and the answer is that of this one, but for a claim (`retried_once`): a claim that
was won and whose answer was lost is answered `no`. Its slot is then leased and nobody works on it until
the lease runs out (`LostClaim`).
-/

import Freshet.Autopilot.RowEffect
import Freshet.Common.ResilientConnection

namespace Freshet.Autopilot

open Freshet.Lib Freshet.Common

/-- The `incidents` table while a statement on one incident is tried, from `start` on for at most the
time of a lease. The other sessions leave the incident alone. -/
def retriedServer (incidentId : String) (start : Time) (connectionError : Exn → Bool) :
    Server Exn where
  Query := Stmt
  Ans := Stmt.Ans
  Data := Incidents
  run stmt now table := stmt.exec now table
  allowed _ now := start ≤ now ∧ now ≤ start + minutes leaseMinutes
  others before after := after.lookup incidentId = before.lookup incidentId
  others_refl _ := rfl
  others_trans one two := two.trans one
  connectionError

/-! ### One row -/

theorem leaseFree_taken {first second start : Time} (from' : start ≤ first)
    (within : second ≤ start + minutes leaseMinutes) : leaseFree second (some first) = false := by
  simp only [leaseFree, Option.all_some, decide_eq_false_iff_not, not_lt]
  exact (Int.sub_right_le_of_le_add within).trans from'

/-- A claim won is not won again within the lease. -/
theorem claimable_setLease {slot : Slot} {guard : Row → Bool} {first second start : Time} {row : Row}
    (from' : start ≤ first) (within : second ≤ start + minutes leaseMinutes) :
    claimable slot guard second (row.setLease slot (some first)) = false := by
  unfold claimable
  rw [Row.lease_setLease, if_pos rfl, leaseFree_taken from' within, Bool.and_false]

/-- **Twice is once**: the second change undoes the first, or does nothing. -/
theorem change_change (stmt : Stmt) {first second start : Time} (from' : start ≤ first)
    (within : second ≤ start + minutes leaseMinutes) (row : Row) :
    stmt.change second (stmt.change first row) = stmt.change first row ∨
      stmt.change second (stmt.change first row) = stmt.change second row := by
  cases stmt with
  | claim slot incidentId =>
    by_cases wins : claimable slot (claimGuard slot) first row = true
    · have taken : Stmt.change first row (.claim slot incidentId) = row.setLease slot (some first) :=
        if_pos wins
      left
      rw [taken]
      exact if_neg (Bool.eq_false_iff.mp (claimable_setLease from' within))
    · have kept : Stmt.change first row (.claim slot incidentId) = row := if_neg wins
      right
      rw [kept]
  | claimDeferred kind incidentId =>
    by_cases wins : claimable (.followup kind) (deferredGuard kind) first row = true
    · have taken : Stmt.change first row (.claimDeferred kind incidentId) =
          row.setLease (.followup kind) (some first) := if_pos wins
      left
      rw [taken]
      exact if_neg (Bool.eq_false_iff.mp (claimable_setLease from' within))
    · have kept : Stmt.change first row (.claimDeferred kind incidentId) = row := if_neg wins
      right
      rw [kept]
  | release slot incidentId =>
    right
    rcases slot with _ | ⟨_ | _⟩ <;> rfl
  | markBrief slackTs channelId incidentId =>
    right
    cases slackTs <;> cases channelId <;> rfl
  | markFollowup kind incidentId =>
    right
    cases kind <;> rfl
  | schedule window incidentId =>
    by_cases unset : (row.briefDeliveredAt.isNone && row.briefDueAt.isNone) = true
    · have set : Stmt.change first row (.schedule window incidentId) =
          { row with briefDueAt := some (first + window) } := if_pos unset
      left
      rw [set]
      refine if_neg ?_
      show ¬ (row.briefDeliveredAt.isNone && (some (first + window)).isNone) = true
      rw [Option.isNone_some, Bool.and_false]
      exact Bool.false_ne_true
    · have kept : Stmt.change first row (.schedule window incidentId) = row := if_neg unset
      right
      rw [kept]
  | defer kind incidentId =>
    by_cases owed : (row.delivered (.followup kind)).isNone = true
    · have set : Stmt.change first row (.defer kind incidentId) = row.defer kind := if_pos owed
      left
      rw [set]
      refine (if_pos ?_).trans ?_
      · rw [Row.delivered_defer]
        exact owed
      · cases kind <;> rfl
    · have kept : Stmt.change first row (.defer kind incidentId) = row := if_neg owed
      right
      rw [kept]
  | markResolved resolvedAt incidentId =>
    left
    unfold Stmt.change
    cases row.resolvedAt <;> rfl
  | ensureIncident incidentId title openedAt service =>
    left
    unfold Stmt.change
    cases row.primaryService <;> by_cases unnamed : row.title = "" <;> simp [unnamed]
  | markSeen seenTs incidentId => exact Or.inl rfl
  | due limit => exact Or.inl rfl
  | pendingFollowups limit => exact Or.inl rfl
  | getSlackTs incidentId => exact Or.inl rfl
  | getOpenedAt incidentId => exact Or.inl rfl
  | incidentMeta incidentId => exact Or.inl rfl
  | incidentRow incidentId => exact Or.inl rfl

/-- A row that a statement has inserted is as it leaves it. -/
theorem change_insert {stmt : Stmt} {row : Row} (inserts : stmt.insert = some row) (now : Time) :
    stmt.change now row = row := by
  cases stmt with
  | ensureIncident incidentId title openedAt service =>
    obtain rfl := Option.some.inj inserts
    by_cases unnamed : title = "" <;> simp [Stmt.change, freshRow, unnamed]
  | _ => cases inserts

/-! ### One table -/

section Table

variable {stmt : Stmt} {incidentId : String}

theorem lookup_exec_congr (stmt : Stmt) {first second : Incidents}
    (same : first.lookup incidentId = second.lookup incidentId) (now : Time) :
    (stmt.exec now first).2.lookup incidentId = (stmt.exec now second).2.lookup incidentId := by
  rw [lookup_exec, lookup_exec, same]

theorem exec_exec (target : stmt.target = some incidentId) {first second start : Time}
    (from' : start ≤ first) (within : second ≤ start + minutes leaseMinutes) (table : Incidents) :
    (stmt.exec second (stmt.exec first table).2).2.lookup incidentId =
        (stmt.exec first table).2.lookup incidentId ∨
      (stmt.exec second (stmt.exec first table).2).2.lookup incidentId =
        (stmt.exec second table).2.lookup incidentId := by
  simp only [lookup_exec, if_pos target]
  cases table.lookup incidentId with
  | none =>
    left
    cases inserts : stmt.insert with
    | none => rfl
    | some row => exact congrArg some (change_insert inserts second)
  | some row =>
    simp only [Option.map_some, Option.some_or, Option.some.injEq]
    exact change_change stmt from' within row

/-- **The tries together do what one of them does.** -/
theorem effect_ran {start : Time} {connectionError : Exn → Bool} {n : Nat} {before after : Incidents}
    (target : stmt.target = some incidentId)
    (ran : Ran (retriedServer incidentId start connectionError) stmt n before after) :
    after.lookup incidentId = before.lookup incidentId ∨
      ∃ now, start ≤ now ∧ now ≤ start + minutes leaseMinutes ∧
        after.lookup incidentId = (stmt.exec now before).2.lookup incidentId := by
  let Effect : Incidents → Prop := fun data => data.lookup incidentId = before.lookup incidentId ∨
    ∃ now, start ≤ now ∧ now ≤ start + minutes leaseMinutes ∧
      data.lookup incidentId = (stmt.exec now before).2.lookup incidentId
  refine @Ran.keeps _ _ _ _ _ _ Effect ran (Or.inl rfl) ?_ ?_
  · intro data data' moved effect
    have same : data'.lookup incidentId = data.lookup incidentId := moved
    show _ ∨ _
    rwa [same]
  · rintro data now ⟨from', within⟩ (unchanged | ⟨earlier, since, until', effect⟩)
    · exact Or.inr ⟨now, from', within, lookup_exec_congr stmt unchanged now⟩
    · have twice := lookup_exec_congr stmt effect now
      right
      rcases exec_exec target since within before with once | again
      · exact ⟨earlier, since, until', twice.trans once⟩
      · exact ⟨now, from', within, twice.trans again⟩

/-! ### The answer -/

/-- A claim that was won. -/
def Stmt.Won : (stmt : Stmt) → stmt.Ans → Prop
  | claim _ _, won => won = true
  | claimDeferred _ _, row => row.isSome
  | _, _ => False

/-- A statement that writes a row answers by that row. -/
theorem answer_congr (target : stmt.target = some incidentId) {first second : Incidents}
    (same : first.lookup incidentId = second.lookup incidentId) (now : Time) :
    (stmt.exec now first).1 = (stmt.exec now second).1 := by
  cases stmt with
  | claim slot id =>
    obtain rfl := Option.some.inj target
    rw [exec_claim_fst, exec_claim_fst, same]
  | claimDeferred kind id =>
    obtain rfl := Option.some.inj target
    rw [exec_claimDeferred_fst, exec_claimDeferred_fst, same]
  | due limit => cases target
  | pendingFollowups limit => cases target
  | getSlackTs id => cases target
  | getOpenedAt id => cases target
  | incidentMeta id => cases target
  | incidentRow id => cases target
  | _ => rfl

/-- **What a single call answers and leaves.** -/
def Single (stmt : Stmt) (incidentId : String) (now : Time) (before : Incidents) (answer : stmt.Ans)
    (after : Incidents) : Prop :=
  answer = (stmt.exec now before).1 ∧
    after.lookup incidentId = (stmt.exec now before).2.lookup incidentId

/-- **A claim that was won at `now`, and is answered `no`.** -/
def LostClaim (stmt : Stmt) (incidentId : String) (now : Time) (before : Incidents)
    (answer : stmt.Ans) (after : Incidents) : Prop :=
  stmt.Won (stmt.exec now before).1 ∧ ¬ stmt.Won answer ∧
    after.lookup incidentId = (stmt.exec now before).2.lookup incidentId

theorem won_iff {slot : Slot} {guard : Row → Bool} (claims : stmt.claims = some (slot, guard))
    (target : stmt.target = some incidentId) (now : Time) (table : Incidents) :
    stmt.Won (stmt.exec now table).1 ↔
      ∃ row, table.lookup incidentId = some row ∧ claimable slot guard now row = true := by
  cases stmt with
  | claim slot' id =>
    obtain rfl := Option.some.inj target
    obtain ⟨rfl, rfl⟩ := Prod.mk.inj (Option.some.inj claims)
    show ((Stmt.claim slot' id).exec now table).1 = true ↔ _
    rw [exec_claim_fst, Option.any_eq_true]
  | claimDeferred kind id =>
    obtain rfl := Option.some.inj target
    obtain ⟨rfl, rfl⟩ := Prod.mk.inj (Option.some.inj claims)
    show (((Stmt.claimDeferred kind id).exec now table).1).isSome = true ↔ _
    rw [exec_claimDeferred_fst, Option.isSome_map, Option.isSome_filter, Option.any_eq_true]
  | _ => cases claims

theorem change_claim {slot : Slot} {guard : Row → Bool} (claims : stmt.claims = some (slot, guard))
    (now : Time) (row : Row) :
    stmt.change now row =
      if claimable slot guard now row = true then row.setLease slot (some now) else row := by
  cases stmt with
  | claim slot' id =>
    obtain ⟨rfl, rfl⟩ := Prod.mk.inj (Option.some.inj claims)
    rfl
  | claimDeferred kind id =>
    obtain ⟨rfl, rfl⟩ := Prod.mk.inj (Option.some.inj claims)
    rfl
  | _ => cases claims

theorem insert_claim {slot : Slot} {guard : Row → Bool} (claims : stmt.claims = some (slot, guard)) :
    stmt.insert = none := by
  cases stmt <;> first | rfl | cases claims

/-- A claim that was won is lost on the next try. -/
theorem lost_of_won {slot : Slot} {guard : Row → Bool} (claims : stmt.claims = some (slot, guard))
    (target : stmt.target = some incidentId) {first second start : Time} (from' : start ≤ first)
    (within : second ≤ start + minutes leaseMinutes) {table data : Incidents}
    (same : data.lookup incidentId = (stmt.exec first table).2.lookup incidentId)
    (won : stmt.Won (stmt.exec first table).1) :
    LostClaim stmt incidentId first table (stmt.exec second data).1 (stmt.exec second data).2 := by
  obtain ⟨row, found, wins⟩ := (won_iff claims target first table).mp won
  have taken : data.lookup incidentId = some (row.setLease slot (some first)) := by
    rw [same, lookup_exec, if_pos target, found, Option.map_some, Option.some_or,
      change_claim claims, if_pos wins]
  have refused : claimable slot guard second (row.setLease slot (some first)) = false :=
    claimable_setLease from' within
  refine ⟨won, ?_, ?_⟩
  · intro again
    obtain ⟨row', found', wins'⟩ := (won_iff claims target second data).mp again
    obtain rfl := Option.some.inj (taken.symm.trans found')
    rw [refused] at wins'
    cases wins'
  · rw [lookup_exec, if_pos target, taken, Option.map_some, Option.some_or, change_claim claims,
      if_neg (Bool.eq_false_iff.mp refused), ← same, taken]

/-- A claim that was not won has left its row as it was. -/
theorem lookup_of_not_won {slot : Slot} {guard : Row → Bool}
    (claims : stmt.claims = some (slot, guard)) (target : stmt.target = some incidentId) {now : Time}
    {table : Incidents} (lost : ¬ stmt.Won (stmt.exec now table).1) :
    (stmt.exec now table).2.lookup incidentId = table.lookup incidentId := by
  rw [lookup_exec, if_pos target, insert_claim claims, Option.or_none]
  cases found : table.lookup incidentId with
  | none => rfl
  | some row =>
    have refused : ¬ claimable slot guard now row = true := fun wins =>
      lost ((won_iff claims target now table).mpr ⟨row, found, wins⟩)
    rw [Option.map_some, change_claim claims, if_neg refused]

/-- Every other statement on a row answers nothing. -/
theorem answer_of_not_claim (target : stmt.target = some incidentId) (other : stmt.claims = none)
    (first second : stmt.Ans) : first = second := by
  cases stmt with
  | claim slot id => cases other
  | claimDeferred kind id => cases other
  | due limit => cases target
  | pendingFollowups limit => cases target
  | getSlackTs id => cases target
  | getOpenedAt id => cases target
  | incidentMeta id => cases target
  | incidentRow id => cases target
  | _ => rfl

/-- **A try after others**, on a table that they have left as `effect_ran` has it. -/
theorem single_or_lost (target : stmt.target = some incidentId) {start now : Time}
    {before data : Incidents} (from' : start ≤ now) (within : now ≤ start + minutes leaseMinutes)
    (effect : data.lookup incidentId = before.lookup incidentId ∨
      ∃ now, start ≤ now ∧ now ≤ start + minutes leaseMinutes ∧
        data.lookup incidentId = (stmt.exec now before).2.lookup incidentId) :
    ∃ time, start ≤ time ∧ time ≤ start + minutes leaseMinutes ∧
      (Single stmt incidentId time before (stmt.exec now data).1 (stmt.exec now data).2 ∨
        LostClaim stmt incidentId time before (stmt.exec now data).1 (stmt.exec now data).2) := by
  rcases effect with unchanged | ⟨earlier, since, until', effect⟩
  · exact ⟨now, from', within, Or.inl ⟨answer_congr target unchanged now,
      lookup_exec_congr stmt unchanged now⟩⟩
  cases claims : stmt.claims with
  | none =>
    have twice := lookup_exec_congr stmt effect now
    rcases exec_exec target since within before with once | again
    · exact ⟨earlier, since, until', Or.inl ⟨answer_of_not_claim target claims _ _,
        twice.trans once⟩⟩
    · exact ⟨now, from', within, Or.inl ⟨answer_of_not_claim target claims _ _,
        twice.trans again⟩⟩
  | some claim =>
    obtain ⟨slot, guard⟩ := claim
    by_cases won : stmt.Won (stmt.exec earlier before).1
    · exact ⟨earlier, since, until', Or.inr (lost_of_won claims target since within effect won)⟩
    · have unchanged := effect.trans (lookup_of_not_won claims target won)
      exact ⟨now, from', within, Or.inl ⟨answer_congr target unchanged now,
        lookup_exec_congr stmt unchanged now⟩⟩

/-- **What becomes of a statement on an incident**: what a single call does, or a lost claim; and
nothing at all, or what a single call does, when it raises. -/
def Retried (stmt : Stmt) (incidentId : String) (start : Time) (before : Incidents) :
    Except Exn stmt.Ans → Incidents → Prop
  | .ok answer, after => ∃ now, start ≤ now ∧ now ≤ start + minutes leaseMinutes ∧
      (Single stmt incidentId now before answer after ∨
        LostClaim stmt incidentId now before answer after)
  | .error _, after => after.lookup incidentId = before.lookup incidentId ∨
      ∃ now, start ≤ now ∧ now ≤ start + minutes leaseMinutes ∧
        after.lookup incidentId = (stmt.exec now before).2.lookup incidentId

/-- **`execute` on `incidents`**: at most three tries, a second and a half apart in all, that come to
one. -/
theorem retried_once (connectionError : Exn → Bool) (target : stmt.target = some incidentId)
    (start : Time) (before : Link Incidents) :
    ((retriedServer incidentId start connectionError).execute stmt).wp
      (retriedServer incidentId start connectionError).machine
      (fun outcome after => after.tries ≤ before.tries + retryAttempts ∧
        after.slept ≤ before.slept + retryBaseDelay * 3 ∧
        Retried stmt incidentId start before.data outcome after.data) before := by
  refine Prog.wp_mono ?_ (@Server.wp_execute _ (retriedServer incidentId start connectionError) stmt
    before)
  rintro outcome after ⟨made, few, tries, slept, done⟩
  refine ⟨?_, ?_, ?_⟩
  · rw [tries, Nat.add_assoc]
    exact Nat.add_le_add_left few _
  · rw [slept]
    exact Int.add_le_add_left (sleptBefore_le few) _
  · have known := done.known
    cases outcome with
    | ok answer =>
      obtain ⟨n, data, now, ran, time, same, same'⟩ := known
      rw [same, same']
      exact single_or_lost target time.1 time.2 (effect_ran target ran)
    | error exn =>
      obtain ⟨n, ran⟩ := known
      exact effect_ran target ran

end Table

/-! ### A run -/

/-- A connection that breaks after the first statement has run. -/
def breaksOnce : (op : LinkOp Stmt) → Link Incidents →
    Except Exn (op.Ans Stmt.Ans) × Link Incidents
  | .execute stmt, link =>
    if link.isOpen = false then
      (.error (.error "the connection is closed"), { link with tries := link.tries + 1 })
    else if link.tries = 0 then
      (.error (.error "server closed the connection unexpectedly"),
        { link with data := (stmt.exec 0 link.data).2, isOpen := false, tries := link.tries + 1 })
    else
      (.ok (stmt.exec 0 link.data).1,
        { link with data := (stmt.exec 0 link.data).2, tries := link.tries + 1 })
  | .sleep delay, link => (.ok (), { link with slept := link.slept + delay })
  | .close, link => (.ok (), { link with isOpen := false })
  | .connect, link => (.ok (), { link with isOpen := true })

/-- Incident `inc`, ready for a brief. -/
def oneIncident : Link Incidents where
  data := ensureIncidentSql "inc" "Elevated errors" 0 "github" ∅
  isOpen := true

/-- The claim of its brief. -/
def claimOverBroken : Except Exn Bool × Link Incidents :=
  ((retriedServer "inc" 0 fun _ => true).execute (.claim .brief "inc")).run breaksOnce oneIncident

/-- The calls of the connection do what they may. -/
theorem breaksOnce_step (op : LinkOp Stmt) (link : Link Incidents) :
    linkStep (retriedServer "inc" 0 fun _ => true) op link (breaksOnce op link).1
      (breaksOnce op link).2 := by
  cases op with
  | execute stmt =>
    refine ⟨link.data, rfl, ?_⟩
    have time : (0 : Time) ≤ 0 ∧ (0 : Time) ≤ 0 + minutes leaseMinutes := by decide
    by_cases closed : link.isOpen = false
    · have refused : breaksOnce (.execute stmt) link = (.error (.error "the connection is closed"),
          { link with tries := link.tries + 1 }) := if_pos closed
      rw [refused]
      exact ⟨id, rfl, rfl, Or.inl rfl⟩
    have opened : link.isOpen = true := by simpa using closed
    by_cases first : link.tries = 0
    · have broken : breaksOnce (.execute stmt) link =
          (.error (.error "server closed the connection unexpectedly"),
            { link with
              data := (stmt.exec 0 link.data).2
              isOpen := false
              tries := link.tries + 1 }) := (if_neg closed).trans (if_pos first)
      rw [broken]
      exact ⟨fun _ => opened, rfl, rfl, Or.inr ⟨rfl, opened, 0, time, rfl⟩⟩
    · have answered : breaksOnce (.execute stmt) link = (.ok (stmt.exec 0 link.data).1,
          { link with data := (stmt.exec 0 link.data).2, tries := link.tries + 1 }) :=
        (if_neg closed).trans (if_neg first)
      rw [answered]
      exact ⟨opened, 0, time, rfl, rfl⟩
  | sleep delay => exact ⟨rfl, rfl⟩
  | close => exact Or.inr rfl
  | connect => exact rfl

/-- The claim is won on the first try and answered `no` on the second, half a second later. -/
theorem retried_once_lost : claimOverBroken.1 = .ok false ∧ claimOverBroken.2.slept = 500000 ∧
    Retried (.claim .brief "inc") "inc" 0 oneIncident.data (.ok false) claimOverBroken.2.data := by
  have answered : claimOverBroken.1 = .ok false := by rfl
  have once : Retried (.claim .brief "inc") "inc" 0 oneIncident.data claimOverBroken.1
      claimOverBroken.2.data :=
    (@Prog.wp_run (retriedServer "inc" 0 fun _ => true).sig Exn _ _
      (retriedServer "inc" 0 fun _ => true).machine breaksOnce _ _ _ breaksOnce_step
      (@retried_once (.claim .brief "inc") "inc" (fun _ => true) rfl 0 oneIncident)).2.2
  rw [answered] at once
  exact ⟨answered, by rfl, once⟩

end Freshet.Autopilot
