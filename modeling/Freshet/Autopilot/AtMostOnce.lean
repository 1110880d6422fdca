/-
**Delivery is at most once and in order.**

`promptly` is the system of all the workers under the one promise the protocol needs: a worker that
holds a claim is not killed, its mark or release succeeds, and the clock does not pass the end of
its lease while it holds the claim. Everything else may happen: any events in any order and number,
any interleaving, statements that fail or whose answer is lost, sinks and composers that raise.

The invariant `Related` ties the table, the claims held and the log to the phases of the lease
protocol. The heart is `Holds`: while a worker holds a claim, the lease column is the time it took
it, so no other claim of the slot can win before the lease has run out; and nobody but the holder
writes the lease or the delivered column.
-/

import Freshet.Autopilot.LeaseProtocol
import Freshet.Autopilot.RowEffect
import Mathlib.Data.List.Count

set_option linter.unusedSectionVars false

namespace Freshet.Autopilot

open Freshet.Lib

/-- A post for a slot of an incident. -/
def Entry.isPost (incidentId : String) (slot : Slot) : Entry → Bool
  | .posted about kind _ => about = incidentId && kind = slot
  | .recorded _ _ _ => false

/-- **The workers, each closing its claims within the lease.** -/
def promptly (W : Type) [DecidableEq W] : System sig Exn (World W) W where
  job _ program := ∃ job : Job, program = job.program
  step worker op world answer after :=
    world.Calls worker op answer after ∧ (Certain op → ∃ value, answer = .ok value)
  env world after :=
    ∃ now, world.now ≤ now ∧ after = { world with now } ∧
      ∀ worker claim, world.holding worker = some claim →
        now ≤ claim.taken + minutes leaseMinutes
  kill worker world := world.holding worker = none

/-! ### The invariant -/

namespace Phase

/-- The incident and slot a worker is busy with. -/
def item : Phase → Option (String × Slot)
  | free => none
  | claimed incidentId slot _ => some (incidentId, slot)
  | posted incidentId slot => some (incidentId, slot)

theorem eq_free_of_item {phase : Phase} (none : phase.item = none) : phase = .free := by
  cases phase with
  | free => rfl
  | claimed => cases none
  | posted => cases none

/-- A call that fails leaves the phase, unless it closes a claim. -/
theorem next_error {op : Op} (uncertain : ¬ Certain op) (phase : Phase) (exn : Exn) :
    phase.next op (.error exn) = phase := by
  cases op with
  | sql stmt =>
    cases stmt with
    | getSlackTs => cases phase <;> rfl
    | release | markBrief | markFollowup => exact (uncertain trivial).elim
    | _ => rfl
  | _ => rfl

theorem free_of_permits_claim {phase : Phase} {op : Op} (permitted : phase.permits op)
    (claim : IsClaim op) : phase = .free := by
  cases phase with
  | free => rfl
  | claimed incidentId slot thread =>
    rcases permitted with read | rfl | rfl | ⟨findings, under, rfl, -⟩
    · cases op with
      | sql stmt => cases stmt <;> first | exact read.elim | exact claim.elim
      | _ => exact claim.elim
    · exact claim.elim
    · exact claim.elim
    · exact claim.elim
  | posted incidentId slot =>
    rcases permitted with read | marks
    · cases op with
      | sql stmt => cases stmt <;> first | exact read.elim | exact claim.elim
      | _ => exact claim.elim
    · cases slot with
      | brief => obtain ⟨slackTs, channelId, rfl⟩ := marks; exact claim.elim
      | followup kind => obtain rfl := marks; exact claim.elim

theorem claimed_of_permits_release {phase : Phase} {incidentId : String} {slot : Slot}
    (permitted : phase.permits (.sql (.release slot incidentId))) :
    ∃ thread, phase = .claimed incidentId slot thread := by
  cases phase with
  | free => simp [permits, IsPlain, IsRead, IsClaim] at permitted
  | claimed about kind thread =>
    obtain ⟨rfl, rfl⟩ : slot = kind ∧ incidentId = about := by
      simpa [permits, IsRead] using permitted
    exact ⟨thread, rfl⟩
  | posted about kind => cases kind <;> simp [permits, IsRead, Marks] at permitted

theorem posted_of_permits_markBrief {phase : Phase} {incidentId : String}
    {slackTs channelId : Option String}
    (permitted : phase.permits (.sql (.markBrief slackTs channelId incidentId))) :
    phase = .posted incidentId .brief := by
  cases phase with
  | free => simp [permits, IsPlain, IsRead, IsClaim] at permitted
  | claimed about kind thread => simp [permits, IsRead] at permitted
  | posted about slot => cases slot <;> simp_all [permits, IsRead, Marks]

theorem posted_of_permits_markFollowup {phase : Phase} {incidentId : String} {kind : Followup}
    (permitted : phase.permits (.sql (.markFollowup kind incidentId))) :
    phase = .posted incidentId (.followup kind) := by
  cases phase with
  | free => simp [permits, IsPlain, IsRead, IsClaim] at permitted
  | claimed about kind thread => simp [permits, IsRead] at permitted
  | posted about slot => cases slot <;> simp_all [permits, IsRead, Marks]

theorem claimed_of_permits_deliver {phase : Phase} {incidentId : String} {slot : Slot}
    {findings : Findings} {under : Option String}
    (permitted : phase.permits (.deliver incidentId slot findings under)) :
    ∃ thread, phase = .claimed incidentId slot thread ∧
      ∀ kind, slot = .followup kind → thread = some under := by
  cases phase with
  | free => simp [permits, IsPlain, IsRead, IsClaim] at permitted
  | claimed about kind thread =>
    rcases permitted with read | impossible | impossible | ⟨other, between, same, read⟩
    · exact read.elim
    · cases impossible
    · cases impossible
    · obtain ⟨rfl, rfl, rfl, rfl⟩ := Op.deliver.inj same
      exact ⟨thread, rfl, read⟩
  | posted about kind => cases kind <;> simp [permits, IsRead, Marks] at permitted

end Phase

section Invariant

variable {W : Type} [DecidableEq W]

/-- **A worker holds a claim**: its lease stands in the row, has not run out, and the slot is not
delivered; a follow-up's brief is. -/
def Holds (world : World W) (worker : W) (incidentId : String) (slot : Slot) : Prop :=
  ∃ taken row, world.holding worker = some ⟨incidentId, slot, taken⟩ ∧
    world.now ≤ taken + minutes leaseMinutes ∧ world.incidents.lookup incidentId = some row ∧
    row.lease slot = some taken ∧ row.delivered slot = none ∧
    (slot ≠ .brief → (row.delivered .brief).isSome)

/-- No row says the slot is delivered. -/
def Undelivered (world : World W) (incidentId : String) (slot : Slot) : Prop :=
  ∀ row, world.incidents.lookup incidentId = some row → row.delivered slot = none

/-- What an entry needs of the entries before it: a follow-up the recorded brief under whose
`slack_ts` it is threaded, a record the post it records. -/
def Entry.Follows : Entry → List Entry → Prop
  | .posted _ .brief _, _ => True
  | .posted incidentId (.followup _) thread, older => .recorded incidentId .brief thread ∈ older
  | .recorded incidentId slot _, older => ∃ thread, .posted incidentId slot thread ∈ older

/-- Every entry of the log follows what came before it. -/
def InOrder : List Entry → Prop
  | [] => True
  | entry :: older => entry.Follows older ∧ InOrder older

/-- **The invariant** that ties the world to the workers' phases. -/
structure Related (world : World W) (phases : W → Phase) : Prop where
  free : ∀ worker, (phases worker).item = none → world.holding worker = none
  held : ∀ worker incidentId slot, (phases worker).item = some (incidentId, slot) →
    Holds world worker incidentId slot
  knows : ∀ worker incidentId kind thread,
    phases worker = .claimed incidentId (.followup kind) (some thread) →
      ∀ row, world.incidents.lookup incidentId = some row → row.slackTs = thread
  alone : ∀ first second item, (phases first).item = some item →
    (phases second).item = some item → first = second
  once : ∀ incidentId slot, world.log.countP (Entry.isPost incidentId slot) ≤ 1
  unposted : ∀ incidentId slot, Undelivered world incidentId slot →
    (∀ worker, phases worker ≠ .posted incidentId slot) →
      world.log.countP (Entry.isPost incidentId slot) = 0
  recorded : ∀ incidentId row, world.incidents.lookup incidentId = some row →
    (row.delivered .brief).isSome → .recorded incidentId .brief row.slackTs ∈ world.log
  recordedOnly : ∀ incidentId slackTs, .recorded incidentId .brief slackTs ∈ world.log →
    ∃ row, world.incidents.lookup incidentId = some row ∧ (row.delivered .brief).isSome ∧
      row.slackTs = slackTs
  posts : ∀ worker incidentId slot, phases worker = .posted incidentId slot →
    ∃ thread, .posted incidentId slot thread ∈ world.log
  delivered : ∀ incidentId row slot, world.incidents.lookup incidentId = some row →
    (row.delivered slot).isSome → ∃ thread, .posted incidentId slot thread ∈ world.log
  inOrder : InOrder world.log

theorem InOrder.tail {newer older : List Entry} (ordered : InOrder (newer ++ older)) :
    InOrder older := by
  induction newer with
  | nil => exact ordered
  | cons first newer ih => exact ih ordered.2

theorem InOrder.follows {entry : Entry} {newer older : List Entry}
    (ordered : InOrder (newer ++ entry :: older)) : entry.Follows older :=
  ordered.tail.1

theorem related_init (now : Time) : Related (World.init now : World W) fun _ => .free where
  free _ _ := rfl
  held _ _ _ busy := nomatch busy
  knows _ _ _ _ busy := nomatch busy
  alone _ _ _ busy := nomatch busy
  once _ _ := Nat.zero_le _
  unposted _ _ _ _ := rfl
  recorded _ _ found := nomatch found
  recordedOnly _ _ member := nomatch member
  posts _ _ _ posted := nomatch posted
  delivered _ _ _ found := nomatch found
  inOrder := trivial

/-! ### Steps that leave the deliveries alone -/

/-- A change of the table that keeps every row with its deliveries and thread, keeps the leases that
are held, and adds only rows with nothing delivered. -/
structure Quiet (world : World W) (after : Incidents) : Prop where
  kept : ∀ incidentId row, world.incidents.lookup incidentId = some row →
    ∃ row', after.lookup incidentId = some row'
  same : ∀ incidentId row row', world.incidents.lookup incidentId = some row →
    after.lookup incidentId = some row' →
      (∀ slot, row'.delivered slot = row.delivered slot) ∧ row'.slackTs = row.slackTs
  lease : ∀ worker incidentId slot, Holds world worker incidentId slot →
    ∀ row row', world.incidents.lookup incidentId = some row →
      after.lookup incidentId = some row' → row'.lease slot = row.lease slot
  fresh : ∀ incidentId row', world.incidents.lookup incidentId = none →
    after.lookup incidentId = some row' → ∀ slot, row'.delivered slot = none

theorem Quiet.holds {world : World W} {after : Incidents} (quiet : Quiet world after)
    {worker : W} {incidentId : String} {slot : Slot} (holds : Holds world worker incidentId slot) :
    Holds { world with incidents := after } worker incidentId slot := by
  have whole := holds
  obtain ⟨taken, row, holding, inTime, found, lease, undelivered, briefed⟩ := holds
  obtain ⟨row', found'⟩ := quiet.kept _ _ found
  obtain ⟨delivered, -⟩ := quiet.same _ _ _ found found'
  refine ⟨taken, row', holding, inTime, found', ?_, ?_, ?_⟩
  · rw [quiet.lease _ _ _ whole _ _ found found', lease]
  · rw [delivered, undelivered]
  · intro other
    rw [delivered]
    exact briefed other

theorem Quiet.undelivered {world : World W} {after : Incidents} (quiet : Quiet world after)
    {incidentId : String} {slot : Slot}
    (undelivered : Undelivered { world with incidents := after } incidentId slot) :
    Undelivered world incidentId slot := by
  intro row found
  obtain ⟨row', found'⟩ := quiet.kept _ _ found
  rw [← (quiet.same _ _ _ found found').1]
  exact undelivered row' found'

/-- The row before a quiet change, when the row after it has its brief delivered. -/
theorem Quiet.briefed {world : World W} {after : Incidents} (quiet : Quiet world after)
    {incidentId : String} {row' : Row} (found' : after.lookup incidentId = some row')
    (briefed : (row'.delivered .brief).isSome) :
    ∃ row, world.incidents.lookup incidentId = some row ∧ (row.delivered .brief).isSome ∧
      row.slackTs = row'.slackTs := by
  cases found : world.incidents.lookup incidentId with
  | none => simp [quiet.fresh _ _ found found'] at briefed
  | some row =>
    obtain ⟨delivered, slackTs⟩ := quiet.same _ _ _ found found'
    exact ⟨row, rfl, by rw [← delivered]; exact briefed, slackTs.symm⟩

theorem Related.quiet {world : World W} {phases : W → Phase} {after : Incidents}
    (related : Related world phases) (quiet : Quiet world after) :
    Related { world with incidents := after } phases where
  free := related.free
  held worker incidentId slot busy := quiet.holds (related.held worker incidentId slot busy)
  knows worker incidentId kind thread claimed row' found' := by
    obtain ⟨_, row, -, -, found, -⟩ :=
      related.held worker incidentId (.followup kind) (by rw [claimed]; rfl)
    rw [(quiet.same _ _ _ found found').2]
    exact related.knows worker incidentId kind thread claimed row found
  alone := related.alone
  once := related.once
  unposted incidentId slot undelivered nobody :=
    related.unposted incidentId slot (quiet.undelivered undelivered) nobody
  recorded incidentId row' found' briefed := by
    obtain ⟨row, found, briefedBefore, slackTs⟩ := quiet.briefed found' briefed
    rw [← slackTs]
    exact related.recorded incidentId row found briefedBefore
  recordedOnly incidentId slackTs member := by
    obtain ⟨row, found, briefed, rfl⟩ := related.recordedOnly incidentId slackTs member
    obtain ⟨row', found'⟩ := quiet.kept _ _ found
    obtain ⟨delivered, same⟩ := quiet.same _ _ _ found found'
    exact ⟨row', found', by rw [delivered]; exact briefed, same⟩
  posts := related.posts
  delivered incidentId row' slot found' delivered := by
    cases found : world.incidents.lookup incidentId with
    | none => simp [quiet.fresh _ _ found found'] at delivered
    | some row =>
      refine related.delivered incidentId row slot found ?_
      rw [← (quiet.same _ _ _ found found').1]
      exact delivered
  inOrder := related.inOrder

/-- A held lease is not free. -/
theorem Holds.not_leaseFree {world : World W} {worker : W} {incidentId : String} {slot : Slot}
    (holds : Holds world worker incidentId slot) {row : Row}
    (found : world.incidents.lookup incidentId = some row) :
    leaseFree world.now (row.lease slot) = false := by
  obtain ⟨taken, row', -, inTime, found', lease, -⟩ := holds
  obtain rfl : row' = row := Option.some_injective _ (found'.symm.trans found)
  rw [lease]
  simp only [leaseFree, Option.all_some, decide_eq_false_iff_not, not_lt]
  exact Int.sub_right_le_of_le_add inTime

/-- **A statement that records nothing and releases nothing held is quiet.** A claim cannot win a
slot that somebody holds. -/
theorem quiet_exec (world : World W) {stmt : Stmt} (marks : stmt.marks = none)
    (unheld : ∀ worker incidentId slot, stmt.target = some incidentId →
      stmt.releases = some slot → ¬ Holds world worker incidentId slot) :
    Quiet world (stmt.exec world.now world.incidents).2 where
  kept incidentId row found := by
    rw [lookup_exec, found]
    split_ifs
    · exact ⟨_, rfl⟩
    · exact ⟨_, rfl⟩
  same incidentId row row' found found' := by
    rw [lookup_exec, found] at found'
    split_ifs at found'
    · obtain rfl := Option.some_injective _ found'
      exact ⟨fun slot => by simp [delivered_change, marks], slackTs_change _ _ _ (by simp [marks])⟩
    · obtain rfl := Option.some_injective _ found'
      exact ⟨fun _ => rfl, rfl⟩
  lease worker incidentId slot holds row row' found found' := by
    rw [lookup_exec, found] at found'
    split_ifs at found' with target
    · obtain rfl := Option.some_injective _ found'
      rcases lease_change stmt world.now row slot with same | released | ⟨guard, -, wins⟩
      · exact same
      · exact (unheld worker incidentId slot target released holds).elim
      · simp [claimable, holds.not_leaseFree found] at wins
    · obtain rfl := Option.some_injective _ found'
      rfl
  fresh incidentId row' found found' slot := by
    rw [lookup_exec, found] at found'
    split_ifs at found'
    cases stmt with
    | ensureIncident =>
      obtain rfl := Option.some_injective _ found'
      rcases slot with _ | ⟨_ | _⟩ <;> rfl
    | _ => cases found'

/-! ### Taking, closing and relabelling a claim -/

section Update

variable {phases : W → Phase} {worker : W} {phase : Phase}

/-- Nobody's item changes where the worker keeps its own. -/
theorem item_update (same : phase.item = (phases worker).item) (other : W) :
    (Function.update phases worker phase other).item = (phases other).item := by
  by_cases here : other = worker
  · subst here
    rw [Function.update_self, same]
  · rw [Function.update_of_ne here]

/-- Who has posted had posted before, unless the worker just did. -/
theorem posted_of_update (unposted : ∀ about kind, phase ≠ .posted about kind) {other : W}
    {about : String} {kind : Slot}
    (posted : Function.update phases worker phase other = .posted about kind) :
    phases other = .posted about kind := by
  by_cases here : other = worker
  · subst here
    rw [Function.update_self] at posted
    exact absurd posted (unposted about kind)
  · rwa [Function.update_of_ne here] at posted

/-- Nobody had posted where nobody has now, unless the worker had. -/
theorem unposted_of_update {about : String} {kind : Slot}
    (unposted : phases worker ≠ .posted about kind)
    (nobody : ∀ other, Function.update phases worker phase other ≠ .posted about kind)
    (other : W) : phases other ≠ .posted about kind := by
  by_cases here : other = worker
  · rwa [here]
  · intro posted
    exact nobody other (by rw [Function.update_of_ne here, posted])

end Update

/-- A worker that was free takes a slot that nobody holds. -/
theorem Related.take {world : World W} {phases : W → Phase} (related : Related world phases)
    {worker : W} {incidentId : String} {slot : Slot} {row : Row}
    {thread : Option (Option String)} (free : (phases worker).item = none)
    (unheld : ∀ other, (phases other).item ≠ some (incidentId, slot))
    (found : world.incidents.lookup incidentId = some row)
    (lease : row.lease slot = some world.now) (undelivered : row.delivered slot = none)
    (briefed : slot ≠ .brief → (row.delivered .brief).isSome)
    (read : ∀ under, thread = some under → row.slackTs = under) :
    Related
      { world with
        holding := Function.update world.holding worker (some ⟨incidentId, slot, world.now⟩) }
      (Function.update phases worker (.claimed incidentId slot thread)) := by
  have unposted : ∀ about kind, phases worker ≠ .posted about kind := by
    intro about kind posted
    simp [posted, Phase.item] at free
  refine ⟨?_, ?_, ?_, ?_, related.once, ?_, related.recorded, related.recordedOnly, ?_,
    related.delivered, related.inOrder⟩
  · intro other idle
    by_cases same : other = worker
    · subst same
      simp [Phase.item] at idle
    · rw [Function.update_of_ne same] at idle
      exact (Function.update_of_ne same ..).trans (related.free other idle)
  · intro other about kind busy
    by_cases same : other = worker
    · subst same
      simp only [Function.update_self, Phase.item, Option.some.injEq, Prod.mk.injEq] at busy
      obtain ⟨rfl, rfl⟩ := busy
      refine ⟨world.now, row, Function.update_self .., ?_, found, lease, undelivered, briefed⟩
      exact Int.le_add_of_nonneg_right (by decide)
    · rw [Function.update_of_ne same] at busy
      obtain ⟨taken, held, holding, rest⟩ := related.held other about kind busy
      exact ⟨taken, held, (Function.update_of_ne same ..).trans holding, rest⟩
  · intro other about kind under claimed held atAbout
    by_cases same : other = worker
    · subst same
      simp only [Function.update_self, Phase.claimed.injEq] at claimed
      obtain ⟨rfl, rfl, rfl⟩ := claimed
      obtain rfl : row = held := Option.some_injective _ (found.symm.trans atAbout)
      exact read under rfl
    · rw [Function.update_of_ne same] at claimed
      exact related.knows other about kind under claimed held atAbout
  · intro first second item one two
    by_cases sameFirst : first = worker <;> by_cases sameSecond : second = worker
    · rw [sameFirst, sameSecond]
    · subst sameFirst
      rw [Function.update_self] at one
      rw [Function.update_of_ne sameSecond] at two
      obtain rfl := Option.some_injective _ one
      exact (unheld second two).elim
    · subst sameSecond
      rw [Function.update_self] at two
      rw [Function.update_of_ne sameFirst] at one
      obtain rfl := Option.some_injective _ two
      exact (unheld first one).elim
    · rw [Function.update_of_ne sameFirst] at one
      rw [Function.update_of_ne sameSecond] at two
      exact related.alone first second item one two
  · intro about kind undeliveredAt nobody
    exact related.unposted about kind undeliveredAt (unposted_of_update (unposted about kind) nobody)
  · intro other about kind posted
    exact related.posts other about kind (posted_of_update (fun _ _ => Phase.noConfusion) posted)

/-- A worker that has not posted gives its claim up. -/
theorem Related.close {world : World W} {phases : W → Phase} (related : Related world phases)
    {worker : W} (unposted : ∀ incidentId slot, phases worker ≠ .posted incidentId slot) :
    Related { world with holding := Function.update world.holding worker none }
      (Function.update phases worker .free) := by
  have others : ∀ other, (Function.update phases worker .free other).item ≠ none →
      other ≠ worker ∧ Function.update phases worker .free other = phases other := by
    intro other busy
    by_cases same : other = worker
    · subst same
      simp [Phase.item] at busy
    · exact ⟨same, Function.update_of_ne same ..⟩
  refine ⟨?_, ?_, ?_, ?_, related.once, ?_, related.recorded, related.recordedOnly, ?_,
    related.delivered, related.inOrder⟩
  · intro other idle
    by_cases same : other = worker
    · subst same
      exact Function.update_self ..
    · rw [Function.update_of_ne same] at idle
      exact (Function.update_of_ne same ..).trans (related.free other idle)
  · intro other incidentId slot busy
    obtain ⟨same, eq⟩ := others other (by simp [busy])
    rw [eq] at busy
    obtain ⟨taken, row, holding, rest⟩ := related.held other incidentId slot busy
    exact ⟨taken, row, (Function.update_of_ne same ..).trans holding, rest⟩
  · intro other incidentId kind thread claimed
    obtain ⟨-, eq⟩ := others other (by simp [claimed, Phase.item])
    rw [eq] at claimed
    exact related.knows other incidentId kind thread claimed
  · intro first second item one two
    obtain ⟨-, eqFirst⟩ := others first (by simp [one])
    obtain ⟨-, eqSecond⟩ := others second (by simp [two])
    rw [eqFirst] at one
    rw [eqSecond] at two
    exact related.alone first second item one two
  · intro incidentId slot undelivered nobody
    exact related.unposted incidentId slot undelivered
      (unposted_of_update (unposted incidentId slot) nobody)
  · intro other incidentId slot posted
    exact related.posts other incidentId slot (posted_of_update (fun _ _ => Phase.noConfusion) posted)

/-- A worker with a claim has read the thread of its incident. -/
theorem Related.learn {world : World W} {phases : W → Phase} (related : Related world phases)
    {worker : W} {incidentId : String} {slot : Slot} {before : Option (Option String)}
    {thread : Option String} (claimed : phases worker = .claimed incidentId slot before)
    (read : ∀ row, world.incidents.lookup incidentId = some row → row.slackTs = thread) :
    Related world (Function.update phases worker (.claimed incidentId slot (some thread))) := by
  have item := @item_update W _ phases worker (.claimed incidentId slot (some thread))
    (by rw [claimed]; rfl)
  have unposted : ∀ about kind, phases worker ≠ .posted about kind := by
    intro about kind posted
    rw [claimed] at posted
    cases posted
  refine ⟨?_, ?_, ?_, ?_, related.once, ?_, related.recorded, related.recordedOnly, ?_,
    related.delivered, related.inOrder⟩
  · intro other idle
    exact related.free other (by rw [← item]; exact idle)
  · intro other about kind busy
    exact related.held other about kind (by rw [← item]; exact busy)
  · intro other about kind under holds
    by_cases same : other = worker
    · subst same
      simp only [Function.update_self, Phase.claimed.injEq, Option.some.injEq] at holds
      obtain ⟨rfl, rfl, rfl⟩ := holds
      exact read
    · rw [Function.update_of_ne same] at holds
      exact related.knows other about kind under holds
  · intro first second about one two
    rw [item] at one two
    exact related.alone first second about one two
  · intro about kind undelivered nobody
    exact related.unposted about kind undelivered (unposted_of_update (unposted about kind) nobody)
  · intro other about kind posted
    exact related.posts other about kind (posted_of_update (fun _ _ => Phase.noConfusion) posted)

/-! ### Posting and recording -/

/-- **Posting the claimed item.** Its slot was undelivered and nobody else had claimed it, so
nothing had been posted for it; a follow-up goes under the thread its brief was recorded with. -/
theorem Related.post {world : World W} {phases : W → Phase} (related : Related world phases)
    {worker : W} {incidentId : String} {slot : Slot} {thread : Option (Option String)}
    {under : Option String} (claimed : phases worker = .claimed incidentId slot thread)
    (read : ∀ kind, slot = .followup kind → thread = some under) :
    Related { world with log := .posted incidentId slot under :: world.log }
      (Function.update phases worker (.posted incidentId slot)) := by
  have item := @item_update W _ phases worker (.posted incidentId slot) (by rw [claimed]; rfl)
  have unposted : ∀ about kind, phases worker ≠ .posted about kind := by
    intro about kind posted
    rw [claimed] at posted
    cases posted
  have mine : (phases worker).item = some (incidentId, slot) := by rw [claimed]; rfl
  have holds := related.held worker incidentId slot mine
  have never : world.log.countP (Entry.isPost incidentId slot) = 0 := by
    refine related.unposted incidentId slot ?_ fun other posted => ?_
    · obtain ⟨taken, held, -, -, foundHeld, -, undelivered, -⟩ := holds
      intro row found
      obtain rfl : held = row := Option.some_injective _ (foundHeld.symm.trans found)
      exact undelivered
    · obtain rfl := related.alone other worker (incidentId, slot) (by rw [posted]; rfl) mine
      exact unposted incidentId slot posted
  refine ⟨?_, ?_, ?_, ?_, ?_, ?_, ?_, ?_, ?_, ?_, ?_⟩
  · intro other idle
    exact related.free other (by rw [← item]; exact idle)
  · intro other about kind busy
    exact related.held other about kind (by rw [← item]; exact busy)
  · intro other about kind between holding
    by_cases same : other = worker
    · subst same
      rw [Function.update_self] at holding
      cases holding
    · rw [Function.update_of_ne same] at holding
      exact related.knows other about kind between holding
  · intro first second about one two
    rw [item] at one two
    exact related.alone first second about one two
  · intro about kind
    rw [List.countP_cons]
    by_cases same : incidentId = about ∧ slot = kind
    · obtain ⟨rfl, rfl⟩ := same
      simp [never, Entry.isPost]
    · simpa [Entry.isPost, same] using related.once about kind
  · intro about kind undelivered nobody
    have other : ¬ (incidentId = about ∧ slot = kind) := by
      rintro ⟨rfl, rfl⟩
      exact nobody worker (Function.update_self ..)
    have before := related.unposted about kind undelivered
      (unposted_of_update (unposted about kind) nobody)
    rw [List.countP_cons, before]
    simp [Entry.isPost, other]
  · intro about row found briefed
    exact List.mem_cons_of_mem _ (related.recorded about row found briefed)
  · intro about slackTs member
    rcases List.mem_cons.mp member with head | tail
    · cases head
    · exact related.recordedOnly about slackTs tail
  · intro other about kind posted
    by_cases same : other = worker
    · subst same
      rw [Function.update_self] at posted
      obtain ⟨rfl, rfl⟩ := Phase.posted.inj posted
      exact ⟨under, List.mem_cons_self⟩
    · rw [Function.update_of_ne same] at posted
      obtain ⟨between, member⟩ := related.posts other about kind posted
      exact ⟨between, List.mem_cons_of_mem _ member⟩
  · intro about row kind found delivered
    obtain ⟨between, member⟩ := related.delivered about row kind found delivered
    exact ⟨between, List.mem_cons_of_mem _ member⟩
  · refine ⟨?_, related.inOrder⟩
    cases slot with
    | brief => trivial
    | followup kind =>
      obtain rfl := read kind rfl
      obtain ⟨taken, row, -, -, found, -, -, briefed⟩ := holds
      have known := related.knows worker incidentId kind under claimed row found
      rw [Entry.Follows, ← known]
      exact related.recorded incidentId row found (briefed (by simp))

/-- A mark of a slot: one row changes, and in it the slot's delivered column and, for a brief, the
thread. -/
structure Marked (before after : Incidents) (incidentId : String) (slot : Slot)
    (row row' : Row) : Prop where
  found : before.lookup incidentId = some row
  lookup : ∀ about, after.lookup about =
    if about = incidentId then some row' else before.lookup about
  own : (row'.delivered slot).isSome
  others : ∀ other, other ≠ slot → row'.delivered other = row.delivered other
  lease : ∀ other, row'.lease other = row.lease other
  thread : slot ≠ .brief → row'.slackTs = row.slackTs

/-- What a row says after a mark, read from what it said before. -/
theorem Marked.cases {before after : Incidents} {incidentId : String} {slot : Slot}
    {row row' : Row} (marked : Marked before after incidentId slot row row') {about : String}
    {found : Row} (there : after.lookup about = some found) :
    (about = incidentId ∧ found = row') ∨ (about ≠ incidentId ∧ before.lookup about = some found) := by
  rw [marked.lookup] at there
  split_ifs at there with same
  · exact Or.inl ⟨same, (Option.some_injective _ there).symm⟩
  · exact Or.inr ⟨same, there⟩

/-- **Recording what was posted.** The holder marks its own slot. When the slot is the brief's,
nobody else holds a claim on the incident, so nobody has read a thread that the mark replaces. -/
theorem Related.mark {world : World W} {phases : W → Phase} (related : Related world phases)
    {worker : W} {incidentId : String} {slot : Slot} {after : Incidents} {row row' : Row}
    (posted : phases worker = .posted incidentId slot)
    (marked : Marked world.incidents after incidentId slot row row') :
    Related
      { world with
        incidents := after
        holding := Function.update world.holding worker none
        log := .recorded incidentId slot row'.slackTs :: world.log }
      (Function.update phases worker .free) := by
  have mine : (phases worker).item = some (incidentId, slot) := by rw [posted]; rfl
  have undelivered : row.delivered slot = none := by
    obtain ⟨taken, held, -, -, foundHeld, -, undelivered, -⟩ := related.held worker _ _ mine
    obtain rfl : held = row := Option.some_injective _ (foundHeld.symm.trans marked.found)
    exact undelivered
  have busy_before : ∀ {other item},
      (Function.update phases worker .free other).item = some item →
      other ≠ worker ∧ (phases other).item = some item ∧ item ≠ (incidentId, slot) := by
    intro other item busy
    by_cases same : other = worker
    · subst same
      simp [Phase.item] at busy
    · rw [Function.update_of_ne same] at busy
      refine ⟨same, busy, ?_⟩
      rintro rfl
      exact same (related.alone other worker _ busy mine)
  -- a delivered brief stays delivered
  have briefed_after : (row.delivered .brief).isSome → (row'.delivered .brief).isSome := by
    intro briefed
    by_cases brief : Slot.brief = slot
    · rw [brief]
      exact marked.own
    · rw [marked.others _ brief]
      exact briefed
  refine ⟨?_, ?_, ?_, ?_, ?_, ?_, ?_, ?_, ?_, ?_, ?_⟩
  · intro other idle
    by_cases same : other = worker
    · subst same
      exact Function.update_self ..
    · rw [Function.update_of_ne same] at idle
      exact (Function.update_of_ne same ..).trans (related.free other idle)
  · intro other about kind busy
    obtain ⟨same, busy, different⟩ := busy_before busy
    obtain ⟨taken, held, holding, inTime, found, lease, open', briefed⟩ :=
      related.held other about kind busy
    by_cases here : about = incidentId
    · subst here
      obtain rfl : held = row := Option.some_injective _ (found.symm.trans marked.found)
      have kindNe : kind ≠ slot := fun eq => different (by rw [eq])
      refine ⟨taken, row', (Function.update_of_ne same ..).trans holding, inTime, ?_, ?_, ?_, ?_⟩
      · rw [marked.lookup, if_pos rfl]
      · rw [marked.lease, lease]
      · rw [marked.others _ kindNe, open']
      · exact fun other => briefed_after (briefed other)
    · refine ⟨taken, held, (Function.update_of_ne same ..).trans holding, inTime, ?_, lease, open',
        briefed⟩
      rw [marked.lookup, if_neg here, found]
  · intro other about kind thread claimed found there
    obtain ⟨same, busy, -⟩ := busy_before (by rw [claimed]; rfl)
    rw [Function.update_of_ne same] at claimed
    rcases marked.cases there with ⟨rfl, rfl⟩ | ⟨-, before⟩
    · have notBrief : slot ≠ .brief := by
        rintro rfl
        obtain ⟨_, held, -, -, foundHeld, -, -, briefed⟩ := related.held other _ _ busy
        obtain rfl : held = row := Option.some_injective _ (foundHeld.symm.trans marked.found)
        simp [undelivered] at briefed
      rw [marked.thread notBrief]
      exact related.knows other _ kind thread claimed row marked.found
    · exact related.knows other about kind thread claimed found before
  · intro first second item one two
    exact related.alone first second item (busy_before one).2.1 (busy_before two).2.1
  · intro about kind
    rw [List.countP_cons]
    simpa [Entry.isPost] using related.once about kind
  · intro about kind open' nobody
    have notMine : (about, kind) ≠ (incidentId, slot) := by
      intro eq
      obtain ⟨rfl, rfl⟩ := Prod.mk.inj eq
      have closed := open' row' (by rw [marked.lookup, if_pos rfl])
      simpa [closed] using marked.own
    rw [List.countP_cons]
    simp only [Entry.isPost, Bool.false_eq_true, if_false, Nat.add_zero]
    refine related.unposted about kind ?_ fun other busy => ?_
    · intro found there
      by_cases here : about = incidentId
      · subst here
        obtain rfl : row = found := Option.some_injective _ (marked.found.symm.trans there)
        have kindNe : kind ≠ slot := fun eq => notMine (by rw [eq])
        rw [← marked.others _ kindNe]
        exact open' row' (by rw [marked.lookup, if_pos rfl])
      · exact open' found (by rw [marked.lookup, if_neg here, there])
    · by_cases same : other = worker
      · subst same
        rw [posted] at busy
        obtain ⟨rfl, rfl⟩ := Phase.posted.inj busy
        exact notMine rfl
      · exact nobody other (by rw [Function.update_of_ne same, busy])
  · intro about found there briefed
    rcases marked.cases there with ⟨rfl, rfl⟩ | ⟨-, before⟩
    · by_cases brief : slot = .brief
      · subst brief
        exact List.mem_cons_self
      · rw [marked.others _ (Ne.symm brief)] at briefed
        rw [marked.thread brief]
        exact List.mem_cons_of_mem _ (related.recorded about row marked.found briefed)
    · exact List.mem_cons_of_mem _ (related.recorded about found before briefed)
  · intro about slackTs member
    rcases List.mem_cons.mp member with head | tail
    · obtain ⟨rfl, rfl, rfl⟩ := Entry.recorded.inj head
      exact ⟨row', by rw [marked.lookup, if_pos rfl], marked.own, rfl⟩
    · obtain ⟨found, there, briefed, rfl⟩ := related.recordedOnly about slackTs tail
      by_cases here : about = incidentId
      · subst here
        obtain rfl : row = found := Option.some_injective _ (marked.found.symm.trans there)
        have notBrief : slot ≠ .brief := by
          rintro rfl
          simp [undelivered] at briefed
        exact ⟨row', by rw [marked.lookup, if_pos rfl], briefed_after briefed,
          marked.thread notBrief⟩
      · exact ⟨found, by rw [marked.lookup, if_neg here, there], briefed, rfl⟩
  · intro other about kind busy
    obtain ⟨same, -, -⟩ := busy_before (by rw [busy]; rfl)
    rw [Function.update_of_ne same] at busy
    obtain ⟨thread, member⟩ := related.posts other about kind busy
    exact ⟨thread, List.mem_cons_of_mem _ member⟩
  · intro about found kind there delivered
    have before : ∃ thread, Entry.posted about kind thread ∈ world.log := by
      rcases marked.cases there with ⟨rfl, rfl⟩ | ⟨-, before⟩
      · by_cases own : kind = slot
        · subst own
          exact related.posts worker _ _ posted
        · rw [marked.others _ own] at delivered
          exact related.delivered _ row kind marked.found delivered
      · exact related.delivered about found kind before delivered
    obtain ⟨thread, member⟩ := before
    exact ⟨thread, List.mem_cons_of_mem _ member⟩
  · exact ⟨related.posts worker incidentId slot posted, related.inOrder⟩

/-- The clock moves, within every lease that is held. -/
theorem Related.tick {world : World W} {phases : W → Phase} (related : Related world phases)
    {now : Time} (inTime : ∀ worker claim, world.holding worker = some claim →
      now ≤ claim.taken + minutes leaseMinutes) :
    Related { world with now } phases :=
  { related with
    held := fun worker incidentId slot busy => by
      obtain ⟨taken, row, holding, -, rest⟩ := related.held worker incidentId slot busy
      exact ⟨taken, row, holding, inTime worker _ holding, rest⟩ }

/-! ### Every call keeps the invariant -/

theorem Related.quietly {world : World W} {phases : W → Phase} (related : Related world phases)
    {stmt : Stmt} (marks : stmt.marks = none) (releases : stmt.releases = none) :
    Related { world with incidents := (stmt.exec world.now world.incidents).2 } phases :=
  related.quiet (quiet_exec world marks fun _ _ _ _ released => by
    rw [releases] at released; cases released)

/-- A statement that wins a claim: nobody held the slot, for its lease had run out. -/
theorem Related.claim {world : World W} {phases : W → Phase} (related : Related world phases)
    {worker : W} (free : phases worker = .free) {stmt : Stmt} {slot : Slot} {guard : Row → Bool}
    (marks : stmt.marks = none) (releases : stmt.releases = none) {incidentId : String} {row : Row}
    (found : world.incidents.lookup incidentId = some row)
    (wins : claimable slot guard world.now row = true)
    (briefed : slot ≠ .brief → guard row = true → (row.delivered .brief).isSome)
    (after : (stmt.exec world.now world.incidents).2.lookup incidentId =
      some (row.setLease slot (some world.now)))
    {thread : Option (Option String)} (read : ∀ under, thread = some under → row.slackTs = under) :
    Related
      { world with
        incidents := (stmt.exec world.now world.incidents).2
        holding := Function.update world.holding worker (some ⟨incidentId, slot, world.now⟩) }
      (Function.update phases worker (.claimed incidentId slot thread)) := by
  simp only [claimable, Bool.and_eq_true, Option.isNone_iff_eq_none] at wins
  obtain ⟨⟨undelivered, guarded⟩, expired⟩ := wins
  refine @Related.take W _ _ _ (related.quietly marks releases) worker incidentId slot _ thread ?_ ?_ after
    ?_ ?_ ?_ ?_
  · rw [free]
    rfl
  · intro other busy
    have standing := (related.held other incidentId slot busy).not_leaseFree found
    rw [standing] at expired
    cases expired
  · simp
  · simpa using undelivered
  · intro other
    simpa using briefed other guarded
  · intro under same
    simpa using read under same

/-- A statement that changes neither the claims nor the log. -/
theorem World.executed_of_quiet (world : World W) (worker : W) (stmt : Stmt)
    (held : World.held world.now (world.holding worker) stmt
      (stmt.exec world.now world.incidents).1 = world.holding worker)
    (logged : World.logged (stmt.exec world.now world.incidents).2 stmt = []) :
    world.executed worker stmt =
      { world with incidents := (stmt.exec world.now world.incidents).2 } := by
  simp [World.executed, held, logged]

theorem Related.executed_claim {world : World W} {phases : W → Phase}
    (related : Related world phases) {worker : W} (free : phases worker = .free) (slot : Slot)
    (incidentId : String) :
    Related (world.executed worker (.claim slot incidentId))
      (Function.update phases worker (Phase.free.next (.sql (.claim slot incidentId))
        (.ok ((Stmt.claim slot incidentId).exec world.now world.incidents).1))) := by
  have answer := exec_claim_fst slot incidentId world.now world.incidents
  cases won : ((Stmt.claim slot incidentId).exec world.now world.incidents).1 with
  | false =>
    rw [World.executed_of_quiet world worker _ (by rw [won]; rfl) rfl]
    simpa [Phase.next, ← free] using related.quietly rfl rfl
  | true =>
    rw [won] at answer
    obtain ⟨row, found, wins⟩ := (Option.any_eq_true _ _).mp answer.symm
    have after : ((Stmt.claim slot incidentId).exec world.now world.incidents).2.lookup incidentId =
        some (row.setLease slot (some world.now)) := by
      rw [lookup_exec, found]
      simp [Stmt.target, Stmt.change, wins]
    have taken := @Related.claim W _ world phases related worker free (.claim slot incidentId) slot
      (claimGuard slot) rfl rfl incidentId row found wins ?_ after none
      (fun _ impossible => absurd impossible (by simp))
    · simpa [World.executed, World.held, World.logged, Phase.next, won] using taken
    · intro other briefed
      cases slot with
      | brief => exact (other rfl).elim
      | followup kind => exact briefed

theorem Related.executed_claimDeferred {world : World W} {phases : W → Phase}
    (related : Related world phases) {worker : W} (free : phases worker = .free) (kind : Followup)
    (incidentId : String) :
    Related (world.executed worker (.claimDeferred kind incidentId))
      (Function.update phases worker (Phase.free.next (.sql (.claimDeferred kind incidentId))
        (.ok ((Stmt.claimDeferred kind incidentId).exec world.now world.incidents).1))) := by
  have answer := exec_claimDeferred_fst kind incidentId world.now world.incidents
  cases won : ((Stmt.claimDeferred kind incidentId).exec world.now world.incidents).1 with
  | none =>
    rw [World.executed_of_quiet world worker _ (by rw [won]; rfl) rfl]
    simpa [Phase.next, ← free] using related.quietly rfl rfl
  | some fetched =>
    rw [won] at answer
    obtain ⟨row, filtered, rfl⟩ := Option.map_eq_some_iff.mp answer.symm
    obtain ⟨found, wins⟩ := Option.filter_eq_some_iff.mp filtered
    have after : ((Stmt.claimDeferred kind incidentId).exec world.now world.incidents).2.lookup
        incidentId = some (row.setLease (.followup kind) (some world.now)) := by
      rw [lookup_exec, found]
      simp [Stmt.target, Stmt.change, wins]
    have taken := @Related.claim W _ world phases related worker free
      (.claimDeferred kind incidentId) (.followup kind) (deferredGuard kind) rfl rfl incidentId row
      found wins ?_ after (some row.slackTs) (fun _ same => Option.some_injective _ same)
    · simpa [World.executed, World.held, World.logged, Phase.next, won] using taken
    · intro _ guarded
      exact (Bool.and_eq_true _ _ ▸ guarded).2

/-- What a worker holds is what it is busy with. -/
theorem Related.item_of_holding {world : World W} {phases : W → Phase}
    (related : Related world phases) {worker : W} {claim : Claim}
    (holding : world.holding worker = some claim) :
    (phases worker).item = some (claim.incidentId, claim.slot) := by
  cases busy : (phases worker).item with
  | none =>
    rw [related.free worker busy] at holding
    cases holding
  | some item =>
    obtain ⟨taken, row, held, -⟩ := related.held worker item.1 item.2 busy
    obtain rfl := Option.some_injective _ (held.symm.trans holding)
    rfl

/-- What closes a holder's claim leaves it with none. -/
theorem Related.closed_holding {world : World W} {phases : W → Phase}
    (related : Related world phases) {worker : W} {incidentId : String} {slot : Slot}
    (busy : (phases worker).item = some (incidentId, slot)) :
    World.closed (world.holding worker) incidentId slot = none := by
  obtain ⟨taken, row, holding, -⟩ := related.held worker incidentId slot busy
  simp [World.closed, holding, Option.filter]

theorem Related.executed_release {world : World W} {phases : W → Phase}
    (related : Related world phases) {worker : W} {incidentId : String} {slot : Slot}
    {thread : Option (Option String)} (claimed : phases worker = .claimed incidentId slot thread) :
    Related (world.executed worker (.release slot incidentId))
      (Function.update phases worker .free) := by
  have mine : (phases worker).item = some (incidentId, slot) := by rw [claimed]; rfl
  have closed := @Related.close W _ world phases related worker fun about kind posted => by
    rw [claimed] at posted
    cases posted
  have eq : world.executed worker (.release slot incidentId) =
      { world with
        holding := Function.update world.holding worker none
        incidents := ((Stmt.release slot incidentId).exec world.now world.incidents).2 } := by
    simp [World.executed, World.held, World.logged, related.closed_holding mine]
  rw [eq]
  refine closed.quiet (quiet_exec _ rfl ?_)
  rintro other _ _ ⟨⟩ ⟨⟩ ⟨taken, row, holding, -⟩
  have busy := closed.item_of_holding holding
  by_cases same : other = worker
  · subst same
    simp [Phase.item] at busy
  · rw [Function.update_of_ne same] at busy
    exact same (related.alone other worker _ busy mine)

/-- A mark made by the holder of a slot, as the table shows it. -/
theorem Marks.marked {incidentId : String} {slot : Slot} {stmt : Stmt}
    (marks : Marks incidentId slot (.sql stmt)) {table : Incidents} {row : Row} (now : Time)
    (found : table.lookup incidentId = some row) :
    Marked table (stmt.exec now table).2 incidentId slot row (stmt.change now row) := by
  obtain ⟨own, target, insert, releases, claims⟩ : stmt.marks = some slot ∧
      stmt.target = some incidentId ∧ stmt.insert = none ∧ stmt.releases = none ∧
      stmt.claims = none := by
    cases slot with
    | brief => obtain ⟨slackTs, channelId, ⟨⟩⟩ := marks; exact ⟨rfl, rfl, rfl, rfl, rfl⟩
    | followup kind => cases marks; exact ⟨rfl, rfl, rfl, rfl, rfl⟩
  refine ⟨found, fun about => ?_, ?_, fun other different => ?_, fun other => ?_, fun other => ?_⟩
  · rw [lookup_exec, target, insert]
    by_cases same : about = incidentId
    · subst same
      simp [found]
    · simp [same, Ne.symm same]
  · simp [delivered_change, own]
  · simp [delivered_change, own, Ne.symm different]
  · rcases lease_change stmt now row other with same | released | ⟨guard, claimed, -⟩
    · exact same
    · simp [releases] at released
    · simp [claims] at claimed
  · exact slackTs_change stmt now row (by simp [own, other])

theorem Related.executed_mark {world : World W} {phases : W → Phase}
    (related : Related world phases) {worker : W} {incidentId : String} {slot : Slot} {stmt : Stmt}
    (posted : phases worker = .posted incidentId slot) (marks : Marks incidentId slot (.sql stmt)) :
    Related (world.executed worker stmt) (Function.update phases worker .free) := by
  have mine : (phases worker).item = some (incidentId, slot) := by rw [posted]; rfl
  obtain ⟨taken, row, -, -, found, -⟩ := related.held worker incidentId slot mine
  have marked := marks.marked world.now found
  have after : (stmt.exec world.now world.incidents).2.lookup incidentId =
      some (stmt.change world.now row) := by rw [marked.lookup, if_pos rfl]
  have closed := related.closed_holding mine
  have again := related.mark posted marked
  cases slot with
  | brief =>
    obtain ⟨slackTs, channelId, ⟨⟩⟩ := marks
    simpa [World.executed, World.held, World.logged, closed, after] using again
  | followup kind =>
    cases marks
    simpa [World.executed, World.held, World.logged, closed, after] using again

/-- **Every statement the protocol permits keeps the invariant.** -/
theorem Related.executed {world : World W} {phases : W → Phase} (related : Related world phases)
    {worker : W} {stmt : Stmt} (permitted : (phases worker).permits (.sql stmt)) :
    Related (world.executed worker stmt) (Function.update phases worker
      ((phases worker).next (.sql stmt) (.ok (stmt.exec world.now world.incidents).1))) := by
  cases stmt with
  | claim slot incidentId =>
    have free := Phase.free_of_permits_claim permitted trivial
    rw [free]
    exact related.executed_claim free slot incidentId
  | claimDeferred kind incidentId =>
    have free := Phase.free_of_permits_claim permitted trivial
    rw [free]
    exact related.executed_claimDeferred free kind incidentId
  | release slot incidentId =>
    obtain ⟨thread, claimed⟩ := Phase.claimed_of_permits_release permitted
    exact related.executed_release claimed
  | markBrief slackTs channelId incidentId =>
    exact related.executed_mark (Phase.posted_of_permits_markBrief permitted) ⟨_, _, rfl⟩
  | markFollowup kind incidentId =>
    exact related.executed_mark (Phase.posted_of_permits_markFollowup permitted) rfl
  | getSlackTs incidentId =>
    rw [World.executed_of_quiet world worker _ rfl rfl]
    cases phase : phases worker with
    | claimed about slot thread =>
      obtain rfl : incidentId = about := by
        rw [phase] at permitted
        simpa [Phase.permits, IsRead] using permitted
      refine related.learn phase fun row found => ?_
      simp [Stmt.exec, getSlackTsSql, found]
    | _ => simpa [Phase.next, ← phase] using related.quietly rfl rfl
  | _ =>
    rw [World.executed_of_quiet world worker _ rfl rfl]
    simpa [Phase.next] using related.quietly rfl rfl

/-- **Every call the protocol permits keeps the invariant.** -/
theorem Related.call {world after : World W} {phases : W → Phase} (related : Related world phases)
    {worker : W} {op : Op} {answer : Except Exn op.Ans} (permitted : (phases worker).permits op)
    (step : (promptly W).step worker op world answer after) :
    Related after (Function.update phases worker ((phases worker).next op answer)) := by
  obtain ⟨calls, certain⟩ := step
  cases op with
  | sql stmt =>
    rcases calls with ⟨rfl, rfl⟩ | ⟨message, rfl, effect⟩
    · exact related.executed permitted
    · have uncertain : ¬ Certain (.sql stmt) := fun closes => nomatch certain closes
      rw [Phase.next_error uncertain, Function.update_eq_self]
      rcases effect with rfl | rfl
      · exact related
      · cases stmt <;> first | exact related.quietly rfl rfl | exact (uncertain trivial).elim
  | deliver incidentId slot findings thread =>
    obtain ⟨before, claimed, read⟩ := Phase.claimed_of_permits_deliver permitted
    rcases calls with ⟨ts, rfl, rfl⟩ | ⟨message, rfl, rfl⟩
    · exact related.post claimed read
    · simpa [Phase.next] using related
  | lastChannelId =>
    obtain ⟨-, rfl⟩ := calls
    simpa [Phase.next] using related
  | compose question hits =>
    obtain rfl := calls
    simpa [Phase.next] using related
  | _ =>
    obtain ⟨-, rfl⟩ := calls
    simpa [Phase.next] using related

/-- No row is ever made for the empty id. -/
theorem unnamed_of_calls {world after : World W} {worker : W} {phase : Phase} {op : Op}
    {answer : Except Exn op.Ans} (unnamed : world.incidents.lookup "" = none)
    (permitted : phase.permits op) (calls : world.Calls worker op answer after) :
    after.incidents.lookup "" = none := by
  rcases incidents_of_calls calls with same | ⟨stmt, rfl, eq⟩
  · rw [same, unnamed]
  · rw [eq, lookup_exec, unnamed]
    cases stmt with
    | ensureIncident incidentId title openedAt service =>
      have named : incidentId ≠ "" := by
        cases phase with
        | free => simpa [Phase.permits, IsPlain, IsRead, IsClaim] using permitted
        | claimed => simp [Phase.permits, IsRead] at permitted
        | posted about slot => cases slot <;> simp [Phase.permits, IsRead, Marks] at permitted
      simp [Stmt.target, named]
    | _ => split_ifs <;> rfl

/-! ### Every reachable pool -/

/-- **Whatever the workers have done**, the invariant holds of some phases that their remaining
programs follow. -/
theorem related_of_reaches {start : Time} {pool : Pool sig Exn (World W) W}
    (run : Pool.Reaches (promptly W) (Pool.idle (World.init start)) pool) :
    ∃ phases : W → Phase, (Related pool.shared phases ∧
      pool.shared.incidents.lookup "" = none) ∧
      ∀ worker, (pool.prog worker).wp leaseProtocol (fun _ phase => phase = .free)
        (phases worker) := by
  refine @Pool.protocol _ _ _ _ _ _ _ leaseProtocol .free
    (fun world phases => Related world phases ∧ world.incidents.lookup "" = none) _ _ run ?_
    ⟨related_init start, rfl⟩ ?_ ?_ ?_
  · rintro worker program ⟨job, rfl⟩
    exact program_follows job
  · rintro worker op world phases answer after ⟨related, unnamed⟩ permitted step
    exact ⟨_, ⟨step.2, rfl⟩, related.call permitted step, unnamed_of_calls unnamed permitted step.1⟩
  · rintro world phases _ ⟨related, unnamed⟩ ⟨now, -, rfl, inTime⟩
    exact ⟨related.tick inTime, unnamed⟩
  · rintro worker world phases ⟨related, unnamed⟩ idle
    have free : phases worker = .free := by
      refine Phase.eq_free_of_item ?_
      cases busy : (phases worker).item with
      | none => rfl
      | some item =>
        obtain ⟨taken, row, holding, -⟩ := related.held worker item.1 item.2 busy
        rw [show world.holding worker = none from idle] at holding
        cases holding
    rw [← free, Function.update_eq_self]
    exact ⟨related, unnamed⟩

end Invariant

/-- **Delivery is at most once and in order.** In every pool that the workers can reach from an
empty table, each slot of each incident has been posted at most once; a follow-up was posted after
a record of the brief, and under the `slack_ts` of every record of the brief. -/
theorem delivery_at_most_once {W : Type} [DecidableEq W] {start : Time}
    {pool : Pool sig Exn (World W) W}
    (run : Pool.Reaches (promptly W) (Pool.idle (World.init start)) pool) (incidentId : String) :
    (∀ slot, pool.shared.log.countP (Entry.isPost incidentId slot) ≤ 1) ∧
    ∀ newer older kind thread,
      pool.shared.log = newer ++ .posted incidentId (.followup kind) thread :: older →
        .recorded incidentId .brief thread ∈ older ∧
        ∀ slackTs, .recorded incidentId .brief slackTs ∈ pool.shared.log → slackTs = thread := by
  obtain ⟨phases, ⟨related, -⟩, -⟩ := related_of_reaches run
  refine ⟨related.once incidentId, fun newer older kind thread split => ?_⟩
  have ordered := related.inOrder
  rw [split] at ordered
  have follows : Entry.recorded incidentId .brief thread ∈ older := ordered.follows
  refine ⟨follows, fun slackTs member => ?_⟩
  have here : Entry.recorded incidentId .brief thread ∈ pool.shared.log := by
    rw [split]
    exact List.mem_append_right _ (List.mem_cons_of_mem _ follows)
  obtain ⟨row, found, -, rfl⟩ := related.recordedOnly incidentId thread here
  obtain ⟨row', found', -, rfl⟩ := related.recordedOnly incidentId slackTs member
  rw [found] at found'
  rw [Option.some_injective _ found']

/-- An undisturbed worker is one of the workers of `promptly`. -/
theorem promptly_serve {W : Type} [DecidableEq W] (reply : (op : Op) → op.Ans) (worker : W)
    (op : Op) (world : World W) :
    (promptly W).step worker op world (world.serve reply worker op).1
      (world.serve reply worker op).2 :=
  ⟨World.calls_serve reply worker op world, fun _ => World.serve_ok reply worker op world⟩

/-- One worker handles an opening and a resolution, and drains after each. -/
def openedThenResolved : World Unit :=
  Pool.runAll (fun op world => world.serve calmReply () op) (World.init 0)
    [(calmJob "opened").program, (calmJob "resolved").program]

theorem delivery_at_most_once_openedThenResolved :
    openedThenResolved.log =
      [.recorded "inc" (.followup .postmortem) (some "1700000000.000100"),
        .posted "inc" (.followup .postmortem) (some "1700000000.000100"),
        .recorded "inc" .brief (some "1700000000.000100"), .posted "inc" .brief none] ∧
    ∀ slot, openedThenResolved.log.countP (Entry.isPost "inc" slot) ≤ 1 := by
  have jobs : ∀ program ∈ [(calmJob "opened").program, (calmJob "resolved").program],
      (promptly Unit).job () program := by
    intro program member
    rcases List.mem_pair.mp member with rfl | rfl
    · exact ⟨_, rfl⟩
    · exact ⟨_, rfl⟩
  obtain ⟨prog, reaches, -⟩ := @Pool.reaches_runAll _ _ _ _ _ (promptly Unit) ()
    (fun op world => world.serve calmReply () op) (promptly_serve calmReply ()) _ jobs
    (Pool.idle (World.init 0)) trivial
  exact ⟨by rfl, (delivery_at_most_once reaches "inc").1⟩

end Freshet.Autopilot
