/-
**The rest of the stream job**: the view `recent_transitions`, `INSERT INTO incident_lifecycle` and
`INSERT INTO raw_deadletter`.

The poller keeps no state: it produces every update of a feed on every sweep, and a restart produces
them again. So the topic holds one message many times, and the job is what makes one of them.

* **`redelivery_invisible`** — updates and lifecycle events are the same however often the messages
  are delivered.
* **`row_accounted`** — a row that has no timestamp is a dead letter, and every other one is behind an
  update.
* **`lifecycle_once`** — an incident's events depend on its own rows alone, are at most one of each
  kind, and stay as they are when more rows arrive; and every row is accounted for.
-/

import Freshet.Stream.Dedup
import Mathlib.Data.List.Nodup

namespace Freshet.Stream

open Freshet.Lib

/-- A row as the job reads it, and `CURRENT_TIMESTAMP` at that moment, in milliseconds. -/
structure Reading where
  row : RawIncident
  now : Int
deriving DecidableEq, Repr

/-- `INTERVAL '24' HOUR`. -/
def window : Int := 24 * 60 * 60 * 1000

inductive Transition
  | opened
  | inProgress
  | resolved
deriving DecidableEq, Repr

/-- What the column `type` holds. -/
def Transition.value : Transition → String
  | opened => "opened"
  | inProgress => "in_progress"
  | resolved => "resolved"

def closingWords : List String := ["resolved", "completed", "complete"]

def followedWords : List String := ["investigating", "identified", "monitoring"] ++ closingWords

/-- A row of `recent_transitions`. -/
structure RecentTransition where
  provider : Option String
  incidentId : Option String
  incidentName : Option String
  createdAt : Option Int
  procTime : Int
  transition : Transition
deriving DecidableEq, Repr

/-- What `ROW_NUMBER` partitions by. -/
structure RecentTransition.Partition where
  provider : Option String
  incidentId : Option String
  transition : Transition
deriving DecidableEq, Repr

def RecentTransition.partition (row : RecentTransition) : RecentTransition.Partition :=
  ⟨row.provider, row.incidentId, row.transition⟩

/-- A row of `incident_lifecycle`. -/
structure LifecycleRow where
  incidentId : Option String
  service : Option String
  type : String
  ts : Option Int
  title : Option String
deriving DecidableEq, Repr

/-- What the outer `SELECT` makes of a transition. -/
def RecentTransition.event (row : RecentTransition) : LifecycleRow where
  incidentId := joined (joined row.provider (some ":")) row.incidentId
  service := row.provider
  type := row.transition.value
  ts := row.createdAt
  title := row.incidentName

/-- A row of `raw_deadletter`. -/
structure DeadRow where
  provider : Option String
  incidentId : Option String
  updateId : Option String
  incidentName : Option String
  status : Option String
  text : Option String
  seenAt : Int
deriving DecidableEq, Repr

def RawIncident.dead (row : RawIncident) : DeadRow where
  provider := row.provider
  incidentId := row.incidentId
  updateId := row.updateId
  incidentName := row.incidentName
  status := row.status
  text := row.text
  seenAt := row.procTime

/-- `INSERT INTO raw_deadletter`. -/
def rawDeadletter (rows : List RawIncident) : List DeadRow :=
  (rows.filter fun row => row.createdAt.isNone).map RawIncident.dead

section Job

variable (lower : String → String)

/-- The `CASE` over `LOWER(status)`, where `lower` is `LOWER`. -/
def transitionOf (status : Option String) : Transition :=
  if (status.map lower).any fun word => word ∈ closingWords then .resolved
  else if status.map lower = some "monitoring" then .inProgress
  else .opened

/-- The `WHERE` of the view. A comparison with a NULL does not hold. -/
def isRecent (reading : Reading) : Bool :=
  reading.row.createdAt.isSome &&
    (reading.row.status.map lower).any (fun word => word ∈ followedWords) &&
    reading.row.createdAt.any fun createdAt => reading.now - window < createdAt

def Reading.transition (reading : Reading) : RecentTransition where
  provider := reading.row.provider
  incidentId := reading.row.incidentId
  incidentName := reading.row.incidentName
  createdAt := reading.row.createdAt
  procTime := reading.row.procTime
  transition := transitionOf lower reading.row.status

/-- `CREATE TEMPORARY VIEW recent_transitions`. -/
def recentTransitions (readings : List Reading) : List RecentTransition :=
  (readings.filter (isRecent lower)).map (Reading.transition lower)

/-- The inner `SELECT` of the lifecycle, with `seq = 1`. -/
def firstTransitions (readings : List Reading) : List RecentTransition :=
  keepFirst RecentTransition.partition [] (recentTransitions lower readings)

/-- `INSERT INTO incident_lifecycle`. -/
def incidentLifecycle (readings : List Reading) : List LifecycleRow :=
  (firstTransitions lower readings).map RecentTransition.event

end Job

variable {lower : String → String}

/-! ### Messages that are delivered again -/

/-- **The same message, read again later**: only the times of reading differ. -/
structure Again (earlier later : Reading) : Prop where
  message : later.row = { earlier.row with procTime := later.row.procTime }
  later : earlier.now ≤ later.now

namespace Again

variable {earlier later : Reading}

theorem stamped (again : Again earlier later) : later.row.createdAt = earlier.row.createdAt := by
  rw [again.message]

theorem partition (again : Again earlier later) : later.row.partition = earlier.row.partition := by
  rw [again.message]
  rfl

/-- A message that is still recent was recent before. -/
theorem recent (again : Again earlier later) (recent : isRecent lower later = true) :
    isRecent lower earlier = true := by
  obtain ⟨⟨stamped', followed⟩, young⟩ := Bool.and_eq_true_iff.mp recent |>.imp_left
    Bool.and_eq_true_iff.mp
  rw [again.stamped] at stamped' young
  have status : later.row.status = earlier.row.status := by rw [again.message]
  rw [status] at followed
  refine Bool.and_eq_true_iff.mpr ⟨Bool.and_eq_true_iff.mpr ⟨stamped', followed⟩, ?_⟩
  obtain ⟨createdAt, here, after⟩ := (Option.any_eq_true _ _).mp young
  refine (Option.any_eq_true _ _).mpr ⟨createdAt, here, decide_eq_true ?_⟩
  exact Int.lt_of_le_of_lt (Int.sub_le_sub_right again.later window) (of_decide_eq_true after)

theorem transition (again : Again earlier later) :
    (later.transition lower).partition = (earlier.transition lower).partition := by
  unfold Reading.transition RecentTransition.partition
  rw [again.message]

end Again

/-- What a message says, whenever it is read. -/
def Reading.message (reading : Reading) : RawIncident := { reading.row with procTime := 0 }

/-- **A topic is its distinct messages, delivered more than once**, as long as the clock does not go
back. -/
theorem redelivered_messages {readings : List Reading}
    (forward : readings.Pairwise fun earlier later => earlier.now ≤ later.now) :
    Redelivered Again (keepFirst Reading.message [] readings) readings := by
  refine redelivered_keepFirst (forward.imp fun later same => ⟨?_, later⟩)
  rename_i earlier reading
  calc reading.row = { reading.message with procTime := reading.row.procTime } := rfl
    _ = { earlier.message with procTime := reading.row.procTime } := by rw [same]
    _ = { earlier.row with procTime := reading.row.procTime } := rfl

/-- **The job makes one of many**: the updates and the lifecycle events do not depend on how often
the messages behind them are delivered. -/
theorem redelivery_invisible {once more : List Reading} (redelivered : Redelivered Again once more) :
    (normalizedUpdates (more.map Reading.row)) = normalizedUpdates (once.map Reading.row) ∧
      incidentLifecycle lower more = incidentLifecycle lower once := by
  constructor
  · have same : keepFirst (fun reading : Reading => reading.row.partition) []
        (more.filter fun reading => reading.row.createdAt.isSome) =
      keepFirst (fun reading : Reading => reading.row.partition) []
        (once.filter fun reading => reading.row.createdAt.isSome) := by
      refine keepFirst_redelivered (fun earlier later again stamped => ⟨?_, ?_⟩) redelivered
      · rw [← again.stamped]
        exact stamped
      · exact again.partition.symm
    unfold normalizedUpdates firsts
    rw [List.filter_map, List.filter_map, keepFirst_map, keepFirst_map]
    exact congrArg (List.map RawIncident.normalized) (congrArg (List.map Reading.row) same)
  · have same : keepFirst (fun reading : Reading => (reading.transition lower).partition) []
        (more.filter (isRecent lower)) =
      keepFirst (fun reading : Reading => (reading.transition lower).partition) []
        (once.filter (isRecent lower)) :=
      keepFirst_redelivered (fun earlier later again recent =>
        ⟨again.recent recent, again.transition.symm⟩) redelivered
    unfold incidentLifecycle firstTransitions recentTransitions
    rw [keepFirst_map, keepFirst_map]
    exact congrArg (List.map RecentTransition.event)
      (congrArg (List.map (Reading.transition lower)) same)

/-! ### One incident -/

/-- The row is of this incident. -/
def RecentTransition.isOf (provider incidentId : Option String) (row : RecentTransition) : Bool :=
  row.provider = provider && row.incidentId = incidentId

def Reading.isOf (provider incidentId : Option String) (reading : Reading) : Bool :=
  reading.row.provider = provider && reading.row.incidentId = incidentId

/-- The partition of a row decides the incident. -/
theorem isOf_of_partition (provider incidentId : Option String) {row other : RecentTransition}
    (same : row.partition = other.partition) :
    row.isOf provider incidentId = other.isOf provider incidentId := by
  obtain ⟨provider', incidentId', -⟩ := RecentTransition.Partition.mk.inj same
  unfold RecentTransition.isOf
  rw [provider', incidentId']

/-- The view of an incident's rows. -/
theorem filter_recentTransitions (provider incidentId : Option String) (readings : List Reading) :
    (recentTransitions lower readings).filter (RecentTransition.isOf provider incidentId) =
      recentTransitions lower (readings.filter (Reading.isOf provider incidentId)) := by
  unfold recentTransitions
  rw [List.filter_map, List.filter_filter, List.filter_filter]
  congr 1
  exact List.filter_congr fun reading _ => Bool.and_comm _ _

/-- **Every row is accounted for**: without a timestamp it is a dead letter, with one an update has
been made of the first row of its partition. -/
theorem row_accounted {rows : List RawIncident} {row : RawIncident} (member : row ∈ rows) :
    (row.createdAt = none ∧ row.dead ∈ rawDeadletter rows) ∨
      (row.createdAt.isSome ∧ ∃ first ∈ rows, first.partition = row.partition ∧
        first.normalized ∈ normalizedUpdates rows) := by
  cases stamped : row.createdAt with
  | none =>
    refine Or.inl ⟨rfl, List.mem_map_of_mem (List.mem_filter.mpr ⟨member, ?_⟩)⟩
    rw [stamped]
    rfl
  | some createdAt =>
    refine Or.inr ⟨rfl, ?_⟩
    obtain ⟨first, among, same, once⟩ := firsts_once member (by rw [stamped]; rfl)
    refine ⟨first, among, same, List.mem_map_of_mem ?_⟩
    have kept : first ∈ (firsts rows).filter fun other => other.partition = row.partition := by
      rw [once]
      exact List.mem_singleton_self first
    exact (List.mem_filter.mp kept).1

/-- **Of each incident one event of each kind**: its events are those of its own rows, one at most
for each transition, made of the first row that is recent and shows it; and they are never taken
back or changed. A row without a timestamp is a dead letter, and of every other one's partition there
is an update. -/
theorem lifecycle_once (readings later : List Reading) (provider incidentId : Option String) :
    (firstTransitions lower readings).filter (RecentTransition.isOf provider incidentId) =
        firstTransitions lower (readings.filter (Reading.isOf provider incidentId)) ∧
      (((firstTransitions lower readings).filter (RecentTransition.isOf provider incidentId)).map
        RecentTransition.transition).Nodup ∧
      (∀ transition, (firstTransitions lower readings).filter
          (fun row => row.partition = ⟨provider, incidentId, transition⟩) =
        ((recentTransitions lower readings).filter
          fun row => row.partition = ⟨provider, incidentId, transition⟩).take 1) ∧
      firstTransitions lower readings <+: firstTransitions lower (readings ++ later) ∧
      ∀ row ∈ readings.map Reading.row,
        (row.createdAt = none ∧ row.dead ∈ rawDeadletter (readings.map Reading.row)) ∨
        (row.createdAt.isSome ∧ ∃ first ∈ readings.map Reading.row, first.partition = row.partition ∧
          first.normalized ∈ normalizedUpdates (readings.map Reading.row)) := by
  refine ⟨?_, ?_, fun transition => ?_, ?_, fun row member => row_accounted member⟩
  · unfold firstTransitions
    rw [keepFirst_filter RecentTransition.partition
      (fun _ _ same => isOf_of_partition provider incidentId same), filter_recentTransitions]
  · have distinct := nodup_keepFirst RecentTransition.partition [] (recentTransitions lower readings)
    refine List.Nodup.map_on (fun row member other member' same => ?_) (distinct.of_map.filter _)
    obtain ⟨kept, mine⟩ := List.mem_filter.mp member
    obtain ⟨kept', mine'⟩ := List.mem_filter.mp member'
    obtain ⟨provider, incident⟩ := Bool.and_eq_true_iff.mp mine
    obtain ⟨provider', incident'⟩ := Bool.and_eq_true_iff.mp mine'
    refine List.inj_on_of_nodup_map distinct kept kept' ?_
    unfold RecentTransition.partition
    rw [of_decide_eq_true provider, of_decide_eq_true incident, of_decide_eq_true provider',
      of_decide_eq_true incident', same]
  · exact filter_keepFirst RecentTransition.partition [] _ _
  · unfold firstTransitions recentTransitions
    rw [List.filter_append, List.map_append, keepFirst_append]
    exact List.prefix_append _ _

/-! ### A message read twice -/

def monitoring (procTime : Int) : RawIncident where
  v := some 1
  provider := some "openai"
  incidentId := some "INC-1"
  updateId := some "a"
  bodyDigest := some "b"
  createdAt := some 0
  status := some "monitoring"
  text := some "A fix is out."
  incidentName := some "Login"
  procTime := procTime

theorem redelivery_invisible_twice :
    incidentLifecycle id [⟨monitoring 0, 0⟩, ⟨monitoring 60000, 60000⟩] =
      [⟨some "openai:INC-1", some "openai", "in_progress", some 0, some "Login"⟩] := by
  have again : Again ⟨monitoring 0, 0⟩ ⟨monitoring 60000, 60000⟩ := ⟨rfl, by decide⟩
  have twice : Redelivered Again [⟨monitoring 0, 0⟩] [⟨monitoring 0, 0⟩, ⟨monitoring 60000, 60000⟩] :=
    (Redelivered.fresh .none _).repeated List.mem_cons_self again
  exact (redelivery_invisible twice).2

end Freshet.Stream
