/-
**Topics and what a consumer group has committed.**

A topic is a log for each of finitely many partitions, with the offset that one consumer group has
committed in each. `lag` is the sum of what is left. `Honest done` says that an offset is only passed
once what it names is `done`: then a lag of zero means that everything in the topic is
(`Honest.done_of_lag`).
-/

import Mathlib.Algebra.BigOperators.Fin
import Mathlib.Algebra.Order.BigOperators.Group.Finset

set_option linter.unusedSectionVars false

namespace Freshet.Lib

/-- The partitions `P` of a topic of records `R`, and one group's committed offsets. -/
structure Topic (P R : Type) where
  log : P → List R := fun _ => []
  committed : P → Nat := fun _ => 0

namespace Topic

variable {P R : Type} [DecidableEq P]

/-- Append a record to a partition. -/
def append (topic : Topic P R) (partition : P) (record : R) : Topic P R :=
  { topic with log := Function.update topic.log partition (topic.log partition ++ [record]) }

/-- Commit an offset of a partition. -/
def commit (topic : Topic P R) (partition : P) (offset : Nat) : Topic P R :=
  { topic with committed := Function.update topic.committed partition offset }

/-- The group's total lag. -/
def lag [Fintype P] (topic : Topic P R) : Nat :=
  ∑ partition, ((topic.log partition).length - topic.committed partition)

/-- The record at an offset. -/
def At (topic : Topic P R) (partition : P) (offset : Nat) (record : R) : Prop :=
  (topic.log partition)[offset]? = some record

/-- Every record that was there is still there. -/
def Extends (earlier later : Topic P R) : Prop :=
  ∀ partition offset record, earlier.At partition offset record → later.At partition offset record

/-- **An honest group** commits no offset past the log, and passes a record only once it is done. -/
structure Honest (done : P → Nat → Prop) (topic : Topic P R) : Prop where
  bounded : ∀ partition, topic.committed partition ≤ (topic.log partition).length
  passed : ∀ partition offset, offset < topic.committed partition → done partition offset

theorem Extends.refl (topic : Topic P R) : Extends topic topic := fun _ _ _ here => here

theorem Extends.trans {first second third : Topic P R} (one : Extends first second)
    (two : Extends second third) : Extends first third :=
  fun partition offset record here => two partition offset record (one partition offset record here)

theorem extends_append (topic : Topic P R) (partition : P) (record : R) :
    Extends topic (topic.append partition record) := by
  intro other offset found here
  unfold At append
  by_cases same : other = partition
  · subst same
    have inside : offset < (topic.log other).length := (List.getElem?_eq_some_iff.mp here).1
    show (Function.update topic.log other (topic.log other ++ [record]) other)[offset]? = some found
    rw [Function.update_self, List.getElem?_append_left inside]
    exact here
  · show (Function.update topic.log partition _ other)[offset]? = some found
    rw [Function.update_of_ne same]
    exact here

theorem extends_commit (topic : Topic P R) (partition : P) (offset : Nat) :
    Extends topic (topic.commit partition offset) := fun _ _ _ here => here

theorem honest_empty (done : P → Nat → Prop) : Honest done ({} : Topic P R) where
  bounded _ := Nat.le_refl 0
  passed _ offset impossible := absurd impossible (Nat.not_lt_zero offset)

theorem Honest.mono {done more : P → Nat → Prop} {topic : Topic P R} (honest : Honest done topic)
    (implies : ∀ partition offset, done partition offset → more partition offset) :
    Honest more topic where
  bounded := honest.bounded
  passed partition offset passed := implies partition offset (honest.passed partition offset passed)

theorem Honest.append {done : P → Nat → Prop} {topic : Topic P R} (honest : Honest done topic)
    (partition : P) (record : R) : Honest done (topic.append partition record) where
  bounded other := by
    have before := honest.bounded other
    show topic.committed other ≤ (Function.update topic.log partition _ other).length
    by_cases same : other = partition
    · subst same
      rw [Function.update_self, List.length_append]
      omega
    · rw [Function.update_of_ne same]
      exact before
  passed := honest.passed

theorem Honest.commit {done : P → Nat → Prop} {topic : Topic P R} (honest : Honest done topic)
    {partition : P} {upTo : Nat} (inside : upTo ≤ (topic.log partition).length)
    (below : ∀ offset, offset < upTo → done partition offset) :
    Honest done (topic.commit partition upTo) where
  bounded other := by
    show Function.update topic.committed partition upTo other ≤ _
    by_cases same : other = partition
    · subst same
      rw [Function.update_self]
      exact inside
    · rw [Function.update_of_ne same]
      exact honest.bounded other
  passed other offset passed := by
    have committed : offset < Function.update topic.committed partition upTo other := passed
    by_cases same : other = partition
    · subst same
      rw [Function.update_self] at committed
      exact below offset committed
    · rw [Function.update_of_ne same] at committed
      exact honest.passed other offset committed

/-- A lag of zero leaves nothing uncommitted. -/
theorem length_le_committed [Fintype P] {topic : Topic P R} (drained : topic.lag = 0)
    (partition : P) : (topic.log partition).length ≤ topic.committed partition := by
  have share := Finset.sum_eq_zero_iff.mp drained partition (Finset.mem_univ partition)
  omega

/-- **A lag of zero means that everything in the topic is done.** -/
theorem Honest.done_of_lag [Fintype P] {done : P → Nat → Prop} {topic : Topic P R}
    (honest : Honest done topic) (drained : topic.lag = 0) {partition : P} {offset : Nat}
    (inside : offset < (topic.log partition).length) : done partition offset := by
  have committed := length_le_committed drained partition
  exact honest.passed partition offset (by omega)

end Topic

end Freshet.Lib
