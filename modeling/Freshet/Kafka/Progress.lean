/-
**Offsets and what is finished**, for any meaning of "finished" that is never undone.

A consumer reads the messages of each partition in their order, from the committed offset on.
`Progress` ties the history of the consume loop to its offsets: what was polled is below the
position, and a message below the position that is not waiting to be handled is finished. Each call
of the loop keeps it (`Progress.poll`, `Progress.handle`, `Progress.commit`); since a commit needs
everything polled to be handled, every message below a committed offset is finished.
-/

import Freshet.Kafka.Deliveries
import Mathlib.Logic.Function.Basic

namespace Freshet.Kafka

open Freshet.Lib

/-- **The history of the loop against its offsets.** -/
structure Progress (topic : Int → List String) (finished : Int → Nat → Prop) (log : List Entry)
    (position committed : Int → Nat) : Prop where
  behind : ∀ p, committed p ≤ position p
  polled : ∀ m, .polled m ∈ log → ∃ k : Nat, m.offset = (k : Int) ∧ k < position m.partition ∧
    m.value = (topic m.partition)[k]?
  done : ∀ p k, k < position p → (∀ m, .polled m ∈ log → m.partition = p →
    m.offset = (k : Int) → .handled m ∈ log) → finished p k
  safe : ∀ p k, k < committed p → finished p k

namespace Progress

variable {topic : Int → List String} {finished finished' : Int → Nat → Prop}
  {log older : List Entry} {position committed : Int → Nat} {m : Message}

/-- A life that starts at the committed offsets. -/
theorem restart (safe : ∀ p k, k < committed p → finished p k) :
    Progress topic finished [] committed committed := by
  refine ⟨fun p => Nat.le_refl _, fun m member => ?_, fun p k below _ => safe p k below, safe⟩
  exact absurd member List.not_mem_nil

theorem mono (progress : Progress topic finished log position committed)
    (more : ∀ p k, finished p k → finished' p k) :
    Progress topic finished' log position committed :=
  ⟨progress.behind, progress.polled,
    fun p k below all => more p k (progress.done p k below all),
    fun p k below => more p k (progress.safe p k below)⟩

/-- An entry that is about no message. -/
theorem cons (progress : Progress topic finished log position committed) {entry : Entry}
    (other : ∀ m, entry ≠ .polled m ∧ entry ≠ .handled m) :
    Progress topic finished (entry :: log) position committed := by
  have polled : ∀ {m}, .polled m ∈ entry :: log → .polled m ∈ log := fun {m} member =>
    (List.mem_cons.mp member).resolve_left fun same => (other m).1 same.symm
  have handled : ∀ {m}, .handled m ∈ entry :: log → .handled m ∈ log := fun {m} member =>
    (List.mem_cons.mp member).resolve_left fun same => (other m).2 same.symm
  refine ⟨progress.behind, fun m member => progress.polled m (polled member),
    fun p k below all => ?_, progress.safe⟩
  exact progress.done p k below fun m member same offset =>
    handled (all m (List.mem_cons_of_mem _ member) same offset)

/-- **A poll** of the next message of a partition. -/
theorem poll (progress : Progress topic finished log position committed)
    (offset : m.offset = (position m.partition : Int))
    (here : m.value = (topic m.partition)[position m.partition]?) (all : AllHandled log) :
    Progress topic finished (.polled m :: log)
      (Function.update position m.partition (position m.partition + 1)) committed := by
  have own : Function.update position m.partition (position m.partition + 1) m.partition =
      position m.partition + 1 := Function.update_self _ _ _
  have later : ∀ p, position p ≤
      Function.update position m.partition (position m.partition + 1) p := by
    intro p
    rw [Function.update_apply]
    split_ifs with same
    · rw [same]
      exact Nat.le_succ _
    · exact Nat.le_refl _
  refine ⟨fun p => (progress.behind p).trans (later p), fun x member => ?_,
    fun p k below handled => ?_, progress.safe⟩
  · rcases List.mem_cons.mp member with same | old
    · obtain rfl := Entry.polled.inj same
      exact ⟨position x.partition, offset, Nat.lt_of_lt_of_eq (Nat.lt_succ_self _) own.symm, here⟩
    · obtain ⟨k, at', below, same⟩ := progress.polled x old
      exact ⟨k, at', Nat.lt_of_lt_of_le below (later _), same⟩
  · have inside : ∀ {x}, .handled x ∈ Entry.polled m :: log → .handled x ∈ log := fun member =>
      (List.mem_cons.mp member).resolve_left (by simp)
    rw [Function.update_apply] at below
    by_cases new : p = m.partition ∧ k = position m.partition
    · -- the message itself is not handled yet
      obtain ⟨rfl, rfl⟩ := new
      have before := (all m).mpr (inside (handled m List.mem_cons_self rfl offset))
      obtain ⟨k, at', under, -⟩ := progress.polled m before
      omega
    · refine progress.done p k ?_ fun x member same at' =>
        inside (handled x (List.mem_cons_of_mem _ member) same at')
      split_ifs at below with same
      · rw [same]
        have differs : k ≠ position m.partition := fun eq => new ⟨same, eq⟩
        omega
      · exact below

/-- **The message polled last is handled**, and what it stood for is finished. -/
theorem handle (progress : Progress topic finished (.polled m :: older) position committed)
    (more : ∀ p k, finished p k → finished' p k)
    (new : ∀ k : Nat, m.offset = (k : Int) → finished' m.partition k) :
    Progress topic finished' (.handled m :: .polled m :: older) position committed := by
  refine ⟨progress.behind, fun x member => progress.polled x ?_, fun p k under all => ?_,
    fun p k below => more p k (progress.safe p k below)⟩
  · exact (List.mem_cons.mp member).resolve_left Entry.noConfusion
  · by_cases own : p = m.partition ∧ m.offset = (k : Int)
    · obtain ⟨rfl, offset⟩ := own
      exact new k offset
    · refine more p k (progress.done p k under fun x member same place => ?_)
      rcases List.mem_cons.mp (all x (List.mem_cons_of_mem _ member) same place) with mine | inside
      · obtain rfl := Entry.handled.inj mine
        exact absurd ⟨same.symm, place⟩ own
      · exact inside

/-- **A commit** of a message that was polled, when all of them are handled. -/
theorem commit (progress : Progress topic finished log position committed) (all : AllHandled log)
    (polled : .polled m ∈ log) :
    Progress topic finished (.committed m :: log) position
      (Function.update committed m.partition (m.offset + 1).toNat) := by
  obtain ⟨k, at', below, -⟩ := progress.polled m polled
  have number : (m.offset + 1).toNat = k + 1 := by omega
  have behind : ∀ p, Function.update committed m.partition (m.offset + 1).toNat p ≤ position p := by
    intro p
    rw [Function.update_apply]
    split_ifs with same
    · rw [same, number]
      exact below
    · exact progress.behind p
  have every : ∀ p k, k < position p → finished p k :=
    fun p k below => progress.done p k below fun x member _ _ => (all x).mp member
  have moved : Progress topic finished log position
      (Function.update committed m.partition (m.offset + 1).toNat) :=
    ⟨behind, progress.polled, progress.done,
      fun p k under => every p k (Nat.lt_of_lt_of_le under (behind p))⟩
  exact moved.cons fun x => ⟨Entry.noConfusion, Entry.noConfusion⟩

end Progress

end Freshet.Kafka
