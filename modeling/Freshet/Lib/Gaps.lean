/-
**Runs without a wide gap.**

Of a set of points in a line, `Consecutive` are two with none between them. `walkBack` goes from the
greatest point down and stops at the first gap that is too wide; where it stops is the least point from
which on no gap is (`walkBack_isLeast`).
-/

import Mathlib.Data.List.Chain
import Mathlib.Order.Bounds.Defs
import Mathlib.Order.Defs.LinearOrder
import Mathlib.Order.Lattice

namespace Freshet.Lib

variable {α : Type} [LinearOrder α]

/-- Two points with none between them. -/
structure Consecutive (points : α → Prop) (a b : α) : Prop where
  left : points a
  right : points b
  lt : a < b
  between : ∀ c, points c → ¬ (a < c ∧ c < b)

/-- No gap from `m` on is too wide. -/
def Unbroken (wide : α → α → Bool) (points : α → Prop) (m : α) : Prop :=
  ∀ a b, Consecutive points a b → m ≤ a → wide b a = false

theorem Unbroken.mono {wide : α → α → Bool} {points : α → Prop} {m later : α}
    (unbroken : Unbroken wide points m) (le : m ≤ later) : Unbroken wide points later :=
  fun a b consecutive from' => unbroken a b consecutive (le_trans le from')

/-- The walk down a list, from `start`, to the first gap that is too wide. -/
def walkBack (wide : α → α → Bool) : α → List α → α
  | start, [] => start
  | start, earlier :: rest => if wide start earlier then start else walkBack wide earlier rest

section Descending

variable {wide : α → α → Bool} {start earlier : α} {rest : List α}

/-- Below the greatest point comes the next one. -/
theorem eq_of_consecutive (desc : (start :: earlier :: rest).Pairwise (· > ·)) {a : α}
    (consecutive : Consecutive (· ∈ start :: earlier :: rest) a start) : a = earlier := by
  obtain ⟨above, desc'⟩ := List.pairwise_cons.mp desc
  rcases List.mem_cons.mp consecutive.left with rfl | below
  · exact absurd consecutive.lt (lt_irrefl a)
  · rcases List.mem_cons.mp below with rfl | lower
    · rfl
    · have under : a < earlier := (List.pairwise_cons.mp desc').1 a lower
      exact absurd ⟨under, above earlier List.mem_cons_self⟩
        (consecutive.between earlier (List.mem_cons_of_mem _ List.mem_cons_self))

theorem consecutive_head (desc : (start :: earlier :: rest).Pairwise (· > ·)) :
    Consecutive (· ∈ start :: earlier :: rest) earlier start where
  left := List.mem_cons_of_mem _ List.mem_cons_self
  right := List.mem_cons_self
  lt := (List.pairwise_cons.mp desc).1 earlier List.mem_cons_self
  between := by
    rintro c member ⟨above, below⟩
    rcases List.mem_cons.mp member with rfl | lower
    · exact lt_irrefl _ below
    · rcases List.mem_cons.mp lower with rfl | lower
      · exact lt_irrefl _ above
      · exact lt_asymm above ((List.pairwise_cons.mp (List.pairwise_cons.mp desc).2).1 c lower)

/-- Without the greatest point, the gaps below it stay what they are. -/
theorem consecutive_tail (desc : (start :: rest).Pairwise (· > ·)) {a b : α} (inside : b ∈ rest) :
    Consecutive (· ∈ start :: rest) a b ↔ Consecutive (· ∈ rest) a b := by
  have above := (List.pairwise_cons.mp desc).1
  constructor
  · intro consecutive
    refine ⟨?_, inside, consecutive.lt, fun c member =>
      consecutive.between c (List.mem_cons_of_mem _ member)⟩
    rcases List.mem_cons.mp consecutive.left with rfl | lower
    · exact absurd consecutive.lt (lt_asymm (above b inside))
    · exact lower
  · intro consecutive
    refine ⟨List.mem_cons_of_mem _ consecutive.left, List.mem_cons_of_mem _ inside, consecutive.lt, ?_⟩
    rintro c member ⟨beyond, under⟩
    rcases List.mem_cons.mp member with rfl | lower
    · exact lt_asymm under (above b inside)
    · exact consecutive.between c lower ⟨beyond, under⟩

/-- **The walk stops at the least point from which on no gap is too wide.** -/
theorem walkBack_isLeast (desc : (start :: rest).Pairwise (· > ·)) :
    IsLeast {m | m ∈ start :: rest ∧ Unbroken wide (· ∈ start :: rest) m}
      (walkBack wide start rest) := by
  induction rest generalizing start with
  | nil =>
    refine ⟨⟨List.mem_cons_self, fun a b consecutive _ => ?_⟩, fun m member => ?_⟩
    · obtain rfl := List.mem_singleton.mp consecutive.left
      obtain rfl := List.mem_singleton.mp consecutive.right
      exact absurd consecutive.lt (lt_irrefl _)
    · exact le_of_eq (List.mem_singleton.mp member.1).symm
  | cons earlier rest ih =>
    obtain ⟨above, desc'⟩ := List.pairwise_cons.mp desc
    unfold walkBack
    split
    · rename_i wide'
      refine ⟨⟨List.mem_cons_self, fun a b consecutive from' => ?_⟩, ?_⟩
      · rcases List.mem_cons.mp consecutive.right with rfl | lower
        · exact absurd consecutive.lt (not_lt_of_ge from')
        · exact absurd (lt_trans consecutive.lt (above b lower)) (not_lt_of_ge from')
      · rintro m ⟨member, unbroken⟩
        rcases List.mem_cons.mp member with rfl | lower
        · exact le_refl _
        · have low : m ≤ earlier := by
            rcases List.mem_cons.mp lower with rfl | lower
            · exact le_refl _
            · exact le_of_lt ((List.pairwise_cons.mp desc').1 m lower)
          rw [unbroken earlier start (consecutive_head desc) low] at wide'
          cases wide'
    · rename_i narrow
      obtain ⟨⟨member, unbroken⟩, least⟩ := ih desc'
      refine ⟨⟨List.mem_cons_of_mem _ member, fun a b consecutive from' => ?_⟩, ?_⟩
      · rcases List.mem_cons.mp consecutive.right with rfl | lower
        · rw [eq_of_consecutive desc consecutive]
          exact Bool.eq_false_iff.mpr narrow
        · exact unbroken a b ((consecutive_tail desc lower).mp consecutive) from'
      · rintro m ⟨inside, unbroken'⟩
        rcases List.mem_cons.mp inside with rfl | lower
        · exact le_of_lt (above _ member)
        · exact least ⟨lower, fun a b consecutive from' =>
            unbroken' a b ((consecutive_tail desc consecutive.right).mpr consecutive) from'⟩

end Descending

/-! ### Lists whose neighbours are close -/

/-- Where a chain leaves a set it makes one step from inside to outside. -/
theorem exists_step {β : Type} {close : β → β → Prop} {inside : β → Prop} {first : β} {rest : List β}
    (chain : (first :: rest).IsChain close) (start : inside first) {last : β}
    (member : last ∈ first :: rest) (left : ¬ inside last) :
    ∃ a ∈ first :: rest, ∃ b ∈ first :: rest, close a b ∧ inside a ∧ ¬ inside b := by
  induction rest generalizing first with
  | nil =>
    obtain rfl := List.mem_singleton.mp member
    exact absurd start left
  | cons second rest ih =>
    obtain ⟨step, chain⟩ := List.isChain_cons_cons.mp chain
    by_cases here : inside second
    · have later : last ∈ second :: rest := by
        rcases List.mem_cons.mp member with rfl | later
        · exact absurd start left
        · exact later
      obtain ⟨a, memberA, b, memberB, found⟩ := ih chain here later
      exact ⟨a, List.mem_cons_of_mem _ memberA, b, List.mem_cons_of_mem _ memberB, found⟩
    · exact ⟨first, List.mem_cons_self, second, List.mem_cons_of_mem _ List.mem_cons_self, step, start,
        here⟩

end Freshet.Lib
