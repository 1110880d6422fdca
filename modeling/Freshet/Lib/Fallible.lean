/-
**Computations that may fail**: when an `Except` succeeds, step by step.
-/

import Mathlib.Logic.Basic

namespace Freshet.Lib

variable {ε ε' α β : Type}

theorem bind_eq_ok {x : Except ε α} {f : α → Except ε β} {b : β} :
    x >>= f = .ok b ↔ ∃ a, x = .ok a ∧ f a = .ok b := by
  cases x with
  | error e => exact ⟨nofun, fun found => absurd found.choose_spec.1 nofun⟩
  | ok a =>
    constructor
    · intro done
      exact ⟨a, rfl, done⟩
    · rintro ⟨a', same, done⟩
      cases same
      exact done

theorem map_eq_ok {x : Except ε α} {f : α → β} {b : β} :
    x.map f = .ok b ↔ ∃ a, x = .ok a ∧ f a = b := by
  cases x with
  | error e => exact ⟨nofun, fun found => absurd found.choose_spec.1 nofun⟩
  | ok a =>
    show Except.ok (f a) = .ok b ↔ _
    simp only [Except.ok.injEq, exists_eq_left']

theorem mapError_eq_ok {x : Except ε α} {f : ε → ε'} {a : α} :
    x.mapError f = .ok a ↔ x = .ok a := by
  cases x with
  | error e => exact ⟨nofun, nofun⟩
  | ok a' =>
    show Except.ok a' = .ok a ↔ _
    simp only [Except.ok.injEq]

/-- A list is mapped where each of its items is. -/
theorem mapM_eq_ok {f : α → Except ε β} {good : α → Prop} {value : α → β}
    (spec : ∀ a b, f a = .ok b ↔ good a ∧ b = value a) {items : List α} {out : List β} :
    items.mapM f = .ok out ↔ (∀ a ∈ items, good a) ∧ out = items.map value := by
  induction items generalizing out with
  | nil =>
    rw [List.mapM_nil]
    constructor
    · intro done
      exact ⟨fun a member => absurd member List.not_mem_nil, (Except.ok.inj done).symm⟩
    · rintro ⟨-, rfl⟩
      rfl
  | cons item items ih =>
    rw [List.mapM_cons, bind_eq_ok, List.forall_mem_cons]
    constructor
    · rintro ⟨b, here, done⟩
      obtain ⟨rest, later, done⟩ := bind_eq_ok.mp done
      obtain ⟨fine, rfl⟩ := (spec item b).mp here
      obtain ⟨every, rfl⟩ := ih.mp later
      exact ⟨⟨fine, every⟩, (Except.ok.inj done).symm⟩
    · rintro ⟨⟨fine, every⟩, rfl⟩
      exact ⟨value item, (spec item _).mpr ⟨fine, rfl⟩,
        bind_eq_ok.mpr ⟨_, ih.mpr ⟨every, rfl⟩, rfl⟩⟩

end Freshet.Lib
