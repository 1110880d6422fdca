/-
**Rows that no two of may be alike.**

`added` puts items behind others where they are not there yet. `rekey` updates the rows of a table one
after the other, in the order in which they lie; the key of a new row must be that of no other row as
the table then is. Where no new key is the old key of a row that is updated too, and rows with two keys
are given two keys, the order does not matter (`rekey_eq_ok`).
-/

import Freshet.Lib.Fallible
import Mathlib.Data.List.Nodup

namespace Freshet.Lib

variable {ε α β κ : Type}

/-! ### Items that are not there yet -/

section Added

variable [DecidableEq α]

/-- The items, and behind them those of the new ones that are not there. -/
@[irreducible] def added (items : List α) : List α → List α
  | [] => items
  | new :: later => added (if new ∈ items then items else items ++ [new]) later

@[simp] theorem added_nil (items : List α) : added items [] = items := by rw [added]

theorem added_there {items : List α} {first : α} (there : first ∈ items) (later : List α) :
    added items (first :: later) = added items later := by
  rw [added, if_pos there]

theorem added_new {items : List α} {first : α} (missing : first ∉ items) (later : List α) :
    added items (first :: later) = added (items ++ [first]) later := by
  rw [added, if_neg missing]

/-- The new items are added one by one. -/
theorem added_cons (items : List α) (first : α) (later : List α) :
    added items (first :: later) = added (added items [first]) later := by
  by_cases there : first ∈ items
  · rw [added_there there, added_there there, added_nil]
  · rw [added_new there, added_new there, added_nil]

theorem mem_added {items new : List α} {a : α} : a ∈ added items new ↔ a ∈ items ∨ a ∈ new := by
  induction new generalizing items with
  | nil => simp
  | cons first later ih =>
    rw [List.mem_cons]
    by_cases there : first ∈ items
    · rw [added_there there, ih]
      constructor
      · exact fun either => either.imp_right Or.inr
      · rintro (old | rfl | new)
        · exact Or.inl old
        · exact Or.inl there
        · exact Or.inr new
    · rw [added_new there, ih, List.mem_append, List.mem_singleton, or_assoc]

theorem nodup_added {items : List α} (nodup : items.Nodup) (new : List α) :
    (added items new).Nodup := by
  induction new generalizing items with
  | nil => rwa [added_nil]
  | cons first later ih =>
    by_cases there : first ∈ items
    · rw [added_there there]
      exact ih nodup
    · rw [added_new there]
      refine ih (List.nodup_append.mpr ⟨nodup, List.nodup_singleton _, fun a old b new same => ?_⟩)
      obtain rfl := List.mem_singleton.mp new
      exact there (same ▸ old)

/-- Items that are there already change nothing. -/
theorem added_known {items new : List α} (known : ∀ a ∈ new, a ∈ items) :
    added items new = items := by
  induction new with
  | nil => exact added_nil items
  | cons first later ih =>
    obtain ⟨here, later⟩ := List.forall_mem_cons.mp known
    rw [added_there here, ih later]

end Added

/-! ### Updating keys -/

section Rekey

variable [DecidableEq κ] (key : α → κ) (chosen : α → Bool) (set : α → Except ε α) (conflict : ε)

/-- The rows that are chosen are set, from the first on; `before` are those that have been passed. -/
def rekey (before : List α) : List α → Except ε (List α)
  | [] => .ok before
  | row :: later =>
    if chosen row then do
      let new ← set row
      if key new ∈ (before ++ later).map key then .error conflict
      else rekey (before ++ [new]) later
    else rekey (before ++ [row]) later

variable {key chosen set conflict} {named : α → Prop} {value : α → α}

/-- A row after the update. -/
def rekeyed (chosen : α → Bool) (value : α → α) (row : α) : α :=
  if chosen row then value row else row

omit [DecidableEq κ] in
/-- **The new key of a row can only be that of a row that stays.** -/
theorem mem_passed_iff {before later : List α} {row : α} (picked : chosen row = true)
    (nodup : ((before ++ row :: later).map key).Nodup)
    (apart : ∀ a ∈ before ++ row :: later, ∀ b ∈ before ++ row :: later, chosen a = true →
      chosen b = true → key (value a) ≠ key b ∧ (key (value a) = key (value b) → key a = key b)) :
    key (value row) ∈ (before.map (rekeyed chosen value) ++ later).map key ↔
      ∃ b ∈ before ++ row :: later, chosen b = false ∧ key (value row) = key b := by
  have mine : row ∈ before ++ row :: later := List.mem_append_right _ List.mem_cons_self
  rw [List.map_append, List.map_cons, List.nodup_append] at nodup
  obtain ⟨-, -, others⟩ := nodup
  constructor
  · intro member
    obtain ⟨b', inside, same⟩ := List.mem_map.mp member
    rcases List.mem_append.mp inside with passed | waiting
    · obtain ⟨b, among, rfl⟩ := List.mem_map.mp passed
      have there := List.mem_append_left (row :: later) among
      unfold rekeyed at same
      cases picked' : chosen b with
      | true =>
        rw [if_pos picked'] at same
        have alike := (apart b there row mine picked' picked).2 same
        exact absurd alike (others _ (List.mem_map_of_mem among) _ List.mem_cons_self)
      | false =>
        rw [picked', if_neg Bool.false_ne_true] at same
        exact ⟨b, there, picked', same.symm⟩
    · have there := List.mem_append_right before (List.mem_cons_of_mem row waiting)
      cases picked' : chosen b' with
      | true => exact absurd same.symm (apart row mine b' there picked picked').1
      | false => exact ⟨b', there, picked', same.symm⟩
  · rintro ⟨b, there, left, same⟩
    rw [same]
    rcases List.mem_append.mp there with passed | waiting
    · have stays : rekeyed chosen value b = b := by
        unfold rekeyed
        rw [left, if_neg Bool.false_ne_true]
      refine List.mem_map_of_mem (List.mem_append_left _ ?_)
      exact List.mem_map.mpr ⟨b, passed, stays⟩
    · rcases List.mem_cons.mp waiting with rfl | waiting
      · rw [picked] at left
        cases left
      · exact List.mem_map_of_mem (List.mem_append_right _ waiting)

/-- **The update succeeds** when every row that is chosen can be set, to a key of no row that stays. -/
theorem rekey_eq_ok (sets : ∀ row row', set row = .ok row' ↔ named row ∧ row' = value row)
    {before later out : List α} (nodup : ((before ++ later).map key).Nodup)
    (apart : ∀ a ∈ before ++ later, ∀ b ∈ before ++ later, chosen a = true → chosen b = true →
      key (value a) ≠ key b ∧ (key (value a) = key (value b) → key a = key b)) :
    rekey key chosen set conflict (before.map (rekeyed chosen value)) later = .ok out ↔
      (∀ a ∈ later, chosen a = true → named a ∧
        ∀ b ∈ before ++ later, chosen b = false → key (value a) ≠ key b) ∧
      out = (before ++ later).map (rekeyed chosen value) := by
  induction later generalizing before with
  | nil =>
    unfold rekey
    rw [List.append_nil, Except.ok.injEq]
    exact ⟨fun same => ⟨fun a member => absurd member List.not_mem_nil, same.symm⟩,
      fun both => both.2.symm⟩
  | cons row later ih =>
    have shift : before ++ row :: later = (before ++ [row]) ++ later := by
      rw [List.append_assoc, List.singleton_append]
    have rest := @ih (before ++ [row]) (shift ▸ nodup) (shift ▸ apart)
    have passed : (before ++ [row]).map (rekeyed chosen value) =
        before.map (rekeyed chosen value) ++ [rekeyed chosen value row] := List.map_append
    rw [← shift, passed] at rest
    unfold rekey
    rw [List.forall_mem_cons]
    cases picked : chosen row with
    | false =>
      have stays : rekeyed chosen value row = row := by
        unfold rekeyed
        rw [picked, if_neg Bool.false_ne_true]
      rw [stays] at rest
      rw [if_neg Bool.false_ne_true, rest]
      constructor
      · rintro ⟨others, all⟩
        exact ⟨⟨fun wrong => absurd wrong Bool.false_ne_true, others⟩, all⟩
      · rintro ⟨⟨-, others⟩, all⟩
        exact ⟨others, all⟩
    | true =>
      have moved : rekeyed chosen value row = value row := by
        unfold rekeyed
        rw [if_pos picked]
      rw [moved] at rest
      rw [if_pos rfl, bind_eq_ok]
      have alike := mem_passed_iff picked nodup apart
      constructor
      · rintro ⟨new, made, done⟩
        obtain ⟨isNamed, rfl⟩ := (sets row new).mp made
        split_ifs at done with clash
        obtain ⟨others, all⟩ := rest.mp done
        refine ⟨⟨fun _ => ⟨isNamed, fun b there left same => ?_⟩, others⟩, all⟩
        exact clash (alike.mpr ⟨b, there, left, same⟩)
      · rintro ⟨⟨mine, others⟩, all⟩
        obtain ⟨isNamed, free⟩ := mine rfl
        refine ⟨value row, (sets row _).mpr ⟨isNamed, rfl⟩, ?_⟩
        rw [if_neg]
        · exact rest.mpr ⟨others, all⟩
        · intro clash
          obtain ⟨b, there, left, same⟩ := alike.mp clash
          exact free b there left same

end Rekey

end Freshet.Lib
