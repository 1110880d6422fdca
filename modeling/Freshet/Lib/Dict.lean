/-
**Insertion-ordered dictionaries.**

A dictionary is the list of its items in the order the keys came. `set` overwrites in place or
appends, as an assignment `d[k] = v` does; `get` is `d.get(k)`. `Nodup` says that no key is there
twice; every `set` keeps it.
-/

import Mathlib.Data.List.Basic
import Mathlib.Data.List.Induction
import Mathlib.Order.Lattice

namespace Freshet.Lib

/-- The items, in insertion order. -/
abbrev Dict (K V : Type) := List (K × V)

namespace Dict

variable {K V : Type} [DecidableEq K]

/-- `d[key] = value`: a key that is there keeps its place. -/
def set (key : K) (value : V) : Dict K V → Dict K V
  | [] => [(key, value)]
  | (k, old) :: rest => if k = key then (key, value) :: rest else (k, old) :: set key value rest

/-- `d.get(key)`. -/
def get (key : K) : Dict K V → Option V
  | [] => none
  | (k, value) :: rest => if k = key then some value else get key rest

/-- `d.setdefault(key, value)`. -/
def setDefault (key : K) (value : V) (d : Dict K V) : Dict K V :=
  if (d.get key).isSome then d else d.set key value

/-- `d.pop(key, None)`. -/
def pop (key : K) (d : Dict K V) : Dict K V := d.filter fun item => item.1 ≠ key

def keys (d : Dict K V) : List K := d.map Prod.fst

def values (d : Dict K V) : List V := d.map Prod.snd

omit [DecidableEq K] in
@[simp] theorem values_nil : values ([] : Dict K V) = [] := rfl

theorem mem_of_get {d : Dict K V} {key : K} {value : V} (found : d.get key = some value) :
    (key, value) ∈ d := by
  induction d with
  | nil => exact (nomatch found)
  | cons head rest ih =>
    obtain ⟨k, old⟩ := head
    unfold get at found
    split at found
    · rename_i same
      rw [same, Option.some.inj found]
      exact List.mem_cons_self
    · exact List.mem_cons_of_mem _ (ih found)

/-- With no key twice, an item is what the lookup of its key finds. -/
theorem mem_iff_get {d : Dict K V} (distinct : d.keys.Nodup) {key : K} {value : V} :
    (key, value) ∈ d ↔ d.get key = some value := by
  refine ⟨fun member => ?_, mem_of_get⟩
  induction d with
  | nil => exact absurd member List.not_mem_nil
  | cons head rest ih =>
    obtain ⟨k, old⟩ := head
    obtain ⟨new, distinct⟩ := List.nodup_cons.mp distinct
    unfold get
    rcases List.mem_cons.mp member with same | member
    · obtain ⟨rfl, rfl⟩ := Prod.mk.inj same
      exact if_pos rfl
    · rw [if_neg]
      · exact ih distinct member
      · rintro rfl
        exact new (List.mem_map.mpr ⟨_, member, rfl⟩)

/-- What a lookup finds after an assignment. -/
theorem get_set (d : Dict K V) (key other : K) (value : V) :
    (d.set key value).get other = if other = key then some value else d.get other := by
  induction d with
  | nil =>
    simp only [set, get, eq_comm (a := key)]
  | cons head rest ih =>
    obtain ⟨k, old⟩ := head
    by_cases here : k = key
    · subst here
      simp only [set, if_true, get, eq_comm (a := k)]
      split <;> rfl
    · simp only [set, if_neg here, get, ih]
      by_cases same : k = other
      · subst same
        simp [here]
      · simp [same]

theorem get_pop (d : Dict K V) (key other : K) :
    (d.pop key).get other = if other = key then none else d.get other := by
  induction d with
  | nil => exact (ite_self none).symm
  | cons head rest ih =>
    obtain ⟨k, old⟩ := head
    unfold pop at ih ⊢
    have here : Dict.get other ((k, old) :: rest) =
        if k = other then some old else Dict.get other rest := rfl
    by_cases gone : k = key
    · subst gone
      rw [List.filter_cons_of_neg (by simp), ih, here]
      by_cases same : other = k
      · rw [if_pos same, if_pos same]
      · rw [if_neg same, if_neg same, if_neg (Ne.symm same)]
    · rw [List.filter_cons_of_pos (by simpa using gone), here]
      show (if k = other then some old else Dict.get other (List.filter _ rest)) = _
      rw [ih]
      by_cases same : k = other
      · rw [if_pos same, if_pos same, if_neg (same ▸ gone)]
      · rw [if_neg same, if_neg same]

/-- An item after an assignment is the new one, or an old one. -/
theorem mem_set {d : Dict K V} {key k : K} {value v : V} (member : (k, v) ∈ d.set key value) :
    (k = key ∧ v = value) ∨ (k, v) ∈ d := by
  induction d with
  | nil =>
    rw [set, List.mem_singleton, Prod.mk.injEq] at member
    exact .inl member
  | cons head rest ih =>
    obtain ⟨k', old⟩ := head
    unfold set at member
    split at member
    · rcases List.mem_cons.mp member with same | member
      · exact .inl (Prod.mk.injEq _ _ _ _ ▸ same)
      · exact .inr (List.mem_cons_of_mem _ member)
    · rcases List.mem_cons.mp member with same | member
      · exact .inr (same ▸ List.mem_cons_self)
      · exact (ih member).imp_right (List.mem_cons_of_mem _)

/-- With no key twice, an old item has another key. -/
theorem mem_set_of_nodup {d : Dict K V} {key k : K} {value v : V} (distinct : d.keys.Nodup)
    (member : (k, v) ∈ d.set key value) : (k = key ∧ v = value) ∨ (k ≠ key ∧ (k, v) ∈ d) := by
  induction d with
  | nil =>
    rw [set, List.mem_singleton, Prod.mk.injEq] at member
    exact .inl member
  | cons head rest ih =>
    obtain ⟨k', old⟩ := head
    obtain ⟨new, distinct⟩ := List.nodup_cons.mp distinct
    unfold set at member
    split at member
    · rename_i here
      rcases List.mem_cons.mp member with same | later
      · exact .inl (Prod.mk.injEq _ _ _ _ ▸ same)
      · refine .inr ⟨?_, List.mem_cons_of_mem _ later⟩
        rintro rfl
        exact new (List.mem_map.mpr ⟨(k, v), later, here.symm⟩)
    · rename_i elsewhere
      rcases List.mem_cons.mp member with same | member
      · obtain ⟨rfl, rfl⟩ := Prod.mk.injEq _ _ _ _ ▸ same
        exact .inr ⟨elsewhere, List.mem_cons_self⟩
      · exact (ih distinct member).imp_right fun other =>
          ⟨other.1, List.mem_cons_of_mem _ other.2⟩

theorem self_mem_set (key : K) (value : V) (d : Dict K V) : (key, value) ∈ d.set key value := by
  induction d with
  | nil => exact List.mem_singleton.mpr rfl
  | cons head rest ih =>
    unfold set
    split
    · exact List.mem_cons_self
    · exact List.mem_cons_of_mem _ ih

theorem mem_set_of_ne {d : Dict K V} {key k : K} {value v : V} (other : k ≠ key)
    (member : (k, v) ∈ d) : (k, v) ∈ d.set key value := by
  induction d with
  | nil => exact (nomatch member)
  | cons head rest ih =>
    unfold set
    rcases List.mem_cons.mp member with rfl | member
    · rw [if_neg other]
      exact List.mem_cons_self
    · split
      · exact List.mem_cons_of_mem _ member
      · exact List.mem_cons_of_mem _ (ih member)

theorem nodup_set {d : Dict K V} (key : K) (value : V) (distinct : d.keys.Nodup) :
    (d.set key value).keys.Nodup := by
  induction d with
  | nil => exact List.nodup_cons.mpr ⟨List.not_mem_nil, List.nodup_nil⟩
  | cons head rest ih =>
    obtain ⟨k, old⟩ := head
    obtain ⟨new, distinct'⟩ := List.nodup_cons.mp distinct
    unfold set
    split
    · rename_i here
      exact here ▸ distinct
    · rename_i elsewhere
      refine List.nodup_cons.mpr ⟨fun member => ?_, ih distinct'⟩
      obtain ⟨⟨k', v⟩, found, same⟩ := List.mem_map.mp member
      rcases mem_set found with ⟨here, -⟩ | found
      · exact elsewhere (same.symm.trans here)
      · exact new (List.mem_map.mpr ⟨_, found, same⟩)

theorem keys_set (d : Dict K V) (key : K) (value : V) :
    (d.set key value).keys = if key ∈ d.keys then d.keys else d.keys ++ [key] := by
  induction d with
  | nil => rfl
  | cons head rest ih =>
    obtain ⟨k, old⟩ := head
    unfold set
    by_cases same : k = key
    · rw [if_pos same, if_pos (same ▸ List.mem_cons_self), ← same]
      rfl
    · rw [if_neg same]
      show k :: (set key value rest).keys = if key ∈ k :: keys rest then k :: keys rest else _
      rw [ih]
      by_cases known : key ∈ keys rest
      · rw [if_pos known, if_pos (List.mem_cons_of_mem _ known)]
      · rw [if_neg known, if_neg (List.not_mem_cons_of_ne_of_not_mem (Ne.symm same) known)]
        rfl

theorem mem_keys_of_get {d : Dict K V} {key : K} {value : V} (found : d.get key = some value) :
    key ∈ d.keys := List.mem_map.mpr ⟨_, mem_of_get found, rfl⟩

theorem isSome_get {d : Dict K V} {key : K} : (d.get key).isSome = true ↔ key ∈ d.keys := by
  induction d with
  | nil => simp [get, keys]
  | cons head rest ih =>
    obtain ⟨k, value⟩ := head
    show (if k = key then some value else get key rest).isSome = true ↔ key ∈ k :: keys rest
    rw [List.mem_cons]
    by_cases same : k = key
    · rw [if_pos same]
      exact iff_of_true rfl (Or.inl same.symm)
    · rw [if_neg same, ih]
      exact (or_iff_right (Ne.symm same)).symm

/-- A new key comes last. -/
theorem set_of_new {d : Dict K V} {key : K} (new : key ∉ d.keys) (value : V) :
    d.set key value = d ++ [(key, value)] := by
  induction d with
  | nil => rfl
  | cons head rest ih =>
    obtain ⟨k, old⟩ := head
    obtain ⟨other, new⟩ := not_or.mp (mt List.mem_cons.mpr new)
    unfold set
    rw [if_neg (Ne.symm other), ih new, List.cons_append]

theorem set_ne_nil (key : K) (value : V) (d : Dict K V) : d.set key value ≠ [] :=
  List.ne_nil_of_mem (self_mem_set key value d)

/-- A value after an assignment is the new one, or an old one. -/
theorem mem_values_set {d : Dict K V} {key : K} {value v : V} (member : v ∈ (d.set key value).values) :
    v = value ∨ v ∈ d.values := by
  obtain ⟨⟨k, v⟩, found, rfl⟩ := List.mem_map.mp member
  rcases mem_set found with ⟨-, same⟩ | found
  · exact .inl same
  · exact .inr (List.mem_map.mpr ⟨_, found, rfl⟩)

/-! ### Tallies -/

/-- How often each element is there: `GROUP BY` with `count(*)`. -/
def tally (elements : List K) : Dict K Nat :=
  elements.foldl (fun counts x => counts.set x ((counts.get x).getD 0 + 1)) []

theorem tally_snoc (elements : List K) (x : K) :
    tally (elements ++ [x]) = (tally elements).set x (((tally elements).get x).getD 0 + 1) := by
  unfold tally
  rw [List.foldl_append, List.foldl_cons, List.foldl_nil]

theorem get_tally (elements : List K) (x : K) :
    (tally elements).get x = if x ∈ elements then some (elements.count x) else none := by
  induction elements using List.reverseRecOn with
  | nil => rfl
  | append_singleton elements last ih =>
    rw [tally_snoc, get_set]
    by_cases same : x = last
    · subst same
      have last : x ∈ elements ++ [x] := List.mem_append_right _ List.mem_cons_self
      rw [if_pos rfl, ih, if_pos last, List.count_append, List.count_singleton_self]
      by_cases known : x ∈ elements
      · rw [if_pos known, Option.getD_some]
      · rw [if_neg known, List.count_eq_zero_of_not_mem known, Option.getD_none]
    · have apart : List.count x [last] = 0 :=
        List.count_eq_zero_of_not_mem (by simpa using same)
      rw [if_neg same, ih, List.count_append, apart, Nat.add_zero]
      simp [same]

theorem nodup_tally (elements : List K) : (tally elements).keys.Nodup := by
  induction elements using List.reverseRecOn with
  | nil => exact List.nodup_nil
  | append_singleton elements last ih =>
    rw [tally_snoc]
    exact nodup_set _ _ ih

/-- **A tally lists every element once, with its count.** -/
theorem mem_tally {elements : List K} {x : K} {n : Nat} :
    (x, n) ∈ tally elements ↔ x ∈ elements ∧ n = elements.count x := by
  rw [mem_iff_get (nodup_tally elements), get_tally]
  split_ifs with known
  · simp [known, eq_comm]
  · simp [known]

/-! ### The best of each key -/

section Best

variable {κ : Type} [LinearOrder κ] (weight : V → κ)

/-- A value is kept when it is the first of its key, or weighs more than the one that is there. -/
def keepMax (best : Dict K V) (item : K × V) : Dict K V :=
  match best.get item.1 with
  | none => best.set item.1 item.2
  | some prior => if weight prior < weight item.2 then best.set item.1 item.2 else best

omit [DecidableEq K] in
/-- The first of the heaviest values of the key. -/
def FirstMax (items : List (K × V)) (key : K) (value : V) : Prop :=
  ∃ before after, items = before ++ (key, value) :: after ∧
    (∀ v, (key, v) ∈ before → weight v < weight value) ∧
    ∀ v, (key, v) ∈ after → weight v ≤ weight value

variable {weight}

theorem get_keepMax (best : Dict K V) (item : K × V) (key : K) :
    (keepMax weight best item).get key =
      if key = item.1 ∧ ∀ prior, best.get item.1 = some prior → weight prior < weight item.2 then
        some item.2
      else best.get key := by
  unfold keepMax
  cases found : best.get item.1 with
  | none =>
    show (best.set item.1 item.2).get key = _
    rw [get_set]
    simp
  | some prior =>
    by_cases more : weight prior < weight item.2
    · simp only [more, if_true]
      rw [get_set]
      simp [more]
    · simp [more]

theorem keys_keepMax (best : Dict K V) (item : K × V) :
    (keepMax weight best item).keys =
      if item.1 ∈ best.keys then best.keys else best.keys ++ [item.1] := by
  unfold keepMax
  cases found : best.get item.1 with
  | none => exact keys_set _ _ _
  | some prior =>
    have known := mem_keys_of_get found
    by_cases more : weight prior < weight item.2
    · show (if weight prior < weight item.2 then best.set item.1 item.2 else best).keys = _
      rw [if_pos more, keys_set]
    · show (if weight prior < weight item.2 then best.set item.1 item.2 else best).keys = _
      rw [if_neg more, if_pos known]

/-- The keys are those of the items, in the order in which they came up. -/
theorem keys_foldl_keepMax (items : List (K × V)) :
    (∀ k, k ∈ (items.foldl (keepMax weight) ([] : Dict K V)).keys ↔ k ∈ items.map Prod.fst) ∧
    (items.foldl (keepMax weight) ([] : Dict K V)).keys.Pairwise fun k l =>
      (items.map Prod.fst).idxOf k < (items.map Prod.fst).idxOf l := by
  induction items using List.reverseRecOn with
  | nil => exact ⟨fun _ => Iff.rfl, List.Pairwise.nil⟩
  | append_singleton items item ih =>
    obtain ⟨members, placed⟩ := ih
    rw [List.foldl_append, List.foldl_cons, List.foldl_nil, keys_keepMax, List.map_append]
    have before : ∀ {k : K}, k ∈ (items.foldl (keepMax weight) ([] : Dict K V)).keys →
        (items.map Prod.fst ++ [item].map Prod.fst).idxOf k = (items.map Prod.fst).idxOf k :=
      fun known => List.idxOf_append_of_mem ((members _).mp known)
    have placed' : (items.foldl (keepMax weight) ([] : Dict K V)).keys.Pairwise fun k l =>
        (items.map Prod.fst ++ [item].map Prod.fst).idxOf k <
          (items.map Prod.fst ++ [item].map Prod.fst).idxOf l := by
      refine placed.imp_of_mem fun known known' less => ?_
      rwa [before known, before known']
    split_ifs with known
    · refine ⟨fun k => ?_, placed'⟩
      rw [members, List.mem_append, iff_self_or]
      intro last
      rw [List.mem_singleton.mp last]
      exact (members _).mp known
    · refine ⟨fun k => ?_, List.pairwise_append.mpr ⟨placed', List.pairwise_singleton _ _, ?_⟩⟩
      · rw [List.mem_append, List.mem_append, members]
        rfl
      · intro k known' l last
        rw [List.mem_singleton.mp last, before known',
          List.idxOf_append_of_notMem fun inside => known ((members _).mpr inside)]
        have bound := List.idxOf_lt_length_iff.mpr ((members _).mp known')
        omega

/-- What the loop keeps of a key, and when it keeps nothing. -/
theorem get_foldl_keepMax (items : List (K × V)) (key : K) :
    (∀ value, (items.foldl (keepMax weight) ([] : Dict K V)).get key = some value →
      FirstMax weight items key value) ∧
    ((items.foldl (keepMax weight) ([] : Dict K V)).get key = none → ∀ value, (key, value) ∉ items) := by
  induction items using List.reverseRecOn with
  | nil => exact ⟨fun _ found => absurd found.symm (Option.some_ne_none _), fun _ _ => List.not_mem_nil⟩
  | append_singleton items item ih =>
    obtain ⟨found, missing⟩ := ih
    rw [List.foldl_append, List.foldl_cons, List.foldl_nil, get_keepMax]
    by_cases taken : key = item.1 ∧ ∀ prior,
        (items.foldl (keepMax weight) ([] : Dict K V)).get item.1 = some prior → weight prior < weight item.2
    · obtain ⟨rfl, more⟩ := taken
      rw [if_pos ⟨rfl, more⟩]
      refine ⟨fun value same => ?_, fun none' => nomatch none'⟩
      obtain rfl := Option.some.inj same
      refine ⟨items, [], rfl, fun v member => ?_, fun v member => absurd member List.not_mem_nil⟩
      cases held : (items.foldl (keepMax weight) ([] : Dict K V)).get item.1 with
      | none => exact absurd member (missing held v)
      | some prior =>
        obtain ⟨before, after, rfl, low, high⟩ := found prior held
        refine lt_of_le_of_lt ?_ (more prior held)
        rcases List.mem_append.mp member with early | late
        · exact le_of_lt (low v early)
        · rcases List.mem_cons.mp late with same | late
          · exact le_of_eq (congrArg weight (Prod.mk.inj same).2)
          · exact high v late
    · rw [if_neg taken]
      refine ⟨fun value held => ?_, fun none' value member => ?_⟩
      · obtain ⟨before, after, rfl, low, high⟩ := found value held
        refine ⟨before, after ++ [item], by simp, low, fun v member => ?_⟩
        rcases List.mem_append.mp member with inside | last
        · exact high v inside
        · obtain rfl := List.mem_singleton.mp last
          by_contra heavier
          refine taken ⟨rfl, fun prior same => ?_⟩
          obtain rfl := Option.some.inj (same.symm.trans held)
          exact not_le.mp heavier
      · rcases List.mem_append.mp member with inside | last
        · exact missing none' value inside
        · obtain rfl := List.mem_singleton.mp last
          refine taken ⟨rfl, fun prior same => ?_⟩
          rw [none'] at same
          cases same

omit [DecidableEq K] in
theorem FirstMax.unique {items : List (K × V)} {key : K} {one two : V}
    (first : FirstMax weight items key one) (second : FirstMax weight items key two) :
    one = two := by
  obtain ⟨before, after, rfl, low, high⟩ := first
  obtain ⟨before', after', same, low', high'⟩ := second
  rcases List.append_eq_append_iff.mp same with ⟨middle, rfl, split⟩ | ⟨middle, rfl, split⟩
  · cases middle with
    | nil =>
      obtain ⟨eq, -⟩ := List.cons.inj split
      exact (Prod.mk.inj eq).2
    | cons item middle =>
      obtain ⟨rfl, rfl⟩ := List.cons.inj split
      have less := low' one (List.mem_append_right _ List.mem_cons_self)
      exact absurd less (not_lt.mpr (high two (List.mem_append_right _ List.mem_cons_self)))
  · cases middle with
    | nil =>
      obtain ⟨eq, -⟩ := List.cons.inj split
      exact (Prod.mk.inj eq).2.symm
    | cons item middle =>
      obtain ⟨rfl, rfl⟩ := List.cons.inj split
      have less := low two (List.mem_append_right _ List.mem_cons_self)
      exact absurd less (not_lt.mpr (high' one (List.mem_append_right _ List.mem_cons_self)))

/-- **The loop keeps the first of the heaviest values of each key.** -/
theorem get_foldl_keepMax_iff {items : List (K × V)} {key : K} {value : V} :
    (items.foldl (keepMax weight) ([] : Dict K V)).get key = some value ↔ FirstMax weight items key value := by
  obtain ⟨found, missing⟩ := @get_foldl_keepMax _ _ _ _ _ weight items key
  refine ⟨found value, fun first => ?_⟩
  cases held : (items.foldl (keepMax weight) ([] : Dict K V)).get key with
  | none =>
    obtain ⟨before, after, rfl, -⟩ := first
    exact absurd (List.mem_append_right _ List.mem_cons_self) (missing held value)
  | some other => rw [(found other held).unique first]

theorem nodup_foldl_keepMax (items : List (K × V)) :
    (items.foldl (keepMax weight) ([] : Dict K V)).keys.Nodup :=
  (keys_foldl_keepMax items).2.imp fun less => by
    rintro rfl
    exact Nat.lt_irrefl _ less

end Best

end Dict

end Freshet.Lib
