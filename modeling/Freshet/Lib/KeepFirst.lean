/-
**Deduplication that keeps the first.**

`keepFirst` goes over a stream once, with the keys it has already let through. Of the items of one
key it lets through the first and no other (`filter_keepFirst`), so what comes out for a key does
not depend on the rest of the stream, nor on how often its items are delivered
(`keepFirst_redelivered`).
-/

import Freshet.Lib.Dict
import Mathlib.Data.List.Basic
import Mathlib.Data.List.Induction

namespace Freshet.Lib

variable {α κ : Type} [DecidableEq κ] (key : α → κ)

/-- The items whose key has not come before; `seen` are the keys before the stream. -/
def keepFirst (seen : List κ) : List α → List α
  | [] => []
  | item :: items =>
    if key item ∈ seen then keepFirst seen items
    else item :: keepFirst (key item :: seen) items

theorem keepFirst_known {seen : List κ} {item : α} (known : key item ∈ seen) (items : List α) :
    keepFirst key seen (item :: items) = keepFirst key seen items := if_pos known

theorem keepFirst_new {seen : List κ} {item : α} (new : key item ∉ seen) (items : List α) :
    keepFirst key seen (item :: items) = item :: keepFirst key (key item :: seen) items := if_neg new

theorem mem_of_mem_keepFirst {seen : List κ} {items : List α} {item : α}
    (kept : item ∈ keepFirst key seen items) : item ∈ items := by
  induction items generalizing seen with
  | nil => exact kept
  | cons head items ih =>
    unfold keepFirst at kept
    split_ifs at kept with known
    · exact List.mem_cons_of_mem _ (ih kept)
    · rcases List.mem_cons.mp kept with here | later
      · exact List.mem_cons.mpr (Or.inl here)
      · exact List.mem_cons_of_mem _ (ih later)

/-- **Of the items of a key the first is kept**, or none when the key came before the stream. -/
theorem filter_keepFirst (seen : List κ) (items : List α) (k : κ) :
    (keepFirst key seen items).filter (fun item => key item = k) =
      if k ∈ seen then [] else (items.filter fun item => key item = k).take 1 := by
  induction items generalizing seen with
  | nil => simp [keepFirst]
  | cons item items ih =>
    unfold keepFirst
    by_cases same : key item = k
    · subst same
      split_ifs with known
      · rw [ih, if_pos known]
      · rw [List.filter_cons_of_pos (by simp), List.filter_cons_of_pos (by simp), ih,
          if_pos List.mem_cons_self, List.take_succ_cons, List.take_zero]
    · have skip : (item :: items).filter (fun item => key item = k) =
          items.filter fun item => key item = k := List.filter_cons_of_neg (by simpa using same)
      split_ifs with known before before
      · rw [ih, if_pos before]
      · rw [ih, if_neg before, skip]
      · rw [List.filter_cons_of_neg (by simpa using same), ih,
          if_pos (List.mem_cons_of_mem _ before)]
      · have fresh : k ∉ key item :: seen := by
          rw [List.mem_cons, not_or]
          exact ⟨fun eq => same eq.symm, before⟩
        rw [List.filter_cons_of_neg (by simpa using same), ih, if_neg fresh, skip]

/-- Only which keys of the stream have come before matters. -/
theorem keepFirst_congr {seen seen' : List κ} {items : List α}
    (same : ∀ item ∈ items, key item ∈ seen ↔ key item ∈ seen') :
    keepFirst key seen items = keepFirst key seen' items := by
  induction items generalizing seen seen' with
  | nil => rfl
  | cons item items ih =>
    obtain ⟨here, later⟩ := List.forall_mem_cons.mp same
    by_cases known : key item ∈ seen
    · rw [keepFirst_known key known, keepFirst_known key (here.mp known), ih later]
    · rw [keepFirst_new key known, keepFirst_new key (mt here.mpr known)]
      congr 1
      refine ih fun other member => ?_
      rw [List.mem_cons, List.mem_cons, later other member]

/-- **A stream in two parts**: the keys of the first have come before the second. -/
theorem keepFirst_append (seen : List κ) (items later : List α) :
    keepFirst key seen (items ++ later) =
      keepFirst key seen items ++ keepFirst key (items.map key ++ seen) later := by
  induction items generalizing seen with
  | nil => rfl
  | cons item items ih =>
    rw [List.cons_append]
    by_cases known : key item ∈ seen
    · rw [keepFirst_known key known, keepFirst_known key known, ih]
      congr 1
      refine keepFirst_congr key fun other _ => ?_
      rw [List.map_cons, List.cons_append, List.mem_cons, List.mem_append]
      constructor
      · exact Or.inr
      · rintro (same | before)
        · exact Or.inr (same ▸ known)
        · exact before
    · rw [keepFirst_new key known, keepFirst_new key known, ih, List.cons_append]
      congr 2
      refine keepFirst_congr key fun other _ => ?_
      rw [List.map_cons, List.cons_append, List.mem_cons, List.mem_append, List.mem_append,
        List.mem_cons]
      exact or_left_comm

/-- A key that comes in the stream is let through exactly once. -/
theorem keepFirst_once {items : List α} {item : α} (member : item ∈ items) :
    ∃ first ∈ items, key first = key item ∧
      (keepFirst key [] items).filter (fun other => key other = key item) = [first] := by
  have mine : item ∈ items.filter fun other => key other = key item :=
    List.mem_filter.mpr ⟨member, by simp⟩
  cases found : items.filter fun other => key other = key item with
  | nil =>
    rw [found] at mine
    exact absurd mine List.not_mem_nil
  | cons first later =>
    have head : first ∈ items.filter fun other => key other = key item := by
      rw [found]
      exact List.mem_cons_self
    obtain ⟨among, same⟩ := List.mem_filter.mp head
    refine ⟨first, among, of_decide_eq_true same, ?_⟩
    rw [filter_keepFirst, if_neg List.not_mem_nil, found, List.take_succ_cons, List.take_zero]

theorem not_seen_of_mem_keepFirst {seen : List κ} {items : List α} {item : α}
    (kept : item ∈ keepFirst key seen items) : key item ∉ seen := by
  induction items generalizing seen with
  | nil => cases kept
  | cons head items ih =>
    unfold keepFirst at kept
    split_ifs at kept with known
    · exact ih kept
    · rcases List.mem_cons.mp kept with rfl | later
      · exact known
      · exact fun before => ih later (List.mem_cons_of_mem _ before)

/-- No two items that are let through have one key. -/
theorem nodup_keepFirst (seen : List κ) (items : List α) :
    ((keepFirst key seen items).map key).Nodup := by
  induction items generalizing seen with
  | nil => exact List.nodup_nil
  | cons item items ih =>
    by_cases known : key item ∈ seen
    · rw [keepFirst_known key known]
      exact ih seen
    · rw [keepFirst_new key known, List.map_cons, List.nodup_cons]
      refine ⟨fun repeated => ?_, ih _⟩
      obtain ⟨other, later, same⟩ := List.mem_map.mp repeated
      exact not_seen_of_mem_keepFirst key later (same ▸ List.mem_cons_self)

/-! ### Other streams -/

/-- **A part of the stream that its keys decide** is deduplicated alone. -/
theorem keepFirst_filter {part : α → Bool} (decided : ∀ a b, key a = key b → part a = part b)
    (seen : List κ) (items : List α) :
    (keepFirst key seen items).filter part = keepFirst key seen (items.filter part) := by
  induction items generalizing seen with
  | nil => rfl
  | cons item items ih =>
    cases within : part item with
    | true =>
      rw [List.filter_cons_of_pos within]
      by_cases known : key item ∈ seen
      · rw [keepFirst_known key known, keepFirst_known key known, ih]
      · rw [keepFirst_new key known, keepFirst_new key known, List.filter_cons_of_pos within, ih]
    | false =>
      have outside : ¬ part item = true := Bool.eq_false_iff.mp within
      rw [List.filter_cons_of_neg outside]
      by_cases known : key item ∈ seen
      · rw [keepFirst_known key known, ih]
      · rw [keepFirst_new key known, List.filter_cons_of_neg outside, ih]
        -- No item of the part has the key that is new.
        refine keepFirst_congr key fun other member => ?_
        rw [List.mem_cons]
        refine or_iff_right fun same => outside ?_
        rw [← decided other item same]
        exact (List.mem_filter.mp member).2

/-- A stream that brings no new key. -/
theorem keepFirst_repeated {seen : List κ} {items : List α} (known : ∀ item ∈ items, key item ∈ seen) :
    keepFirst key seen items = [] := by
  induction items with
  | nil => rfl
  | cons item items ih =>
    obtain ⟨here, later⟩ := List.forall_mem_cons.mp known
    rw [keepFirst_known key here, ih later]

theorem keepFirst_map {β : Type} (f : β → α) (seen : List κ) (items : List β) :
    keepFirst key seen (items.map f) = (keepFirst (fun b => key (f b)) seen items).map f := by
  induction items generalizing seen with
  | nil => rfl
  | cons item items ih =>
    rw [List.map_cons]
    by_cases known : key (f item) ∈ seen
    · rw [keepFirst_known key known, keepFirst_known (fun b => key (f b)) known, ih]
    · rw [keepFirst_new key known, keepFirst_new (fun b => key (f b)) known, List.map_cons, ih]

/-- **Keys that tell the same items apart** let the same through. -/
theorem keepFirst_key_congr {κ' : Type} [DecidableEq κ'] {key' : α → κ'} {seen items : List α}
    (same : ∀ a ∈ seen ++ items, ∀ b ∈ seen ++ items, key a = key b ↔ key' a = key' b) :
    keepFirst key (seen.map key) items = keepFirst key' (seen.map key') items := by
  induction items generalizing seen with
  | nil => rfl
  | cons item items ih =>
    have alike : key item ∈ seen.map key ↔ key' item ∈ seen.map key' := by
      rw [List.mem_map, List.mem_map]
      refine exists_congr fun other => and_congr_right fun member => ?_
      exact same other (List.mem_append_left _ member) item
        (List.mem_append_right _ List.mem_cons_self)
    by_cases known : key item ∈ seen.map key
    · rw [keepFirst_known key known, keepFirst_known key' (alike.mp known)]
      have moved : ∀ a ∈ seen ++ items, a ∈ seen ++ item :: items := fun a member =>
        ((List.sublist_cons_self item items).append_left seen).subset member
      exact ih fun a first b second => same a (moved a first) b (moved b second)
    · rw [keepFirst_new key known, keepFirst_new key' (mt alike.mpr known)]
      congr 1
      have moved : ∀ a ∈ (item :: seen) ++ items, a ∈ seen ++ item :: items := fun a member =>
        List.perm_middle.symm.subset member
      exact @ih (item :: seen) fun a first b second =>
        same a (moved a first) b (moved b second)

/-! ### A stream that is delivered more than once -/

/-- **The second stream is the first, with items that come again**: `again earlier item` says that
`item` may be a repetition of `earlier`. -/
inductive Redelivered {α : Type} (again : α → α → Prop) : List α → List α → Prop
  | none : Redelivered again [] []
  | fresh {once more : List α} (before : Redelivered again once more) (item : α) :
      Redelivered again (once ++ [item]) (more ++ [item])
  | repeated {once more : List α} {earlier item : α} (before : Redelivered again once more)
      (member : earlier ∈ more) (repeats : again earlier item) :
      Redelivered again once (more ++ [item])

section Redelivered

variable {key} {again : α → α → Prop} {part : α → Bool}

omit [DecidableEq κ] in
/-- Repetitions bring no new key. -/
theorem keys_redelivered
    (known : ∀ earlier item, again earlier item → part item = true →
      part earlier = true ∧ key earlier = key item)
    {once more : List α} (redelivered : Redelivered again once more) (k : κ) :
    k ∈ (more.filter part).map key ↔ k ∈ (once.filter part).map key := by
  induction redelivered with
  | none => exact Iff.rfl
  | fresh before item ih =>
    rw [List.filter_append, List.filter_append, List.map_append, List.map_append, List.mem_append,
      List.mem_append, ih]
  | @repeated once more earlier item before member repeats ih =>
    rw [List.filter_append, List.map_append, List.mem_append, ih, or_iff_left_iff_imp]
    intro new
    obtain ⟨found, among, rfl⟩ := List.mem_map.mp new
    obtain ⟨here, kept⟩ := List.mem_filter.mp among
    obtain rfl := List.mem_singleton.mp here
    obtain ⟨kept', same⟩ := known earlier found repeats kept
    rw [← ih, ← same]
    exact List.mem_map_of_mem (List.mem_filter.mpr ⟨member, kept'⟩)

/-- **What is delivered more than once is let through once**: the part of the stream that is looked
at gives the same, where a repetition has its original's key and is not in that part alone. -/
theorem keepFirst_redelivered
    (known : ∀ earlier item, again earlier item → part item = true →
      part earlier = true ∧ key earlier = key item)
    {once more : List α} (redelivered : Redelivered again once more) :
    keepFirst key [] (more.filter part) = keepFirst key [] (once.filter part) := by
  induction redelivered with
  | none => rfl
  | @fresh once more before item ih =>
    rw [List.filter_append, List.filter_append, keepFirst_append, keepFirst_append, ih,
      List.append_nil, List.append_nil]
    congr 1
    exact keepFirst_congr key fun _ _ => keys_redelivered known before _
  | @repeated once more earlier item before member repeats ih =>
    rw [List.filter_append, keepFirst_append, ih, List.append_nil]
    refine (congrArg _ (keepFirst_repeated key fun found among => ?_)).trans (List.append_nil _)
    obtain ⟨here, kept⟩ := List.mem_filter.mp among
    obtain rfl := List.mem_singleton.mp here
    obtain ⟨kept', same⟩ := known earlier found repeats kept
    rw [← same]
    exact List.mem_map_of_mem (List.mem_filter.mpr ⟨member, kept'⟩)

/-- **A stream is its first items of each key, delivered more than once**, where a later item of a key
repeats the earlier ones. -/
theorem redelivered_keepFirst {items : List α}
    (repeats : items.Pairwise fun earlier later => key earlier = key later → again earlier later) :
    Redelivered again (keepFirst key [] items) items := by
  induction items using List.reverseRecOn with
  | nil => exact .none
  | append_singleton items item ih =>
    obtain ⟨among, -, between⟩ := List.pairwise_append.mp repeats
    rw [keepFirst_append, List.append_nil]
    by_cases known : key item ∈ items.map key
    · obtain ⟨earlier, member, same⟩ := List.mem_map.mp known
      rw [keepFirst_known key known, show keepFirst key (items.map key) [] = [] from rfl,
        List.append_nil]
      exact (ih among).repeated member (between earlier member item List.mem_cons_self same)
    · rw [keepFirst_new key known]
      exact (ih among).fresh item

end Redelivered

/-! ### What is let through last -/

/-- **The item whose key was the last to be new**: no later one brings another key. -/
def LastNew (items : List α) (item : α) : Prop :=
  ∃ before after, items = before ++ item :: after ∧ key item ∉ before.map key ∧
    ∀ later ∈ after, key later ∈ (before ++ [item]).map key

/-- It is the last one that is let through. -/
theorem getLast_keepFirst_iff {items : List α} {item : α} :
    (keepFirst key [] items).getLast? = some item ↔ LastNew key items item := by
  constructor
  · intro last
    induction items using List.reverseRecOn with
    | nil => cases last
    | append_singleton items newest ih =>
      rw [keepFirst_append, List.append_nil] at last
      by_cases known : key newest ∈ items.map key
      · rw [keepFirst_known key known] at last
        rw [show keepFirst key (items.map key) [] = [] from rfl, List.append_nil] at last
        obtain ⟨before, after, rfl, new, repeated⟩ := ih last
        refine ⟨before, after ++ [newest], ?_, new, fun later member => ?_⟩
        · rw [List.append_assoc, List.cons_append]
        · rcases List.mem_append.mp member with old | here
          · exact repeated later old
          · obtain rfl := List.mem_singleton.mp here
            rw [← List.singleton_append, ← List.append_assoc, List.map_append] at known
            rcases List.mem_append.mp known with already | among
            · exact already
            · obtain ⟨other, member', eq⟩ := List.mem_map.mp among
              exact eq ▸ repeated other member'
      · rw [keepFirst_new key known, show keepFirst key (key newest :: items.map key) [] = [] from rfl,
          List.getLast?_concat] at last
        obtain rfl := Option.some.inj last
        exact ⟨items, [], rfl, known, fun later member => absurd member List.not_mem_nil⟩
  · rintro ⟨before, after, rfl, new, repeated⟩
    have known : ∀ later ∈ after, key later ∈ key item :: before.map key := by
      intro later member
      have known := repeated later member
      rw [List.map_append] at known
      exact (List.perm_append_singleton _ _).subset known
    rw [keepFirst_append, List.append_nil, keepFirst_new key new, keepFirst_repeated key known,
      List.getLast?_concat]

omit [DecidableEq κ] in
/-- The last item of a part has none of it behind. -/
theorem exists_split_of_filter {part : α → Bool} {items front : List α} {last : α}
    (ends : items.filter part = front ++ [last]) :
    ∃ before after, items = before ++ last :: after ∧ part last = true ∧
      ∀ later ∈ after, ¬ part later = true := by
  obtain ⟨before, rest, rfl, -, here⟩ := List.filter_eq_append_iff.mp ends
  obtain ⟨between, after, rfl, -, within, none⟩ := List.filter_eq_cons_iff.mp here
  exact ⟨before ++ between, after, (List.append_assoc _ _ _).symm, within,
    List.filter_eq_nil_iff.mp none⟩

/-! ### Dictionaries -/

/-- **A dictionary that is filled with `setdefault`** keeps the first item of each key, in order. -/
theorem foldl_setDefault {V : Type} (value : α → V) (items : List α) (d : Dict κ V) :
    items.foldl (fun d item => d.setDefault (key item) (value item)) d =
      d ++ (keepFirst key d.keys items).map fun item => (key item, value item) := by
  induction items generalizing d with
  | nil => exact (List.append_nil d).symm
  | cons item items ih =>
    rw [List.foldl_cons, ih]
    unfold Dict.setDefault
    by_cases known : key item ∈ d.keys
    · rw [if_pos (Dict.isSome_get.mpr known), keepFirst_known key known]
    · have keys : (d ++ [(key item, value item)] : Dict κ V).keys = d.keys ++ [key item] :=
        List.map_append
      rw [if_neg (mt Dict.isSome_get.mp known), Dict.set_of_new known, keepFirst_new key known, keys,
        List.map_cons, List.append_assoc, List.singleton_append]
      congr 3
      exact keepFirst_congr key fun other _ => by
        rw [List.mem_append, List.mem_singleton, List.mem_cons, or_comm]

end Freshet.Lib
