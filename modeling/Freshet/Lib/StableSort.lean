/-
**Stable sorting.**

A stable sort of a list is ordered by its key, and the items of one key stand in it as they stood
before. There is only one (`unique`), so the two sorts of the library are the same, and sorting parts
before sorting the whole changes nothing.
-/

import Mathlib.Data.List.Sort
import Mathlib.Data.Set.Card

namespace Freshet.Lib

variable {α β κ : Type} [LinearOrder κ] {key : α → κ}

/-- **`result` is `source`, stably sorted.** -/
structure StableSort (key : α → κ) (source result : List α) : Prop where
  ordered : result.Pairwise fun a b => key a ≤ key b
  stable : ∀ k, result.filter (fun a => key a = k) = source.filter fun a => key a = k

namespace StableSort

theorem mem_iff {source result : List α} (sorts : StableSort key source result) {a : α} :
    a ∈ result ↔ a ∈ source := by
  have same : ∀ items : List α, a ∈ items ↔ a ∈ items.filter fun b => key b = key a := by
    intro items
    rw [List.mem_filter, decide_eq_true_eq, and_iff_left rfl]
  rw [same result, sorts.stable, ← same source]

/-- What a list has of a key it has first or later. -/
theorem filter_tail {first : α} {one two : List α}
    (same : ∀ k, (first :: one).filter (fun a => key a = k) = (first :: two).filter fun a => key a = k)
    (k : κ) : one.filter (fun a => key a = k) = two.filter fun a => key a = k := by
  have here := same k
  by_cases matches' : key first = k
  · rw [List.filter_cons_of_pos (by simpa using matches'),
      List.filter_cons_of_pos (by simpa using matches')] at here
    exact (List.cons.inj here).2
  · rw [List.filter_cons_of_neg (by simpa using matches'),
      List.filter_cons_of_neg (by simpa using matches')] at here
    exact here

/-- **There is only one stable sort.** -/
theorem unique {source one two : List α} (sorts : StableSort key source one)
    (sorts' : StableSort key source two) : one = two := by
  have same : ∀ k, one.filter (fun a => key a = k) = two.filter fun a => key a = k :=
    fun k => (sorts.stable k).trans (sorts'.stable k).symm
  have ordered := sorts.ordered
  have ordered' := sorts'.ordered
  clear sorts sorts'
  induction one generalizing two with
  | nil =>
    cases two with
    | nil => rfl
    | cons b two =>
      have here := same (key b)
      rw [List.filter_cons_of_pos (by simp)] at here
      exact absurd here (by simp)
  | cons a one ih =>
    have inside : ∀ {c : α} {items other : List α}, c ∈ items →
        (∀ k, items.filter (fun a => key a = k) = other.filter fun a => key a = k) → c ∈ other := by
      intro c items other member same
      have kept : c ∈ items.filter fun a => key a = key c := List.mem_filter.mpr ⟨member, by simp⟩
      rw [same] at kept
      exact (List.mem_filter.mp kept).1
    cases two with
    | nil => exact absurd (inside List.mem_cons_self same) List.not_mem_nil
    | cons b two =>
      -- both heads have the least key, so they are the first of that key
      have lower : key a ≤ key b := by
        rcases List.mem_cons.mp (inside List.mem_cons_self fun k => (same k).symm) with rfl | later
        · exact le_refl _
        · exact List.rel_of_pairwise_cons ordered later
      have upper : key b ≤ key a := by
        rcases List.mem_cons.mp (inside List.mem_cons_self same) with rfl | later
        · exact le_refl _
        · exact List.rel_of_pairwise_cons ordered' later
      have heads := same (key a)
      rw [List.filter_cons_of_pos (by simp),
        List.filter_cons_of_pos (by simpa using le_antisymm upper lower)] at heads
      obtain ⟨rfl, -⟩ := List.cons.inj heads
      rw [ih (filter_tail same) ordered.of_cons ordered'.of_cons]

/-- A sort that permutes and keeps what is in order is stable. -/
theorem of_keeps {source result : List α} (perm : result.Perm source)
    (ordered : result.Pairwise fun a b => key a ≤ key b)
    (keeps : ∀ part : List α, part.Pairwise (fun a b => key a ≤ key b) → part.Sublist source →
      part.Sublist result) : StableSort key source result where
  ordered := ordered
  stable := by
    intro k
    have level : (source.filter fun a => key a = k).Pairwise fun a b => key a ≤ key b := by
      refine List.pairwise_of_forall_mem_list fun a first b second => ?_
      have one := of_decide_eq_true (List.mem_filter.mp first).2
      have two := of_decide_eq_true (List.mem_filter.mp second).2
      rw [one, two]
    have part := (keeps _ level List.filter_sublist).filter fun a => key a = k
    rw [List.filter_filter] at part
    simp only [Bool.and_self] at part
    exact (part.eq_of_length (perm.filter _).length_eq.symm).symm

theorem insertionSort (source : List α) :
    StableSort key source (source.insertionSort fun a b => key a ≤ key b) := by
  have total : Std.Total fun a b : α => key a ≤ key b := ⟨fun a b => le_total (key a) (key b)⟩
  have trans : IsTrans α fun a b => key a ≤ key b := ⟨fun _ _ _ => le_trans⟩
  exact of_keeps (List.perm_insertionSort _ _) (List.pairwise_insertionSort _ _)
    fun part level inside => List.sublist_insertionSort level inside

theorem mergeSort (source : List α) :
    StableSort key source (source.mergeSort fun a b => key a ≤ key b) := by
  have trans : ∀ a b c : α, decide (key a ≤ key b) = true → decide (key b ≤ key c) = true →
      decide (key a ≤ key c) = true := by
    intro a b c
    simp only [decide_eq_true_eq]
    exact le_trans
  have total : ∀ a b : α, (decide (key a ≤ key b) || decide (key b ≤ key a)) = true := by
    intro a b
    simp only [Bool.or_eq_true, decide_eq_true_eq]
    exact le_total (key a) (key b)
  refine of_keeps (List.mergeSort_perm _ _) ?_ fun part level inside => ?_
  · have ordered := List.pairwise_mergeSort trans total source
    simpa only [decide_eq_true_eq] using ordered
  · refine List.sublist_mergeSort trans total ?_ inside
    simpa only [decide_eq_true_eq] using level

/-- What is sorted by what its items are mapped to. -/
theorem map {f : β → α} {source result : List β}
    (sorts : StableSort (fun b => key (f b)) source result) :
    StableSort key (source.map f) (result.map f) where
  ordered := List.pairwise_map.mpr sorts.ordered
  stable := by
    intro k
    rw [List.filter_map, List.filter_map]
    exact congrArg (List.map f) (sorts.stable k)

/-- A selection of what is sorted. -/
theorem filter {source result : List α} (sorts : StableSort key source result) (test : α → Bool) :
    StableSort key (source.filter test) (result.filter test) where
  ordered := sorts.ordered.filter test
  stable := by
    intro k
    have swap : ∀ items : List α, (items.filter test).filter (fun a => key a = k) =
        (items.filter fun a => key a = k).filter test := by
      intro items
      rw [List.filter_filter, List.filter_filter]
      exact List.filter_congr fun a _ => Bool.and_comm _ _
    rw [swap, swap, sorts.stable]

/-- What is sorted matters only up to the order of the items of each key. -/
theorem congr_source {source source' result : List α}
    (same : ∀ k, source.filter (fun a => key a = k) = source'.filter fun a => key a = k) :
    StableSort key source result ↔ StableSort key source' result :=
  ⟨fun sorts => ⟨sorts.ordered, fun k => (sorts.stable k).trans (same k)⟩,
    fun sorts => ⟨sorts.ordered, fun k => (sorts.stable k).trans (same k).symm⟩⟩

/-- **Sorting a part first changes nothing.** -/
theorem sort_part {source part before after result : List α} (sorts : StableSort key source part) :
    StableSort key (before ++ (part ++ after)) result ↔
      StableSort key (before ++ (source ++ after)) result := by
  refine congr_source fun k => ?_
  rw [List.filter_append, List.filter_append, List.filter_append, List.filter_append, sorts.stable]

/-- **Sorting the parts first changes nothing.** -/
theorem flatten {sources parts : List (List α)} {result : List α}
    (each : List.Forall₂ (StableSort key) sources parts) :
    StableSort key parts.flatten result ↔ StableSort key sources.flatten result := by
  refine congr_source fun k => ?_
  induction each with
  | nil => rfl
  | cons sorts _ ih =>
    rw [List.flatten_cons, List.flatten_cons, List.filter_append, List.filter_append, sorts.stable,
      ih]

/-- A list that reads the same backwards and has nothing twice has at most one item. -/
theorem short_of_palindrome {items : List α} (distinct : items.Nodup)
    (same : items.reverse = items) : items.length ≤ 1 := by
  cases items with
  | nil => exact Nat.zero_le 1
  | cons first later =>
    cases reversed : later.reverse with
    | nil =>
      rw [List.reverse_eq_nil_iff.mp reversed]
      exact le_refl 1
    | cons last before =>
      rw [List.reverse_cons, reversed] at same
      obtain ⟨rfl, -⟩ := List.cons.inj same
      have among : last ∈ later := by
        rw [← List.mem_reverse, reversed]
        exact List.mem_cons_self
      exact absurd among (List.nodup_cons.mp distinct).1

/-- **A descending list is sorted by reversing it exactly when no key comes twice.** -/
theorem eq_reverse_iff {source result : List α} (sorts : StableSort key source result)
    (distinct : source.Nodup) (descends : source.Pairwise fun a b => key b ≤ key a) :
    result = source.reverse ↔ source.Pairwise fun a b => key b < key a := by
  constructor
  · intro reversed
    rw [List.pairwise_iff_forall_sublist]
    intro a b inside
    refine lt_of_le_of_ne (List.pairwise_iff_forall_sublist.mp descends inside) fun tie => ?_
    -- the items of the tied key stand in the result in both orders
    have palindrome := sorts.stable (key a)
    rw [reversed, List.filter_reverse] at palindrome
    have short := short_of_palindrome (distinct.filter _) palindrome
    have two := (inside.filter fun c => key c = key a).length_le
    rw [List.filter_cons_of_pos (by simp), List.filter_cons_of_pos (by simp [tie])] at two
    simp only [List.filter_nil, List.length_cons, List.length_nil] at two
    omega
  · intro strict
    refine sorts.unique ⟨?_, fun k => ?_⟩
    · rw [List.pairwise_reverse]
      exact strict.imp le_of_lt
    · rw [List.filter_reverse]
      have alone := strict.filter fun a => decide (key a = k)
      have level : ∀ a ∈ source.filter fun a => decide (key a = k), key a = k := fun a among =>
        of_decide_eq_true (List.mem_filter.mp among).2
      cases kept : source.filter fun a => decide (key a = k) with
      | nil => rfl
      | cons first later =>
        cases later with
        | nil => rfl
        | cons second later =>
          rw [kept] at alone level
          have below := List.rel_of_pairwise_cons alone List.mem_cons_self
          rw [level first List.mem_cons_self,
            level second (List.mem_cons_of_mem _ List.mem_cons_self)] at below
          exact absurd below (lt_irrefl k)

/-- **Where an item stands in a stable sort**: behind the smaller keys, and behind its own key's
earlier places. -/
theorem mem_take_iff {source result : List α} (sorts : StableSort key source result)
    {place : α → ℕ} (placed : source.Pairwise fun a b => place a < place b) {a : α}
    (member : a ∈ source) {n : ℕ} :
    a ∈ result.take n ↔
      {b | b ∈ source ∧ (key b < key a ∨ key b = key a ∧ place b < place a)}.ncard < n := by
  classical
  have pairs : ∀ {b c : α}, [b, c].Sublist source → place b < place c :=
    List.pairwise_iff_forall_sublist.mp placed
  have once : result.Nodup := by
    rw [List.nodup_iff_sublist]
    intro b twice
    have twice' := twice.filter fun c => decide (key c = key b)
    rw [sorts.stable, List.filter_cons_of_pos (by simp), List.filter_cons_of_pos (by simp)] at twice'
    exact absurd (pairs (twice'.trans List.filter_sublist)) (lt_irrefl _)
  obtain ⟨before, after, rfl⟩ := List.append_of_mem (sorts.mem_iff.mpr member)
  have tied : ∀ {b c : α}, [b, c].Sublist (before ++ a :: after) → key b = key c →
      place b < place c := by
    intro b c sub same
    have sub' := sub.filter fun d => decide (key d = key c)
    rw [sorts.stable, List.filter_cons_of_pos (by simpa using same),
      List.filter_cons_of_pos (by simp)] at sub'
    exact pairs (sub'.trans List.filter_sublist)
  have ordered : ∀ {b c : α}, [b, c].Sublist (before ++ a :: after) → key b ≤ key c :=
    List.pairwise_iff_forall_sublist.mp sorts.ordered
  have ahead : {b | b ∈ source ∧ (key b < key a ∨ key b = key a ∧ place b < place a)} =
      (before.toFinset : Set α) := by
    ext b
    rw [Set.mem_ofPred_eq, Finset.mem_coe, List.mem_toFinset]
    constructor
    · rintro ⟨inside, less⟩
      rcases List.mem_append.mp (sorts.mem_iff.mpr inside) with early | late
      · exact early
      · exfalso
        rcases List.mem_cons.mp late with rfl | late
        · rcases less with less | ⟨-, less⟩ <;> exact lt_irrefl _ less
        · have sub : [a, b].Sublist (before ++ a :: after) :=
            (List.Sublist.cons_cons a (List.singleton_sublist.mpr late)).trans
              (List.sublist_append_right _ _)
          rcases less with less | ⟨same, less⟩
          · exact absurd less (not_lt.mpr (ordered sub))
          · exact absurd less (tied sub same.symm).not_gt
    · intro early
      have sub : [b, a].Sublist (before ++ a :: after) :=
        (List.singleton_sublist.mpr early).append (List.Sublist.cons_cons a (List.nil_sublist after))
      refine ⟨sorts.mem_iff.mp (List.mem_append_left _ early), ?_⟩
      rcases lt_or_eq_of_le (ordered sub) with less | same
      · exact Or.inl less
      · exact Or.inr ⟨same, tied sub same⟩
  obtain ⟨distinct, -, apart⟩ := List.nodup_append.mp once
  have fresh : a ∉ before := fun inside => apart a inside a List.mem_cons_self rfl
  rw [ahead, Set.ncard_coe_finset, List.toFinset_card_of_nodup distinct,
    List.mem_take_iff_idxOf_lt (List.mem_append_right _ List.mem_cons_self),
    List.idxOf_append_of_notMem fresh, List.idxOf_cons_self, Nat.add_zero]

end StableSort

end Freshet.Lib
