/-
**Reciprocal-rank fusion.**

An id scores the sum of `1 / (rrf_k + rank)` over the lists it is in, and the loop over the lists and
their ranks adds up just that (`fuse_spec`). Whoever stands before another in every list that has
the other scores more; and of two lists that are not too long, two shares of the last places are
more than one of the first (`fusion_respects_agreement`).
-/

import Freshet.Lib.Dict
import Freshet.Lib.StableSort
import Mathlib.Algebra.Order.BigOperators.Group.List
import Mathlib.Algebra.Order.Field.Rat
import Mathlib.Tactic.FieldSimp
import Mathlib.Tactic.Linarith
import Mathlib.Tactic.Positivity

namespace Freshet.Rag

open Freshet.Lib

variable {α : Type} [DecidableEq α]

def rrfK : ℕ := 60

/-- `scores[cid] = scores.get(cid, 0.0) + 1.0 / (rrf_k + rank)`. -/
def addRank (k : ℕ) (scores : Dict α ℚ) (entry : α × ℕ) : Dict α ℚ :=
  scores.set entry.1 ((scores.get entry.1).getD 0 + 1 / (k + entry.2))

/-- The two loops. -/
def fuse (k : ℕ) (rankedLists : List (List α)) : Dict α ℚ :=
  rankedLists.foldl (fun scores ranked => ranked.zipIdx.foldl (addRank k) scores) []

/-- **`reciprocal_rank_fusion`.** -/
def reciprocalRankFusion (rankedLists : List (List α)) (k : ℕ := rrfK) : List (α × ℚ) :=
  (fuse k rankedLists).mergeSort fun first second => second.2 ≤ first.2

/-! ### Scores -/

/-- What one list adds to the score of an id. -/
def share (k : ℕ) (id : α) (ranked : List α) : ℚ :=
  if id ∈ ranked then 1 / (k + ranked.idxOf id) else 0

/-- **The exact score.** -/
def score (k : ℕ) (rankedLists : List (List α)) (id : α) : ℚ :=
  (rankedLists.map (share k id)).sum

theorem get_addRank (k : ℕ) (scores : Dict α ℚ) (entry : α × ℕ) (id : α) :
    (addRank k scores entry).get id =
      if id = entry.1 then some ((scores.get id).getD 0 + 1 / (k + entry.2))
      else scores.get id := by
  unfold addRank
  rw [Dict.get_set]
  split_ifs with same
  · rw [same]
  · rfl

/-- The loop over one list, from any rank on. -/
theorem get_ranked (k : ℕ) {ranked : List α} (distinct : ranked.Nodup) (start : ℕ)
    (scores : Dict α ℚ) (id : α) :
    ((ranked.zipIdx start).foldl (addRank k) scores).get id =
      if id ∈ ranked then
        some ((scores.get id).getD 0 + 1 / (k + ((start + ranked.idxOf id : ℕ) : ℚ)))
      else scores.get id := by
  induction ranked generalizing start scores with
  | nil => simp
  | cons first rest ih =>
    obtain ⟨new, distinct⟩ := List.nodup_cons.mp distinct
    rw [List.zipIdx_cons, List.foldl_cons, ih distinct, get_addRank]
    by_cases same : id = first
    · subst same
      rw [if_neg new, if_pos rfl, if_pos List.mem_cons_self, List.idxOf_cons_self, Nat.add_zero]
    · have later : id ∈ first :: rest ↔ id ∈ rest := by simp [same]
      have moved : start + (first :: rest).idxOf id = start + 1 + rest.idxOf id := by
        rw [List.idxOf_cons_ne _ (Ne.symm same)]
        omega
      simp only [later, if_neg same, moved]

/-- **The loops add up the scores.** -/
theorem get_fuse (k : ℕ) {rankedLists : List (List α)}
    (distinct : ∀ ranked ∈ rankedLists, ranked.Nodup) (id : α) :
    (fuse k rankedLists).get id =
      if ∃ ranked ∈ rankedLists, id ∈ ranked then some (score k rankedLists id) else none := by
  have loop : ∀ (lists : List (List α)) (scores : Dict α ℚ), (∀ ranked ∈ lists, ranked.Nodup) →
      (lists.foldl (fun scores ranked => ranked.zipIdx.foldl (addRank k) scores) scores).get id =
        if ∃ ranked ∈ lists, id ∈ ranked then some ((scores.get id).getD 0 + score k lists id)
        else scores.get id := by
    intro lists
    induction lists with
    | nil => intro scores _; simp
    | cons ranked rest ih =>
      intro scores distinct
      obtain ⟨here, distinct⟩ := List.forall_mem_cons.mp distinct
      have total : score k (ranked :: rest) id = share k id ranked + score k rest id := by
        unfold score
        rw [List.map_cons, List.sum_cons]
      rw [List.foldl_cons, ih _ distinct, get_ranked k here, total]
      simp only [List.exists_mem_cons_iff, Nat.zero_add]
      unfold share
      by_cases inside : id ∈ ranked
      · rw [if_pos inside, Option.getD_some, if_pos inside, if_pos (Or.inl inside)]
        by_cases later : ∃ ranked ∈ rest, id ∈ ranked
        · rw [if_pos later, add_assoc]
        · have none' : score k rest id = 0 := by
            unfold score
            refine List.sum_eq_zero fun part member => ?_
            obtain ⟨ranked, belongs, rfl⟩ := List.mem_map.mp member
            exact if_neg fun inside => later ⟨ranked, belongs, inside⟩
          rw [if_neg later, none', add_zero]
      · rw [if_neg inside, if_neg inside, zero_add]
        by_cases later : ∃ ranked ∈ rest, id ∈ ranked
        · rw [if_pos later, if_pos (Or.inr later)]
        · rw [if_neg later, if_neg fun either => either.elim inside later]
  have start := loop rankedLists [] distinct
  have empty : (Dict.get id ([] : Dict α ℚ)) = none := rfl
  rw [empty, Option.getD_none, zero_add] at start
  exact start

theorem nodup_fuse (k : ℕ) (rankedLists : List (List α)) : (fuse k rankedLists).keys.Nodup := by
  have inner : ∀ (entries : List (α × ℕ)) (scores : Dict α ℚ), scores.keys.Nodup →
      (entries.foldl (addRank k) scores).keys.Nodup := by
    intro entries
    induction entries with
    | nil => exact fun _ distinct => distinct
    | cons entry rest ih => exact fun _ distinct => ih _ (Dict.nodup_set _ _ distinct)
  have outer : ∀ (lists : List (List α)) (scores : Dict α ℚ), scores.keys.Nodup →
      (lists.foldl (fun scores ranked => ranked.zipIdx.foldl (addRank k) scores)
        scores).keys.Nodup := by
    intro lists
    induction lists with
    | nil => exact fun _ distinct => distinct
    | cons ranked rest ih => exact fun _ distinct => ih _ (inner _ _ distinct)
  exact outer rankedLists [] List.nodup_nil

/-- **What the fusion returns**: every id once, with its score. -/
theorem fuse_spec (k : ℕ) {rankedLists : List (List α)}
    (distinct : ∀ ranked ∈ rankedLists, ranked.Nodup) :
    ((reciprocalRankFusion rankedLists k).map Prod.fst).Nodup ∧
      (∀ id value, (id, value) ∈ reciprocalRankFusion rankedLists k ↔
        (∃ ranked ∈ rankedLists, id ∈ ranked) ∧ value = score k rankedLists id) ∧
      (reciprocalRankFusion rankedLists k).Pairwise fun first second => second.2 ≤ first.2 := by
  have perm : (reciprocalRankFusion rankedLists k).Perm (fuse k rankedLists) :=
    List.mergeSort_perm _ _
  have sorts : StableSort (fun item : α × ℚ => OrderDual.toDual item.2) (fuse k rankedLists)
    (reciprocalRankFusion rankedLists k) := StableSort.mergeSort _
  refine ⟨?_, fun id value => ?_, sorts.ordered⟩
  · exact ((perm.map Prod.fst).nodup_iff).mpr (nodup_fuse k rankedLists)
  · rw [perm.mem_iff, Dict.mem_iff_get (nodup_fuse k rankedLists), get_fuse k distinct]
    split_ifs with inside
    · rw [Option.some.injEq]
      exact ⟨fun same => ⟨inside, same.symm⟩, fun both => both.2.symm⟩
    · exact ⟨fun found => found.elim, fun both => absurd both.1 inside⟩

/-! ### Order -/

/-- Each stands in the list, the first before the second. -/
def Precedes (a b : α) (items : List α) : Prop :=
  ∃ i j : ℕ, i < j ∧ items[i]? = some a ∧ items[j]? = some b

/-- Who scores more comes first. -/
theorem precedes_of_score {k : ℕ} {rankedLists : List (List α)}
    (distinct : ∀ ranked ∈ rankedLists, ranked.Nodup) {a b : α}
    (inside : ∃ ranked ∈ rankedLists, a ∈ ranked) (inside' : ∃ ranked ∈ rankedLists, b ∈ ranked)
    (more : score k rankedLists b < score k rankedLists a) :
    Precedes a b ((reciprocalRankFusion rankedLists k).map Prod.fst) := by
  obtain ⟨-, member, ordered⟩ := fuse_spec k distinct
  obtain ⟨i, at'⟩ := List.mem_iff_getElem?.mp ((member a _).mpr ⟨inside, rfl⟩)
  obtain ⟨j, at''⟩ := List.mem_iff_getElem?.mp ((member b _).mpr ⟨inside', rfl⟩)
  refine ⟨i, j, ?_, by rw [List.getElem?_map, at']; rfl, by rw [List.getElem?_map, at'']; rfl⟩
  by_contra late
  rcases Nat.lt_or_eq_of_le (Nat.le_of_not_lt late) with before | same
  · obtain ⟨bound, eq⟩ := List.getElem?_eq_some_iff.mp at'
    obtain ⟨bound', eq'⟩ := List.getElem?_eq_some_iff.mp at''
    have descends := List.pairwise_iff_getElem.mp ordered j i bound' bound before
    rw [eq, eq'] at descends
    exact absurd descends (not_le.mpr more)
  · rw [same] at at''
    obtain ⟨-, scores⟩ := Prod.mk.inj (Option.some.inj (at'.symm.trans at''))
    exact absurd scores (ne_of_gt more)

theorem share_of_getElem? (k : ℕ) {ranked : List α} (distinct : ranked.Nodup) {i : ℕ} {id : α}
    (here : ranked[i]? = some id) : share k id ranked = 1 / (k + i) := by
  obtain ⟨bound, rfl⟩ := List.getElem?_eq_some_iff.mp here
  unfold share
  rw [if_pos (List.getElem_mem bound), distinct.idxOf_getElem]

theorem share_nonneg (k : ℕ) (id : α) (ranked : List α) : 0 ≤ share k id ranked := by
  unfold share
  split_ifs
  · positivity
  · exact le_refl 0

/-- **Dominance.** -/
theorem score_lt_of_precedes {k : ℕ} (positive : 0 < k) {rankedLists : List (List α)}
    (distinct : ∀ ranked ∈ rankedLists, ranked.Nodup) {a b : α}
    (inside : ∃ ranked ∈ rankedLists, b ∈ ranked)
    (precedes : ∀ ranked ∈ rankedLists, b ∈ ranked → Precedes a b ranked) :
    score k rankedLists b < score k rankedLists a := by
  have positive' : (0 : ℚ) < k := by exact_mod_cast positive
  have strict : ∀ ranked ∈ rankedLists, b ∈ ranked → share k b ranked < share k a ranked := by
    intro ranked member inside
    obtain ⟨i, j, before, at', at''⟩ := precedes ranked member inside
    rw [share_of_getElem? k (distinct ranked member) at',
      share_of_getElem? k (distinct ranked member) at'']
    have before' : (i : ℚ) < j := by exact_mod_cast before
    exact one_div_lt_one_div_of_lt (by positivity) (by linarith)
  refine List.sum_lt_sum _ _ (fun ranked member => ?_) ?_
  · by_cases inside : b ∈ ranked
    · exact (strict ranked member inside).le
    · rw [show share k b ranked = 0 from if_neg inside]
      exact share_nonneg k a ranked
  · obtain ⟨ranked, member, inside⟩ := inside
    exact ⟨ranked, member, strict ranked member inside⟩

/-- A share of a list of at most `k` ids. -/
theorem share_bounds {k : ℕ} (positive : 0 < k) {ranked : List α} (short : ranked.length ≤ k)
    {id : α} : share k id ranked ≤ 1 / k ∧ (id ∈ ranked → 1 / (2 * k - 1 : ℚ) ≤ share k id ranked) := by
  have positive' : (1 : ℚ) ≤ k := by exact_mod_cast positive
  unfold share
  split_ifs with inside
  · have rank : ((ranked.idxOf id : ℕ) : ℚ) + 1 ≤ k := by
      have below := List.idxOf_lt_length_iff.mpr inside
      exact_mod_cast (show ranked.idxOf id + 1 ≤ k by omega)
    have low : (0 : ℚ) ≤ (ranked.idxOf id : ℕ) := Nat.cast_nonneg _
    refine ⟨one_div_le_one_div_of_le (by linarith) (by linarith), fun _ => ?_⟩
    exact one_div_le_one_div_of_le (by linarith) (by linarith)
  · refine ⟨by positivity, fun member => absurd member inside⟩

/-- **Agreement**: two shares of lists of at most `k` ids are more than one. -/
theorem score_lt_of_agreement {k : ℕ} (positive : 0 < k) {first second : List α}
    (short : first.length ≤ k) (short' : second.length ≤ k) {a b : α} (both : a ∈ first ∧ a ∈ second)
    (one : ¬ (b ∈ first ∧ b ∈ second)) : score k [first, second] b < score k [first, second] a := by
  have positive' : (1 : ℚ) ≤ k := by exact_mod_cast positive
  have sum : ∀ id : α, score k [first, second] id = share k id first + share k id second := by
    intro id
    simp [score]
  have low := (@share_bounds _ _ _ positive _ short a).2 both.1
  have low' := (@share_bounds _ _ _ positive _ short' a).2 both.2
  have high := (@share_bounds _ _ _ positive _ short b).1
  have high' := (@share_bounds _ _ _ positive _ short' b).1
  have tight : (1 : ℚ) / k < 1 / (2 * k - 1) + 1 / (2 * k - 1) := by
    rw [← add_div, div_lt_div_iff₀ (by linarith) (by linarith)]
    linarith
  rw [sum, sum]
  rcases not_and_or.mp one with out | out
  · rw [show share k b first = 0 from if_neg out]
    linarith
  · rw [show share k b second = 0 from if_neg out]
    linarith

/-- **Fusion respects agreement.** -/
theorem fusion_respects_agreement {k : ℕ} (positive : 0 < k) {rankedLists : List (List α)}
    (distinct : ∀ ranked ∈ rankedLists, ranked.Nodup) :
    ((reciprocalRankFusion rankedLists k).map Prod.fst).Nodup ∧
    (∀ id value, (id, value) ∈ reciprocalRankFusion rankedLists k ↔
      (∃ ranked ∈ rankedLists, id ∈ ranked) ∧ value = score k rankedLists id) ∧
    ((reciprocalRankFusion rankedLists k).Pairwise fun first second => second.2 ≤ first.2) ∧
    (∀ a b, (∃ ranked ∈ rankedLists, b ∈ ranked) →
      (∀ ranked ∈ rankedLists, b ∈ ranked → Precedes a b ranked) →
      Precedes a b ((reciprocalRankFusion rankedLists k).map Prod.fst)) ∧
    ∀ first second, rankedLists = [first, second] → first.length ≤ k → second.length ≤ k →
      ∀ a b, a ∈ first ∧ a ∈ second → (b ∈ first ∨ b ∈ second) → ¬ (b ∈ first ∧ b ∈ second) →
        Precedes a b ((reciprocalRankFusion rankedLists k).map Prod.fst) := by
  obtain ⟨once, exact', descending⟩ := fuse_spec k distinct
  refine ⟨once, exact', descending, fun a b inside precedes => ?_, ?_⟩
  · have more := score_lt_of_precedes positive distinct inside precedes
    refine precedes_of_score distinct ?_ inside more
    obtain ⟨ranked, member, inside⟩ := inside
    obtain ⟨i, j, -, at', -⟩ := precedes ranked member inside
    exact ⟨ranked, member, List.mem_of_getElem? at'⟩
  · rintro first second rfl short short' a b both some' one
    have more := score_lt_of_agreement positive short short' both one
    refine precedes_of_score distinct ⟨first, List.mem_cons_self, both.1⟩ ?_ more
    rcases some' with inside | inside
    · exact ⟨first, List.mem_cons_self, inside⟩
    · exact ⟨second, List.mem_cons_of_mem _ List.mem_cons_self, inside⟩

theorem fusion_respects_agreement_arms :
    Precedes "b" "a" ((reciprocalRankFusion [["a", "b", "c"], ["b", "d"]]).map Prod.fst) :=
  (fusion_respects_agreement (k := rrfK) (by decide) (by decide)).2.2.2.2 _ _ rfl (by decide)
    (by decide) "b" "a" (by decide) (by decide) (by decide)

end Freshet.Rag
