/-
**The hit rate of the retrieval evaluation.**

A query's answer is any other update of its incident. `main` retrieves the first `K + 1` chunks of an
arm, makes events of them and scores these at `K`; documented is the share of queries with an answer
among the first `K` distinct events. An arm's full ranking of chunks is cut before it is deduplicated,
so an event of many chunks takes places of others.

* **`hit_documented_iff`** — the recorded hit is the documented one exactly where at most `K` chunks, or
  chunks of at least `K` events, stand before the first answer.
* **`long_event_hides`** — an event of six chunks, and an answer behind it.
-/

import Freshet.Lib.KeepFirst
import Freshet.Rag.Retrieval
import Mathlib.Data.Finset.Basic

namespace Freshet.Eval

open Freshet.Lib Freshet.Rag

/-! ### Scores -/

/-- `K`. -/
def cutoff : ℕ := 5

/-- The loop of `dedupe_events`; `seen` are the events already found. -/
def dedupeFrom {α : Type} (eventId : α → String) (exclude : Option String) :
    List String → List α → List String
  | seen, [] => seen
  | seen, h :: hits =>
    if some (eventId h) ≠ exclude ∧ eventId h ∉ seen then
      dedupeFrom eventId exclude (seen ++ [eventId h]) hits
    else dedupeFrom eventId exclude seen hits

/-- `dedupe_events`. -/
def dedupeEvents {α : Type} (eventId : α → String) (hits : List α) (exclude : Option String) :
    List String :=
  dedupeFrom eventId exclude [] hits

structure Score where
  hitAtK : Bool
  mrr : ℚ
  top1Cite : Bool
deriving DecidableEq, Repr

/-- `score_one`. -/
def scoreOne (rankedEventIds : List String) (causeIds : Finset String) (k : ℕ := cutoff) : Score :=
  let rank := (rankedEventIds.findIdx? (· ∈ causeIds)).map (· + 1)
  { hitAtK := rank.any (· ≤ k)
    mrr := match rank with
      | some rank => 1 / rank
      | none => 0
    top1Cite := rankedEventIds.head?.any (· ∈ causeIds) }

/-- `_single_arm`, on the rows that its statement would give without a limit. -/
def singleArm (rows : List Row) (k : ℕ) : List String :=
  dedupeEvents Row.eventId (rows.take k) none

/-! ### Arms -/

/-- The hits of `hybrid_search` before it cuts them. -/
def fusedHits (conn : Connection) (embedder : Embedder) (question : String)
    (excludeEventId : Option String) : List RetrievedHit :=
  let centroid :=
    if embedder.minSimilarityCentered.isSome then conn.getCentroid (embedder.name.getD "") else none
  let query : Query :=
    ⟨question, Pipeline.vecLiteral (embedder.encodeQuery question), armK, none, none, excludeEventId, centroid⟩
  let vecRows := conn.vectorRows query
  let kwRows := conn.keywordRows query
  let fused := reciprocalRankFusion [vecRows.map Row.chunkId, kwRows.map Row.chunkId]
  (fused.filterMap fun (chunkId, score) =>
    (((rowsToMap vecRows).get chunkId).or ((rowsToMap kwRows).get chunkId)).map fun row =>
      row.hit score).mergeSort fun first second => second.score ≤ first.score

/-- **What `hybrid_search` finds is the head of one ranking**, whatever is asked for. -/
theorem hybridSearch_hits (conn : Connection) (embedder : Embedder) (question : String) (k : ℕ)
    (excludeEventId : Option String) :
    (hybridSearch conn embedder question k none none none excludeEventId).hits =
      (fusedHits conn embedder question excludeEventId).take k := by
  unfold hybridSearch fusedHits
  dsimp only [Option.isSome_none, Bool.or_self, Bool.false_eq_true, if_false]
  generalize List.take k _ = topK
  cases embedder.minSimilarityCentered <;>
    cases topK.filterMap RetrievedHit.centeredSimilarity <;> rfl

/-- A retrieval arm, on one question. -/
inductive Arm
  | hybrid (conn : Connection) (embedder : Embedder) (question : String)
  | vectorOnly (rows : List Row)
  | keywordOnly (rows : List Row)

/-- The events of the arm's full ranking of chunks. -/
def Arm.ranking (query : String) : Arm → List String
  | hybrid conn embedder question =>
    (fusedHits conn embedder question (some query)).map RetrievedHit.eventId
  | vectorOnly rows => rows.map Row.eventId
  | keywordOnly rows => rows.map Row.eventId

/-- What `main` scores. -/
def Arm.retrieved (query : String) : Arm → List String
  | hybrid conn embedder question =>
    dedupeEvents RetrievedHit.eventId
      (hybridSearch conn embedder question (cutoff + 1) none none none (some query)).hits (some query)
  | vectorOnly rows => singleArm rows (cutoff + 1)
  | keywordOnly rows => singleArm rows (cutoff + 1)

/-- What `main` records. -/
def Arm.recorded (arm : Arm) (query : String) (causes : Finset String) : Score :=
  scoreOne (arm.retrieved query) causes

/-- **What is documented**: some answer is among the first `K` distinct events. -/
def Documented (ranking : List String) (causes : Finset String) : Prop :=
  ∃ event ∈ (keepFirst id [] ranking).take cutoff, event ∈ causes

/-! ### Distinct events -/

theorem dedupeFrom_eq {α : Type} (eventId : α → String) {exclude : Option String} {hits : List α}
    (excluded : ∀ h ∈ hits, some (eventId h) ≠ exclude) (seen : List String) :
    dedupeFrom eventId exclude seen hits = seen ++ keepFirst id seen (hits.map eventId) := by
  induction hits generalizing seen with
  | nil => exact (List.append_nil _).symm
  | cons h hits ih =>
    have later := ih fun other member => excluded other (List.mem_cons_of_mem _ member)
    unfold dedupeFrom
    rw [List.map_cons, keepFirst]
    by_cases known : eventId h ∈ seen
    · rw [if_neg fun fresh => fresh.2 known, if_pos (show id (eventId h) ∈ seen from known), later]
    · rw [if_pos ⟨excluded h List.mem_cons_self, known⟩,
        if_neg (show ¬ id (eventId h) ∈ seen from known), later, List.append_assoc]
      -- The loop keeps what it has seen in another order.
      have same : ∀ k, k ∈ seen ++ [eventId h] ↔ k ∈ id (eventId h) :: seen := by
        intro k
        rw [List.mem_append, List.mem_singleton, List.mem_cons, or_comm]
        rfl
      rw [keepFirst_congr id fun other _ => same _, List.singleton_append]

/-- Without excluded events, `dedupe_events` keeps the first chunk of each. -/
theorem dedupeEvents_eq {α : Type} (eventId : α → String) {exclude : Option String} {hits : List α}
    (excluded : ∀ h ∈ hits, some (eventId h) ≠ exclude) :
    dedupeEvents eventId hits exclude = keepFirst id [] (hits.map eventId) := by
  unfold dedupeEvents
  rw [dedupeFrom_eq eventId excluded, List.nil_append]

theorem singleArm_eq (rows : List Row) (k : ℕ) :
    singleArm rows k = keepFirst id [] ((rows.map Row.eventId).take k) := by
  unfold singleArm
  rw [dedupeEvents_eq _ fun _ _ => Option.some_ne_none _, List.map_take]

/-- **Every arm scores the distinct events of its first `K + 1` chunks.** -/
theorem Arm.retrieved_eq (arm : Arm) {query : String} (excluded : query ∉ arm.ranking query) :
    arm.retrieved query = keepFirst id [] ((arm.ranking query).take (cutoff + 1)) := by
  cases arm with
  | hybrid conn embedder question =>
    show dedupeEvents RetrievedHit.eventId
      (hybridSearch conn embedder question (cutoff + 1) none none none (some query)).hits _ = _
    rw [hybridSearch_hits, dedupeEvents_eq, List.map_take]
    · rfl
    · intro h member same
      exact excluded (List.mem_map.mpr ⟨h, List.mem_of_mem_take member, Option.some.inj same⟩)
  | vectorOnly rows => exact singleArm_eq rows (cutoff + 1)
  | keywordOnly rows => exact singleArm_eq rows (cutoff + 1)

/-! ### Hits -/

section Hits

variable {causes : Finset String}

/-- A recorded hit is an answer among the first `k` of what is scored. -/
theorem hitAtK_iff (ranked : List String) (k : ℕ) :
    (scoreOne ranked causes k).hitAtK = true ↔ ∃ event ∈ ranked.take k, event ∈ causes := by
  show (((ranked.findIdx? (· ∈ causes)).map (· + 1)).any (· ≤ k)) = true ↔ _
  induction ranked generalizing k with
  | nil => simp
  | cons event later ih =>
    rw [List.findIdx?_cons]
    by_cases answer : event ∈ causes
    · rw [if_pos (decide_eq_true answer)]
      cases k with
      | zero => simp
      | succ k => simpa using Or.inl answer
    · rw [if_neg (by simpa using answer)]
      cases k with
      | zero =>
        cases later.findIdx? (· ∈ causes) <;> simp
      | succ k =>
        have rest := ih k
        rw [List.take_succ_cons]
        simp only [List.mem_cons, exists_eq_or_imp, answer, false_or, ← rest]
        cases later.findIdx? (· ∈ causes) <;> simp

/-- **With the first answer at hand**, it is among the first `k` distinct events exactly where fewer than
`k` are before it. -/
theorem hit_of_split {before after : List String} {answer : String} {k : ℕ} (mem : answer ∈ causes)
    (none' : ∀ event ∈ before, event ∉ causes) :
    (∃ event ∈ (keepFirst id [] (before ++ answer :: after)).take k, event ∈ causes) ↔
      (keepFirst id [] before).length < k := by
  have new : id answer ∉ before.map id ++ [] := by
    rw [List.map_id, List.append_nil]
    exact fun member => none' answer member mem
  rw [keepFirst_append, keepFirst_new id new, List.take_append]
  constructor
  · rintro ⟨event, member, cause⟩
    rcases List.mem_append.mp member with early | late
    · exact (none' event (mem_of_mem_keepFirst id (List.mem_of_mem_take early)) cause).elim
    · by_contra many
      rw [Nat.sub_eq_zero_of_le (not_lt.mp many), List.take_zero] at late
      cases late
  · intro few
    refine ⟨answer, List.mem_append_right _ ?_, mem⟩
    obtain ⟨more, room⟩ := Nat.exists_eq_add_of_lt few
    rw [show k - (keepFirst id [] before).length = more + 1 by omega, List.take_succ_cons]
    exact List.mem_cons_self

/-- Where there is no answer there is no hit. -/
theorem no_hit {ranking : List String} {k : ℕ} (none' : ∀ event ∈ ranking, event ∉ causes) :
    ¬ ∃ event ∈ (keepFirst id [] ranking).take k, event ∈ causes :=
  fun ⟨event, member, cause⟩ =>
    none' event (mem_of_mem_keepFirst id (List.mem_of_mem_take member)) cause

/-- A ranking up to its first answer. -/
theorem first_answer (causes : Finset String) (ranking : List String) :
    (∀ event ∈ ranking, event ∉ causes) ∨ ∃ before answer after,
      ranking = before ++ answer :: after ∧ answer ∈ causes ∧ ∀ event ∈ before, event ∉ causes := by
  induction ranking with
  | nil => exact .inl fun _ none' => (nomatch none')
  | cons event later ih =>
    by_cases answer : event ∈ causes
    · exact .inr ⟨[], event, later, rfl, answer, fun _ none' => (nomatch none')⟩
    · rcases ih with none' | ⟨before, first, after, rfl, mem, none'⟩
      · exact .inl (List.forall_mem_cons.mpr ⟨answer, none'⟩)
      · exact .inr ⟨event :: before, first, after, rfl, mem,
          List.forall_mem_cons.mpr ⟨answer, none'⟩⟩

/-- There is one first answer. -/
theorem first_answer_unique {before after before' after' : List String}
    {answer answer' : String}
    (same : before ++ answer :: after = before' ++ answer' :: after') (mem : answer ∈ causes)
    (mem' : answer' ∈ causes) (none' : ∀ event ∈ before, event ∉ causes)
    (none'' : ∀ event ∈ before', event ∉ causes) : before' = before := by
  rcases List.append_eq_append_iff.mp same with ⟨more, rfl, rest⟩ | ⟨more, rfl, rest⟩
  · cases more with
    | nil => exact List.append_nil _
    | cons first more =>
      obtain ⟨rfl, -⟩ := List.cons.inj rest
      exact (none'' answer (List.mem_append_right _ List.mem_cons_self) mem).elim
  · cases more with
    | nil => exact (List.append_nil _).symm
    | cons first more =>
      obtain ⟨rfl, -⟩ := List.cons.inj rest
      exact (none' answer' (List.mem_append_right _ List.mem_cons_self) mem').elim

end Hits

/-- **When the recorded hit is the documented one**: where the first answer has at most `K` chunks before
it, or chunks of at least `K` events. -/
theorem hit_documented_iff (arm : Arm) (query : String) (causes : Finset String)
    (excluded : query ∉ arm.ranking query) :
    (((arm.recorded query causes).hitAtK = true ↔ Documented (arm.ranking query) causes)) ↔
      ∀ before answer after, arm.ranking query = before ++ answer :: after → answer ∈ causes →
        (∀ event ∈ before, event ∉ causes) →
        before.length ≤ cutoff ∨ cutoff ≤ (keepFirst id [] before).length := by
  unfold Arm.recorded Documented
  rw [hitAtK_iff, arm.retrieved_eq excluded]
  rcases first_answer causes (arm.ranking query) with none' | ⟨before, answer, after, split, mem, none'⟩
  · have cut : ∀ event ∈ (arm.ranking query).take (cutoff + 1), event ∉ causes :=
      fun event member => none' event (List.mem_of_mem_take member)
    refine iff_of_true (iff_of_false (no_hit cut) (no_hit none')) ?_
    intro before answer after split mem
    exact (none' answer (split ▸ List.mem_append_right _ List.mem_cons_self) mem).elim
  · -- The first answer is the one of every split.
    have only : (∀ before' answer' after', arm.ranking query = before' ++ answer' :: after' →
        answer' ∈ causes → (∀ event ∈ before', event ∉ causes) →
        before'.length ≤ cutoff ∨ cutoff ≤ (keepFirst id [] before').length) ↔
        (before.length ≤ cutoff ∨ cutoff ≤ (keepFirst id [] before).length) := by
      refine ⟨fun all => all before answer after split mem none', ?_⟩
      intro here before' answer' after' split' mem' none''
      exact first_answer_unique (split.symm.trans split') mem mem' none' none'' ▸ here
    rw [only, split, hit_of_split mem none']
    by_cases short : before.length ≤ cutoff
    · have room : (before ++ answer :: after).take (cutoff + 1) =
          before ++ answer :: after.take (cutoff - before.length) := by
        rw [List.take_append, List.take_of_length_le (by omega),
          show cutoff + 1 - before.length = (cutoff - before.length) + 1 by omega, List.take_succ_cons]
      rw [room, hit_of_split mem none']
      exact iff_of_true Iff.rfl (.inl short)
    · have cut : ∀ event ∈ (before ++ answer :: after).take (cutoff + 1), event ∉ causes := by
        rw [List.take_append_of_le_length (by omega)]
        exact fun event member => none' event (List.mem_of_mem_take member)
      rw [iff_false_left (no_hit cut), not_lt, or_iff_right short]

/-! Rankings by vector, given by the events of their chunks. -/

/-- A chunk of an event. -/
def chunkRow (eventId : String) : Row where
  chunkId := "chk_" ++ eventId ++ "_0"
  eventId := eventId
  service := "github"
  ts := 0
  indexedAt := 0
  source := .alert
  text := "Degraded performance.".toList
  type := "status_update"
  title := none
  similarity := 1 / 2
  centeredSimilarity := none

def vectorRanking (events : List String) : Arm := .vectorOnly (events.map chunkRow)

theorem hit_documented_iff_short :
    (((vectorRanking ["a", "a", "b"]).recorded "q" {"b"}).hitAtK = true ↔
      Documented ((vectorRanking ["a", "a", "b"]).ranking "q") {"b"}) ↔
    ∀ before answer after, (vectorRanking ["a", "a", "b"]).ranking "q" = before ++ answer :: after →
      answer ∈ ({"b"} : Finset String) → (∀ event ∈ before, event ∉ ({"b"} : Finset String)) →
      before.length ≤ cutoff ∨ cutoff ≤ (keepFirst id [] before).length :=
  hit_documented_iff (vectorRanking ["a", "a", "b"]) "q" {"b"} (by decide)

/-- Six chunks of one event hide the answer behind them, which is the second event. -/
theorem long_event_hides :
    ¬ (((vectorRanking ["a", "a", "a", "a", "a", "a", "b"]).recorded "q" {"b"}).hitAtK = true ↔
      Documented ((vectorRanking ["a", "a", "a", "a", "a", "a", "b"]).ranking "q") {"b"}) := by
  intro same
  have documented : Documented ((vectorRanking ["a", "a", "a", "a", "a", "a", "b"]).ranking "q")
      {"b"} := ⟨"b", by decide, by decide⟩
  exact absurd (same.mpr documented) (by decide)

end Freshet.Eval
