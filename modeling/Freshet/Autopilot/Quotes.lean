/-
**What the brief quotes**: the sentence that states a cause, and the incident's latest updates, clipped.

Sentences are cut at single spaces of the whitespace-normalised text, so a sentence is a piece of that
text, and sentences joined again are a piece of it too (`unwords_prefix`). What `_clip` keeps is always
a prefix, of whole sentences or, where not even the first fits, of whole words.
-/

import Freshet.Autopilot.Brief
import Freshet.Lib.StableSort
import Freshet.Rag.Citations

namespace Freshet.Autopilot

open Freshet.Lib Freshet.Pipeline
open Freshet.Rag (padded stamp)

/-! ### The program -/

/-- A time with its offset, both in microseconds. -/
structure Moment where
  clock : Clock
  utcoffset : Int

/-- What two times are compared by. -/
def Moment.instant (ts : Moment) : Int := ts.clock.instant - ts.utcoffset

/-- What is read off an update. -/
structure Hit where
  eventId : List Char
  ts : Moment
  text : List Char

/-- `" ".join(text.split())`. -/
def flat (text : List Char) : List Char := unwords (words text)

/-- `cite_hit`. -/
def citeHit (hit : Hit) : List Char :=
  '[' :: hit.eventId ++ " @ ".toList ++ stamp hit.ts.clock ++ [']']

/-- `cause_from_updates`. -/
def causeFromUpdates (unicode : Unicode) (hits : List Hit) : Option (List Char × List Char) :=
  (hits.mergeSort fun first second => first.ts.instant ≤ second.ts.instant).findSome? fun hit =>
    match causeSentence unicode hit.text with
    | none => none
    | some sentence => if sentence = [] then none else some (sentence, citeHit hit)

def maxUpdates : ℕ := 4

def maxUpdateChars : ℕ := 200

/-- The loop of `_clip`. -/
def keepSentences (maxChars : ℕ) (kept : List Char) : List (List Char) → List Char
  | [] => kept
  | sentence :: rest =>
    let candidate := if kept = [] then sentence else kept ++ ' ' :: sentence
    if candidate.length > maxChars then kept else keepSentences maxChars candidate rest

/-- `text.rsplit(" ", 1)[0]`. -/
def beforeLastSpace (text : List Char) : List Char :=
  if ' ' ∈ text then (text.rdropWhile (· ≠ ' ')).dropLast else text

/-- `_clip`. -/
def clip (text : List Char) (maxChars : ℕ := maxUpdateChars) : List Char :=
  let flat := flat text
  if flat.length ≤ maxChars then flat
  else
    let kept := keepSentences maxChars [] (splitSentences flat)
    let kept := if kept = [] then beforeLastSpace (flat.take maxChars) else kept
    kept.rdropWhile isSpace ++ "...".toList

/-- `f"{hit.ts:%H:%M} — {text} {cite_hit(hit)}"`. -/
def updateLine (hit : Hit) (text : List Char) : List Char :=
  padded 2 hit.ts.clock.hour ++ ':' :: padded 2 hit.ts.clock.minute ++ " — ".toList ++ text ++
    ' ' :: citeHit hit

/-- `update_lines`. -/
def updateLines (hits : List Hit) : List (List Char) :=
  ((hits.mergeSort fun first second => second.ts.instant ≤ first.ts.instant).take maxUpdates).map
    fun hit => updateLine hit (clip hit.text)

/-! ### Pieces of a text -/

theorem words_flat (text : List Char) : words (flat text) = words text :=
  words_unwords fun _ member => isWord_of_mem_words member

/-- Sentences that follow one another, joined again, begin the text. -/
theorem unwords_sentences_prefix {text : List Char} {first rest : List (List Char)}
    (split : splitSentences text = first ++ rest) : unwords first <+: flat text := by
  obtain ⟨all, every⟩ := splitSentences_spec text
  rw [split, List.flatMap_append] at all
  rw [split] at every
  rw [unwords_eq_flatMap fun sentence member => every sentence (List.mem_append_left _ member)]
  unfold flat
  rw [← all]
  exact unwords_prefix _ _

/-- **A sentence is a piece of the text.** -/
theorem sentence_infix {text sentence : List Char} (member : sentence ∈ splitSentences text) :
    sentence <:+: flat text := by
  obtain ⟨all, every⟩ := splitSentences_spec text
  obtain ⟨before, after, split⟩ := List.append_of_mem member
  have whole : words text = before.flatMap words ++ (words sentence ++ after.flatMap words) := by
    rw [← all, split, List.flatMap_append, List.flatMap_cons]
  have tidy : unwords (words sentence) = sentence := (every sentence member).1
  have first := unwords_prefix (words sentence) (after.flatMap words)
  rw [tidy] at first
  unfold flat
  rw [whole]
  exact first.isInfix.trans (unwords_suffix _ _).isInfix

/-- **What the loop keeps**: some of the sentences from the first on, short enough. -/
theorem keepSentences_spec {maxChars : ℕ} {sentences : List (List Char)} {done : List (List Char)}
    (full : ∀ sentence ∈ done ++ sentences, sentence ≠ []) (short : (unwords done).length ≤ maxChars) :
    ∃ more rest, sentences = more ++ rest ∧
      keepSentences maxChars (unwords done) sentences = unwords (done ++ more) ∧
      (unwords (done ++ more)).length ≤ maxChars := by
  induction sentences generalizing done with
  | nil => exact ⟨[], [], rfl, by rw [List.append_nil]; rfl, by rwa [List.append_nil]⟩
  | cons sentence rest ih =>
    have candidate : (if unwords done = [] then sentence else unwords done ++ ' ' :: sentence) =
        unwords (done ++ [sentence]) := by
      by_cases none' : done = []
      · subst none'
        rfl
      · have visible : unwords done ≠ [] := by
          obtain ⟨first, others, rfl⟩ := List.exists_cons_of_ne_nil none'
          have some' := full first (List.mem_append_left _ List.mem_cons_self)
          by_cases last : others = []
          · subst last
            exact some'
          · rw [unwords_cons last]
            exact List.append_ne_nil_of_left_ne_nil some' _
        rw [if_neg visible, unwords_append none' (List.cons_ne_nil _ _)]
        rfl
    unfold keepSentences
    rw [candidate]
    dsimp only
    split_ifs with long
    · exact ⟨[], sentence :: rest, rfl, by rw [List.append_nil], by rwa [List.append_nil]⟩
    · obtain ⟨more, rest', split, kept, fits⟩ := @ih (done ++ [sentence])
        (by rwa [List.append_assoc]) (not_lt.mp long)
      refine ⟨sentence :: more, rest', by rw [split]; rfl, ?_, ?_⟩
      · rw [kept, List.append_assoc]
        rfl
      · rw [List.append_assoc] at fits
        exact fits

theorem beforeLastSpace_prefix (text : List Char) : beforeLastSpace text <+: text := by
  unfold beforeLastSpace
  split_ifs
  · exact (List.dropLast_prefix _).trans (List.rdropWhile_prefix _ _)
  · exact List.prefix_rfl

/-- `text.removesuffix("...")`. -/
def withoutEllipsis (text : List Char) : List Char :=
  if "...".toList <:+ text then text.take (text.length - 3) else text

theorem withoutEllipsis_prefix (text : List Char) : withoutEllipsis text <+: text := by
  unfold withoutEllipsis
  split_ifs
  · exact List.take_prefix _ _
  · exact List.prefix_rfl

theorem withoutEllipsis_append (text : List Char) :
    withoutEllipsis (text ++ "...".toList) = text := by
  unfold withoutEllipsis
  rw [if_pos (List.suffix_append _ _), List.length_append]
  exact List.take_left' (by simp)

/-- **What is clipped is a prefix.** -/
theorem clip_spec (text : List Char) (maxChars : ℕ) :
    withoutEllipsis (clip text maxChars) <+: flat text ∧
      (withoutEllipsis (clip text maxChars)).length ≤ maxChars := by
  have whole : splitSentences (flat text) = splitSentences text :=
    splitSentences_congr (words_flat text)
  unfold clip
  dsimp only
  split_ifs with short none'
  · have here := withoutEllipsis_prefix (flat text)
    exact ⟨here, le_trans here.length_le short⟩
  · have here : (beforeLastSpace ((flat text).take maxChars)).rdropWhile isSpace <+:
        (flat text).take maxChars :=
      (List.rdropWhile_prefix _ _).trans ( beforeLastSpace_prefix _)
    rw [withoutEllipsis_append]
    exact ⟨here.trans (List.take_prefix _ _),
      le_trans here.length_le (List.length_take_le _ _)⟩
  · obtain ⟨more, rest, split, kept, fits⟩ := @keepSentences_spec maxChars
      (splitSentences (flat text)) [] (fun sentence member =>
        ((splitSentences_spec (flat text)).2 sentence member).2) (Nat.zero_le _)
    have kept : keepSentences maxChars [] (splitSentences (flat text)) = unwords more := kept
    rw [withoutEllipsis_append, kept]
    rw [whole] at split
    have here := List.rdropWhile_prefix isSpace (unwords more)
    exact ⟨here.trans ( unwords_sentences_prefix split), le_trans here.length_le fits⟩

/-! ### What is quoted -/

/-- **What the brief quotes, its citation said.** -/
theorem quotes_are_cited (unicode : Unicode) (hits : List Hit) :
    (∀ sentence cite, causeFromUpdates unicode hits = some (sentence, cite) →
      ∃ hit ∈ hits, cite = citeHit hit ∧ sentence <:+: flat hit.text ∧
        ∀ other ∈ hits, other.ts.instant < hit.ts.instant →
          ∀ earlier ∈ splitSentences other.text, statesCause unicode earlier = false) ∧
      ∃ newest : List Hit, newest.Perm hits ∧
        newest.Pairwise (fun first second => second.ts.instant ≤ first.ts.instant) ∧
        (updateLines hits).length ≤ maxUpdates ∧
        updateLines hits = (newest.take maxUpdates).map (fun hit => updateLine hit (clip hit.text)) ∧
        ∀ hit ∈ newest.take maxUpdates, withoutEllipsis (clip hit.text) <+: flat hit.text ∧
          (withoutEllipsis (clip hit.text)).length ≤ 200 := by
  refine ⟨fun sentence cite found => ?_, _, List.mergeSort_perm hits _, ?_, ?_, rfl,
    fun hit _ => clip_spec hit.text maxUpdateChars⟩
  · unfold causeFromUpdates at found
    have sorts : StableSort (fun hit : Hit => hit.ts.instant) hits
      (hits.mergeSort fun first second => first.ts.instant ≤ second.ts.instant) :=
      StableSort.mergeSort hits
    obtain ⟨before, hit, after, split, stated, silent⟩ := List.findSome?_eq_some_iff.mp found
    have inside : hit ∈ hits := by
      rw [← sorts.mem_iff, split]
      exact List.mem_append_right _ List.mem_cons_self
    cases said : causeSentence unicode hit.text with
    | none =>
      rw [said] at stated
      cases stated
    | some quoted =>
      rw [said] at stated
      dsimp only at stated
      split_ifs at stated with blank
      obtain ⟨rfl, rfl⟩ := Prod.mk.inj (Option.some.inj stated)
      refine ⟨hit, inside, rfl, sentence_infix (List.mem_of_find?_eq_some said), ?_⟩
      intro other member earlier sentence among
      -- an update that is strictly earlier stands in front of the hit
      have early : other ∈ before := by
        have member' := sorts.mem_iff.mpr member
        have ordered := sorts.ordered
        rw [split] at member' ordered
        rcases List.mem_append.mp member' with front | back
        · exact front
        · obtain ⟨-, late, -⟩ := List.pairwise_append.mp ordered
          rcases List.mem_cons.mp back with rfl | back
          · exact absurd earlier (lt_irrefl _)
          · exact absurd ((List.pairwise_cons.mp late).1 other back) (not_le.mpr earlier)
      have none' := silent other early
      have states : causeSentence unicode other.text = none := by
        cases found' : causeSentence unicode other.text with
        | none => rfl
        | some quoted' =>
          have full := ((splitSentences_spec other.text).2 quoted'
            (List.mem_of_find?_eq_some found')).2
          rw [found'] at none'
          dsimp only at none'
          rw [if_neg full] at none'
          cases none'
      exact Bool.eq_false_of_not_eq_true (List.find?_eq_none.mp states sentence among)
  · have sorts : StableSort (fun hit : Hit => OrderDual.toDual hit.ts.instant) hits
      (hits.mergeSort fun first second => second.ts.instant ≤ first.ts.instant) :=
      StableSort.mergeSort hits
    exact sorts.ordered
  · unfold updateLines
    rw [List.length_map]
    exact List.length_take_le _ _

end Freshet.Autopilot
