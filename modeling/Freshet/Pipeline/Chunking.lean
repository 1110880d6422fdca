/-
**The chunker**: sentences are packed whole, up to a number of characters, and one that is longer
than that is packed by its words.

Both loops pack in the same way (`Packing.add`), so one invariant serves both: the chunks hold the
words of what was packed, in order (`Packing.Holds`), and what was packed stands in one of them.
The sentence pattern looks behind, so it is run over characters that know the one before them.
-/

import Freshet.Lib.Words

namespace Freshet.Pipeline

open Freshet.Lib

/-! ### Sentences -/

/-- `[A-Z0-9\"'\[(]`, which opens a sentence. -/
def opensSentence (c : Char) : Bool :=
  c.isUpper || c.isDigit || c == '"' || c == '\'' || c == '[' || c == '('

/-- `[.!?]`, which ends one. -/
def endsSentence (c : Char) : Bool := c == '.' || c == '!' || c == '?'

/-- `_SENTENCE_END`. -/
def sentenceEnd : Regex (Option Char × Char) :=
  .all [.ahead (.one fun p => p.1.any endsSentence), .some fun p => isSpace p.2,
    .ahead (.one fun p => opensSentence p.2)]

/-- `split_sentences`. -/
def splitSentences (text : List Char) : List (List Char) :=
  let flat := unwords (words text)
  if flat = [] then []
  else ((sentenceEnd.split (Regex.placed none flat)).map fun part =>
    strip (part.map Prod.snd)).filter (· ≠ [])

/-! ### Packing -/

/-- The chunks that are finished, and the one being filled. -/
structure Packing where
  chunks : List (List Char) := []
  current : List Char := []

namespace Packing

/-- The branches of both loops: the item begins a chunk, or joins the one being filled, or follows
it. -/
def add (maxChars : Int) (p : Packing) (item : List Char) : Packing :=
  if p.current = [] then { p with current := item }
  else if (p.current.length : Int) + 1 + item.length ≤ maxChars then
    { p with current := p.current ++ ' ' :: item }
  else { chunks := p.chunks ++ [p.current], current := item }

/-- `if current: chunks.append(current)`. -/
def close (p : Packing) : List (List Char) :=
  if p.current = [] then p.chunks else p.chunks ++ [p.current]

end Packing

/-- `_pack_words`. -/
def packWords (sentence : List Char) (maxChars : Int) : List (List Char) :=
  ((words sentence).foldl (Packing.add maxChars) {}).close

/-- The body of the loop over the sentences. -/
def packSentence (maxChars : Int) (p : Packing) (sentence : List Char) : Packing :=
  if (sentence.length : Int) > maxChars then { chunks := p.close ++ packWords sentence maxChars }
  else p.add maxChars sentence

def defaultMaxChars : Int := 400

/-- `chunk_text`. -/
def chunkText (text : List Char) (maxChars : Option Int := none) : List (List Char) :=
  let maxChars := maxChars.getD defaultMaxChars
  ((splitSentences text).foldl (packSentence maxChars) {}).close

/-! ### What the pattern cuts -/

/-- A match of the pattern is space. -/
theorem sentenceEnd_spaces {input rest : List (Option Char × Char)}
    {m : Regex.Match (Option Char × Char)} (found : sentenceEnd.first input = some (m, rest)) :
    m.text ≠ [] ∧ ∀ p ∈ m.text, isSpace p.2 = true := by
  obtain ⟨after, ahead, member⟩ := Regex.mem_ways_seq.mp (Regex.mem_ways_of_first found)
  obtain ⟨behind, spaces, member⟩ := Regex.mem_ways_seq.mp member
  obtain ⟨last, ahead', member⟩ := Regex.mem_ways_seq.mp member
  obtain ⟨first, one, many⟩ := Regex.mem_ways_seq.mp spaces
  obtain ⟨p, cut, space, -⟩ := Regex.mem_ways_one.mp one
  obtain ⟨run, cut', every, -⟩ := Regex.mem_ways_many.mp many
  obtain rfl : rest = last.rest := congrArg Way.rest (List.mem_singleton.mp member)
  have whole : input = (p :: run) ++ last.rest := by
    rw [Regex.rest_of_ahead ahead', List.cons_append, ← cut', ← cut, Regex.rest_of_ahead ahead]
  have text : m.text = p :: run :=
    List.append_cancel_right ((Regex.first_split found).symm.trans whole)
  rw [text]
  exact ⟨List.cons_ne_nil _ _, List.forall_mem_cons.mpr ⟨space, every⟩⟩

theorem map_snd_cut {before after : List (Option Char × Char)}
    {m : Regex.Match (Option Char × Char)} :
    (before ++ (m.text ++ after)).map Prod.snd =
      before.map Prod.snd ++ (m.text.map Prod.snd ++ after.map Prod.snd) := by
  rw [List.map_append, List.map_append]

/-- **Sentences are tidy and have the words of the text.** -/
theorem splitSentences_spec (text : List Char) :
    (splitSentences text).flatMap words = words text ∧
      ∀ sentence ∈ splitSentences text, Tidy sentence ∧ sentence ≠ [] := by
  have isWords : ∀ word ∈ words text, IsWord word := fun word member => isWord_of_mem_words member
  by_cases blank : unwords (words text) = []
  · have none : words text = [] := by
      by_contra full
      exact unwords_ne_nil isWords full blank
    unfold splitSentences
    rw [if_pos blank, none]
    exact ⟨rfl, fun _ member => absurd member List.not_mem_nil⟩
  have flat : words (unwords (words text)) = words text := words_unwords isWords
  have spaces : ∀ here m rest, sentenceEnd.first here = some (m, rest) →
      m.text.map Prod.snd ≠ [] ∧ ∀ c ∈ m.text.map Prod.snd, isSpace c = true := by
    intro here m rest found
    obtain ⟨full, every⟩ := sentenceEnd_spaces found
    refine ⟨by simpa using full, fun c member => ?_⟩
    obtain ⟨p, inside, rfl⟩ := List.mem_map.mp member
    exact every p inside
  have parts := @Regex.forall_of_split _ (fun part => Tidy (part.map Prod.snd)) sentenceEnd
    (fun here m rest found before after tidy => by
      rw [map_snd_cut] at tidy
      obtain ⟨left, right, -⟩ := tidy.cut (spaces here m rest found).1 (spaces here m rest found).2
      exact ⟨left, right⟩)
    (Regex.placed none (unwords (words text)))
    (by rw [Regex.map_placed]; exact tidy_unwords isWords)
  have all := @Regex.flatMap_of_split _ _ (fun part => words (part.map Prod.snd)) sentenceEnd
    (fun here m rest found before after => by
      obtain ⟨full, every⟩ := spaces here m rest found
      obtain ⟨c, more, eq⟩ := List.exists_cons_of_ne_nil full
      rw [eq] at every
      obtain ⟨space, others⟩ := List.forall_mem_cons.mp every
      rw [map_snd_cut, eq, List.cons_append, words_append _ _ space, words_spaces_append others])
    (Regex.placed none (unwords (words text)))
  rw [Regex.map_placed, flat] at all
  have stripped : (sentenceEnd.split (Regex.placed none (unwords (words text)))).map
      (fun part => strip (part.map Prod.snd)) =
      (sentenceEnd.split (Regex.placed none (unwords (words text)))).map (·.map Prod.snd) :=
    List.map_congr_left fun part member => strip_tidy (parts part member)
  have filtered : ∀ texts : List (List Char),
      (texts.filter (· ≠ [])).flatMap words = texts.flatMap words := by
    intro texts
    induction texts with
    | nil => rfl
    | cons first later ih =>
      by_cases empty : first = []
      · rw [List.filter_cons_of_neg (by simp [empty]), ih, empty, List.flatMap_cons, words_nil]
        rfl
      · rw [List.filter_cons_of_pos (by simp [empty]), List.flatMap_cons, ih, List.flatMap_cons]
  unfold splitSentences
  rw [if_neg blank, stripped]
  constructor
  · rw [filtered, List.flatMap_map]
    exact all
  · intro sentence member
    obtain ⟨inside, full⟩ := List.mem_filter.mp member
    obtain ⟨part, found, rfl⟩ := List.mem_map.mp inside
    exact ⟨parts part found, by simpa using full⟩

/-! ### What the loops keep -/

/-- A chunk is tidy, and short or a single word. -/
structure IsChunk (maxChars : Int) (chunk : List Char) : Prop where
  tidy : Tidy chunk
  full : chunk ≠ []
  short : (chunk.length : Int) ≤ maxChars ∨ IsWord chunk

/-- **What has been packed**: the chunks have its words, and whatever fits stands in one of them. -/
structure Packs (maxChars : Int) (chunks items : List (List Char)) : Prop where
  words : chunks.flatMap words = items.flatMap words
  chunk : ∀ chunk ∈ chunks, IsChunk maxChars chunk
  whole : ∀ item ∈ items, (item.length : Int) ≤ maxChars → ∃ chunk ∈ chunks, item <:+: chunk

theorem packs_nil (maxChars : Int) : Packs maxChars [] [] where
  words := rfl
  chunk _ member := absurd member List.not_mem_nil
  whole _ member := absurd member List.not_mem_nil

theorem Packs.append {maxChars : Int} {chunks more items others : List (List Char)}
    (first : Packs maxChars chunks items) (second : Packs maxChars more others) :
    Packs maxChars (chunks ++ more) (items ++ others) where
  words := by rw [List.flatMap_append, List.flatMap_append, first.words, second.words]
  chunk := List.forall_mem_append.mpr ⟨first.chunk, second.chunk⟩
  whole item member short := by
    rcases List.mem_append.mp member with here | there
    · obtain ⟨chunk, inside, within⟩ := first.whole item here short
      exact ⟨chunk, List.mem_append_left _ inside, within⟩
    · obtain ⟨chunk, inside, within⟩ := second.whole item there short
      exact ⟨chunk, List.mem_append_right _ inside, within⟩

/-- One item, a chunk of its own. -/
theorem packs_singleton {maxChars : Int} {item : List Char} (isChunk : IsChunk maxChars item) :
    Packs maxChars [item] [item] where
  words := rfl
  chunk chunk member := by
    obtain rfl := List.mem_singleton.mp member
    exact isChunk
  whole other member _ := ⟨item, List.mem_singleton_self _, by
    obtain rfl := List.mem_singleton.mp member
    exact List.infix_rfl⟩

/-- **One turn of either loop.** -/
theorem Packs.add {maxChars : Int} {p : Packing} {items : List (List Char)} {item : List Char}
    (packs : Packs maxChars p.close items) (isChunk : IsChunk maxChars item) :
    Packs maxChars (p.add maxChars item).close (items ++ [item]) := by
  have full := isChunk.full
  unfold Packing.add
  split_ifs with empty fits
  · have begun : ({ p with current := item } : Packing).close = p.close ++ [item] := by
      unfold Packing.close
      rw [if_neg full, if_pos empty]
    rw [begun]
    exact packs.append (packs_singleton isChunk)
  · -- the item goes behind the chunk being filled, which keeps all that stood in it
    have closed : p.close = p.chunks ++ [p.current] := if_neg empty
    have longer : ({ p with current := p.current ++ ' ' :: item } : Packing).close =
        p.chunks ++ [p.current ++ ' ' :: item] := if_neg (by simp)
    rw [longer]
    rw [closed] at packs
    obtain ⟨earlier, last⟩ := List.forall_mem_append.mp packs.chunk
    have current := last p.current (List.mem_singleton_self _)
    refine ⟨?_, ?_, ?_⟩
    · have same := packs.words
      rw [List.flatMap_append, List.flatMap_singleton] at same
      rw [List.flatMap_append, List.flatMap_append, List.flatMap_singleton, List.flatMap_singleton,
        words_append _ _ (by decide), ← List.append_assoc, same]
    · refine List.forall_mem_append.mpr ⟨earlier, fun chunk member => ?_⟩
      obtain rfl := List.mem_singleton.mp member
      refine ⟨current.tidy.join empty isChunk.tidy full, by simp, Or.inl ?_⟩
      rw [List.length_append, List.length_cons]
      omega
    · intro other member short
      rcases List.mem_append.mp member with old | new
      · obtain ⟨chunk, inside, within⟩ := packs.whole other old short
        rcases List.mem_append.mp inside with before | here
        · exact ⟨chunk, List.mem_append_left _ before, within⟩
        · obtain rfl := List.mem_singleton.mp here
          refine ⟨_, List.mem_append_right _ (List.mem_singleton_self _), ?_⟩
          exact within.trans (List.prefix_append _ _).isInfix
      · obtain rfl := List.mem_singleton.mp new
        refine ⟨_, List.mem_append_right _ (List.mem_singleton_self _), ?_⟩
        exact ((List.suffix_cons _ _).trans (List.suffix_append _ _)).isInfix
  · have after : ({ chunks := p.chunks ++ [p.current], current := item } : Packing).close =
        p.close ++ [item] := by
      unfold Packing.close
      rw [if_neg full, if_neg empty]
    rw [after]
    exact packs.append (packs_singleton isChunk)

/-- **The induction over a loop.** -/
theorem packs_foldl {maxChars : Int} {turn : Packing → List Char → Packing}
    {later : List (List Char)}
    (step : ∀ p items, ∀ item ∈ later, Packs maxChars p.close items →
      Packs maxChars (turn p item).close (items ++ [item])) {p : Packing}
    {items : List (List Char)} (packs : Packs maxChars p.close items) :
    Packs maxChars (later.foldl turn p).close (items ++ later) := by
  induction later generalizing p items with
  | nil =>
    rw [List.append_nil]
    exact packs
  | cons item later ih =>
    have next := step p items item List.mem_cons_self packs
    have rest := ih (fun p items other member => step p items other (List.mem_cons_of_mem _ member))
      next
    rw [List.append_assoc] at rest
    exact rest

/-- A sentence that is too long is packed by its words. -/
theorem packWords_spec {maxChars : Int} (sentence : List Char) :
    Packs maxChars (packWords sentence maxChars) (words sentence) := by
  have step : ∀ (p : Packing) items, ∀ word ∈ words sentence, Packs maxChars p.close items →
      Packs maxChars (p.add maxChars word).close (items ++ [word]) := by
    intro p items word member packs
    have isWord := isWord_of_mem_words member
    have tidy : Tidy word := by
      unfold Tidy
      rw [words_word isWord]
      rfl
    exact packs.add ⟨tidy, isWord.1, Or.inr isWord⟩
  exact @packs_foldl _ _ _ step {} [] (packs_nil maxChars)

/-- **One turn of the loop over the sentences.** -/
theorem packSentence_spec {maxChars : Int} {p : Packing} {items : List (List Char)}
    {sentence : List Char} (packs : Packs maxChars p.close items) (tidy : Tidy sentence)
    (full : sentence ≠ []) :
    Packs maxChars (packSentence maxChars p sentence).close (items ++ [sentence]) := by
  unfold packSentence
  split_ifs with long
  · have chunks : ({ chunks := p.close ++ packWords sentence maxChars } : Packing).close =
        p.close ++ packWords sentence maxChars := if_pos rfl
    rw [chunks]
    have more := @packWords_spec maxChars sentence
    refine packs.append ⟨?_, more.chunk, ?_⟩
    · have single : (words sentence).flatMap words = words sentence := by
        rw [List.flatMap_congr fun word member => words_word (isWord_of_mem_words member)]
        exact List.flatMap_singleton' _
      rw [more.words, single, List.flatMap_singleton]
    · intro item member short
      obtain rfl := List.mem_singleton.mp member
      omega
  · exact packs.add ⟨tidy, full, Or.inl (by omega)⟩

/-- **What `chunk_text` packs is the sentences.** -/
theorem chunkText_spec (text : List Char) (maxChars : Option Int) :
    Packs (maxChars.getD defaultMaxChars) (chunkText text maxChars) (splitSentences text) := by
  have step : ∀ p items, ∀ sentence ∈ splitSentences text,
      Packs (maxChars.getD defaultMaxChars) p.close items →
      Packs (maxChars.getD defaultMaxChars)
        (packSentence (maxChars.getD defaultMaxChars) p sentence).close (items ++ [sentence]) := by
    intro p items sentence member packs
    obtain ⟨tidy, full⟩ := (splitSentences_spec text).2 sentence member
    exact packSentence_spec packs tidy full
  exact @packs_foldl _ _ _ step {} [] (packs_nil _)

theorem words_chunkText (text : List Char) (maxChars : Option Int) :
    (chunkText text maxChars).flatMap words = words text := by
  rw [(chunkText_spec text maxChars).words, (splitSentences_spec text).1]

/-- **The chunks joined are the text with its whitespace collapsed.** -/
theorem unwords_chunkText (text : List Char) (maxChars : Option Int) :
    unwords (chunkText text maxChars) = unwords (words text) := by
  rw [unwords_eq_flatMap fun chunk member => ?_, words_chunkText]
  have isChunk := (chunkText_spec text maxChars).chunk chunk member
  exact ⟨isChunk.tidy, isChunk.full⟩

/-- Blank text has no chunks, and no other. -/
theorem chunkText_eq_nil {text : List Char} {maxChars : Option Int} :
    chunkText text maxChars = [] ↔ words text = [] := by
  constructor
  · intro none
    rw [← words_chunkText text maxChars, none]
    rfl
  · intro blank
    by_contra full
    obtain ⟨chunk, later, eq⟩ := List.exists_cons_of_ne_nil full
    have isChunk := (chunkText_spec text maxChars).chunk chunk (by rw [eq]; exact List.mem_cons_self)
    have every := words_chunkText text maxChars
    rw [blank, eq, List.flatMap_cons, List.append_eq_nil_iff] at every
    exact words_ne_nil isChunk.tidy isChunk.full every.1

/-- The sentences of a text are those of its words. -/
theorem splitSentences_congr {first second : List Char} (same : words first = words second) :
    splitSentences first = splitSentences second := by
  unfold splitSentences
  rw [same]

end Freshet.Pipeline
