/-
**Chunking loses nothing and splits no sentence that fits.**

The invariant of the packing loops (`chunkText_spec`) says which words the chunks have and what
stands in them; tidy chunks are determined by their words, so joined they are the text with its
whitespace collapsed. A text and its collapsed form have the same sentences, and so the same cause.
-/

import Freshet.Autopilot.Brief

namespace Freshet.Pipeline

open Freshet.Lib Freshet.Autopilot

/-- A text that is joined again has the sentences that it had. -/
theorem splitSentences_unwords (text : List Char) (maxChars : Option Int) :
    splitSentences (unwords (chunkText text maxChars)) = splitSentences text := by
  refine splitSentences_congr ?_
  rw [unwords_chunkText, words_unwords fun word member => isWord_of_mem_words member]

/-- **Joined with single spaces the chunks are the text with its whitespace collapsed, which states
the cause that the text states; a sentence that is not too long lies inside one chunk; and a chunk
is not empty, and not too long unless it is a single word.** -/
theorem chunkText_lossless (unicode : Unicode) (text : List Char) (maxChars : Option Int) :
    unwords (chunkText text maxChars) = unwords (words text) ∧
      causeSentence unicode (unwords (chunkText text maxChars)) = causeSentence unicode text ∧
      (∀ sentence ∈ splitSentences text,
        (sentence.length : Int) ≤ maxChars.getD defaultMaxChars →
          ∃ chunk ∈ chunkText text maxChars, sentence <:+: chunk) ∧
      ∀ chunk ∈ chunkText text maxChars, chunk ≠ [] ∧
        ((chunk.length : Int) ≤ maxChars.getD defaultMaxChars ∨ IsWord chunk) := by
  have packs := chunkText_spec text maxChars
  refine ⟨unwords_chunkText text maxChars, ?_, packs.whole, fun chunk member => ?_⟩
  · unfold causeSentence
    rw [splitSentences_unwords]
  · have isChunk := packs.chunk chunk member
    exact ⟨isChunk.full, isChunk.short⟩

end Freshet.Pipeline
