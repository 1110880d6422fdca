/-
**Where an update states a cause**: the first sentence that names one, unless it only promises an
analysis, or says that the cause was found or is being looked for without naming it.

Only the truth of `search` is used, so a negative lookahead is the question whether its pattern
fails behind one of the ways to match (`occursUnless`).
-/

import Freshet.Pipeline.Chunking
import Mathlib.Data.List.Infix

namespace Freshet.Autopilot

open Freshet.Lib Freshet.Pipeline

/-- What is read off Python's Unicode tables: `str.lower` and `\w`. -/
structure Unicode where
  lower : List Char → List Char
  isWord : Char → Bool

/-- The characters of a sentence, each beside the one before it. -/
abbrev Placed := Option Char × Char

/-- A word or a phrase, in any case. -/
def said (phrase : String) : Regex Placed :=
  .word (phrase.toList.map fun letter p => caseless letter p.2)

/-- `(?:one|another|…)`. -/
def oneOf : List (Regex Placed) → Regex Placed
  | [] => .nothing
  | [pattern] => pattern
  | pattern :: later => .alt pattern (oneOf later)

def anyOf (phrases : List String) : Regex Placed := oneOf (phrases.map said)

/-- `{0,n}?`. -/
def upToFew (test : Placed → Bool) : Nat → Regex Placed
  | 0 => .nothing
  | n + 1 => .alt .nothing (.seq (.one test) (upToFew test n))

/-- `[^.]{0,n}?`. -/
def noStop (n : Nat) : Regex Placed := upToFew (fun p => p.2 != '.') n

/-- `\s`. -/
def space : Regex Placed := .one fun p => isSpace p.2

/-- `pattern(?!later)` is found. -/
def occursUnless (pattern later : Regex Placed) (input : List Placed) : Bool :=
  input.tails.any fun here => (pattern.ways ⟨here, []⟩).any fun w => (later.ways w).isEmpty

/-- `pattern.search(sentence)` is not None. -/
def occurs (pattern : Regex Placed) (sentence : List Char) : Bool :=
  (pattern.search (Regex.placed none sentence)).isSome

/-- `_CAUSE_MARKERS`. -/
def causeMarkers : List String :=
  ["caused by", "root cause", "due to", "as a result of", "identified the source of",
    "identified the cause of", "stemmed from", "triggered by", "resulted from"]

/-- `_PROMISSORY`. -/
def promissory : Regex Placed :=
  oneOf [
    .all [said "will be ", anyOf ["shared", "provided", "published", "available"]],
    .all [said "will ", anyOf ["follow", "share", "provide"]],
    said "as soon as it is available", said "analysis will", said "postmortem will",
    said "updates will", said "will continue"]

/-- The first branch of `_FOUND_BUT_UNNAMED`, without what must not follow it. -/
def foundCause : Regex Placed := .all [said "identified the ", anyOf ["root cause", "cause"]]

/-- `\s+of\s`. -/
def ofWhich : Regex Placed := .all [.some fun p => isSpace p.2, said "of", space]

/-- The other branches of `_FOUND_BUT_UNNAMED`. -/
def foundElse : Regex Placed :=
  oneOf [
    .all [said "identified the ", anyOf ["root cause", "source", "cause"], said " ",
      anyOf ["of", "for"], space],
    .all [.opt (said "root "), said "cause ", anyOf ["has been", "had been", "was", "is"], said " ",
      anyOf ["fixed", "addressed", "resolved", "mitigated", "remediated", "corrected", "repaired"]]]

/-- `_FOUND_BUT_UNNAMED.search`. -/
def foundButUnnamed (sentence : List Char) : Bool :=
  occursUnless foundCause ofWhich (Regex.placed none sentence) || occurs foundElse sentence

section Unicode

variable (unicode : Unicode)

/-- `\w*`. -/
def wordChars : Regex Placed := .many fun p => unicode.isWord p.2

/-- `_UNRESOLVED`. -/
def unresolved : Regex Placed :=
  oneOf [
    .all [anyOf ["still", "currently", "actively"], said " ",
      oneOf [said "investigating", said "determining",
        .all [said "working to ", anyOf ["identify", "determine"]]],
      noStop 30, anyOf ["root cause", "cause"]],
    .all [oneOf [said "in the process of", .all [said "continue", .opt (said "s"), said " to"],
        said "continuing to", said "continue"], said " ",
      oneOf [.all [said "investigat", wordChars unicode], .all [said "look", wordChars unicode],
        .all [said "determin", wordChars unicode]],
      noStop 30, anyOf ["root cause", "cause"]],
    .all [.opt (said "root "), said "cause ", anyOf ["is", "remains"], said " ",
      .opt (said "still "),
      oneOf [said "unknown", said "unclear", said "under investigation", said "being investigated",
        .all [said "not ", .opt (said "yet "), anyOf ["known", "determined", "identified"]]]]]

/-- `\b` before a letter: the character in front is none of a word. -/
def atWord : Regex Placed := .ahead (.one fun p => !p.1.any unicode.isWord)

/-- `_NAMES_A_SUSPECT`. -/
def namesASuspect : Regex Placed :=
  oneOf [
    .all [said "which ", anyOf ["appears", "seems", "is believed", "is thought"], said " to be"],
    .all [said "appears to ", anyOf ["be", "have been"], said " ",
      anyOf ["related to", "caused by", "due to"]],
    .all [anyOf ["related", "traced", "linked", "attributed"], said " to ",
      anyOf ["a", "an", "the"], space],
    .all [anyOf ["identified", "traced", "attributed", "determined"], noStop 80, atWord unicode,
      said "as ", anyOf ["a", "an", "the"], space],
    .all [anyOf ["root cause", "cause", "source"], .many fun p => isSpace p.2, said ":",
      .many fun p => isSpace p.2, .one fun p => !isSpace p.2]]

/-- A sentence at which `_cause_sentence` returns. -/
def statesCause (sentence : List Char) : Bool :=
  let lowered := unicode.lower sentence
  let namesOne := occurs (namesASuspect unicode) sentence
  (causeMarkers.any fun marker => decide (marker.toList <:+: lowered)) &&
    !occurs promissory sentence &&
    !(foundButUnnamed sentence && !namesOne) &&
    !(occurs (unresolved unicode) sentence && !namesOne)

/-- `_cause_sentence`. -/
def causeSentence (text : List Char) : Option (List Char) :=
  (splitSentences text).find? (statesCause unicode)

end Unicode

end Freshet.Autopilot
