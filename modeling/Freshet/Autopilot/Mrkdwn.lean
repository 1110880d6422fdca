/-
**Slack's bold.**

`_to_mrkdwn` turns headings and then doubled stars into single ones. The first substitution puts a star
on either side of a heading's content, and a bold span that begins or ends it puts a doubled one beside
that star: three in a row, of which the second substitution leaves two.

* **`mrkdwn_iff`** — the documents of which it leaves no doubled star and every other character.
* **`bold_heading`** — `## **b**`.
-/

import Freshet.Autopilot.MdHeading
import Freshet.Lib.Numbering
import Mathlib.Algebra.Ring.Parity
import Mathlib.Data.List.Chain

namespace Freshet.Autopilot.Mrkdwn

open Freshet.Lib
open DoubledMarks (Doubled settles spans between)

/-! ### The translation -/

/-- `_MD_BOLD`. -/
def mdBold : Regex Char := spans '*'

/-- `_to_mrkdwn`. -/
def toMrkdwn (text : List Char) : List Char :=
  let text := (mdHeading.sub (between (none, '*')) (Regex.placed none text)).map Prod.snd
  mdBold.sub (between '*') text

/-! ### Documents -/

/-- A character that is neither a star nor the end of a line. -/
structure Letter where
  char : Char
  star : char ≠ '*'
  newline : char ≠ '\n'

/-- A piece of a line: a letter, or letters in bold, at least one. -/
inductive Piece
  | letter (c : Letter)
  | bold (first : Letter) (more : List Letter)

namespace Piece

def isBold : Piece → Bool
  | letter _ => false
  | bold _ _ => true

/-- `**b**`. -/
def text : Piece → List Char
  | letter c => [c.char]
  | bold first more => '*' :: '*' :: ((first :: more).map Letter.char ++ ['*', '*'])

end Piece

def lineText (line : List Piece) : List Char := line.flatMap Piece.text

def docText (lines : List (List Piece)) : List Char := ['\n'].intercalate (lines.map lineText)

/-- Hashes that stand right behind a word are text; the closing sequence of a heading stands behind a
blank. -/
def Glued (text : List Char) : Prop :=
  trimmed text ≠ unhashed text ∧ unhashed text ≠ [] ∧ content text = unhashed text

instance (text : List Char) : Decidable (Glued text) := instDecidableAnd

/-- What a line says, its stars aside. -/
def spoken (line : List Char) : List Char :=
  let said := match opening line with
    | some text => if Glued text then trimmed text else content text
    | none => line
  said.filter (· ≠ '*')

def docSpoken (lines : List (List Piece)) : List Char :=
  ['\n'].intercalate ((lines.map lineText).map spoken)

/-- No two spans touch. -/
def Apart (line : List Piece) : Prop :=
  line.IsChain fun first second => ¬ (first.isBold = true ∧ second.isBold = true)

/-- No span begins or ends a heading. -/
def Inner (line : List Piece) : Prop :=
  ∀ text, opening (lineText line) = some text →
    (content text).head? ≠ some '*' ∧ (content text).getLast? ≠ some '*'

/-- **A line the translation gets right**: no two spans touch, and if it is a heading then no span
begins or ends its content and no hash is glued to it. -/
structure Translatable (line : List Piece) : Prop where
  apart : Apart line
  inner : Inner line
  unglued : ∀ text, opening (lineText line) = some text → ¬ Glued text

/-- A heading that says nothing. -/
def isEmptyHeading (line : List Piece) : Bool :=
  (opening (lineText line)).any fun text => content text = []

/-! ### The stars of a line -/

section Stars

variable {line : List Piece} {rest : List Char} {isOpen : Bool}

theorem letters_clear (letters : List Letter) : '*' ∉ letters.map Letter.char := by
  intro member
  obtain ⟨c, -, same⟩ := List.mem_map.mp member
  exact c.star same

theorem newline_not_mem (line : List Piece) : '\n' ∉ lineText line := by
  intro member
  obtain ⟨piece, -, inside⟩ := List.mem_flatMap.mp member
  cases piece with
  | letter c => exact c.newline (List.mem_singleton.mp inside).symm
  | bold first more =>
    have inside : '\n' ∈ (first :: more).map Letter.char := by simpa [Piece.text] using inside
    obtain ⟨c, -, same⟩ := List.mem_map.mp inside
    exact c.newline same

/-- A line begins with a star where it begins with a span. -/
theorem head_lineText (line : List Piece) (rest : List Char) :
    (lineText line ++ rest).head? = some '*' ↔
      (line.head?.any Piece.isBold = true) ∨ (line = [] ∧ rest.head? = some '*') := by
  cases line with
  | nil => simp [lineText]
  | cons piece line =>
    cases piece with
    | letter c => simp [lineText, Piece.text, Piece.isBold, c.star]
    | bold first more => simp [lineText, Piece.text, Piece.isBold]

theorem apart_letter {c : Letter} : Apart (.letter c :: line) ↔ Apart line := by
  unfold Apart
  rw [List.isChain_cons]
  exact and_iff_right fun y _ both => Bool.false_ne_true both.1

theorem apart_bold {first : Letter} {more : List Letter} :
    Apart (.bold first more :: line) ↔ line.head?.any Piece.isBold = false ∧ Apart line := by
  unfold Apart
  rw [List.isChain_cons]
  refine and_congr_left fun _ => ?_
  cases line with
  | nil => simp
  | cons piece line => simp [Piece.isBold]

/-- **A line settles where no two spans touch**, and none touches a star behind the line. -/
theorem settles_line : settles '*' isOpen (lineText line ++ rest) = true ↔ Apart line ∧
    (rest.head? = some '*' → line.getLast?.any Piece.isBold = false) ∧
      settles '*' isOpen rest = true := by
  induction line generalizing isOpen with
  | nil => simp [lineText, Apart]
  | cons piece line ih =>
    have last : ∀ piece' line', (piece :: piece' :: line').getLast? = (piece' :: line').getLast? :=
      fun piece' line' => List.getLast?_cons_cons
    cases piece with
    | letter c =>
      have here : settles '*' isOpen (lineText (.letter c :: line) ++ rest) =
          settles '*' isOpen (lineText line ++ rest) := DoubledMarks.settles_cons_of_ne c.star
      rw [here, ih, apart_letter]
      cases line with
      | nil => simp [Piece.isBold]
      | cons piece' line' => rw [last]
    | bold first more =>
      have whole : lineText (.bold first more :: line) ++ rest =
          '*' :: '*' :: ((first :: more).map Letter.char ++ '*' :: '*' :: (lineText line ++ rest)) := by
        simp [lineText, Piece.text]
      have starts : ((first :: more).map Letter.char ++ '*' :: '*' :: (lineText line ++ rest)).head? ≠
          some '*' := fun same => first.star (Option.some.inj same)
      rw [whole, DoubledMarks.settles_pair, DoubledMarks.settles_append (letters_clear _),
        DoubledMarks.settles_pair, Bool.not_not, decide_eq_true starts, Bool.true_and,
        Bool.and_eq_true, decide_eq_true_iff, ih, Ne, head_lineText, apart_bold]
      cases line with
      | nil => simp [Piece.isBold, Apart]
      | cons piece' line' =>
        rw [last]
        simp [and_assoc]

theorem apart_append {c : Letter} : Apart (line ++ [.letter c]) ↔ Apart line := by
  unfold Apart
  rw [List.isChain_append]
  refine and_iff_left ⟨List.isChain_singleton _, fun first _ second last both => ?_⟩
  obtain rfl := Option.some.inj last
  exact Bool.false_ne_true both.2

/-- The pieces behind a text without stars. -/
theorem drop_letters {before text : List Char} (split : lineText line = before ++ text)
    (clear : '*' ∉ before) : ∃ behind, lineText behind = text ∧ (Apart line ↔ Apart behind) := by
  induction before generalizing line with
  | nil => exact ⟨line, split, Iff.rfl⟩
  | cons c before ih =>
    obtain ⟨other, clear⟩ := not_or.mp (mt List.mem_cons.mpr clear)
    cases line with
    | nil => cases split
    | cons piece line =>
      cases piece with
      | letter d =>
        obtain ⟨behind, same, alike⟩ := ih (List.cons.inj split).2 clear
        exact ⟨behind, same, apart_letter.trans alike⟩
      | bold first more => exact absurd (List.cons.inj split).1 other

theorem last_bold {first : Letter} {more : List Letter} (before : List Char) :
    (before ++ (Piece.bold first more).text).getLast? = some '*' := by
  have whole : (Piece.bold first more).text =
      '*' :: '*' :: ((first :: more).map Letter.char ++ ['*']) ++ ['*'] := by simp [Piece.text]
  rw [whole, ← List.append_assoc, List.getLast?_concat]

/-- The pieces before one. -/
theorem take_letters {text after : List Char} (split : lineText line = text ++ after)
    (clear : '*' ∉ after) : ∃ before, lineText before = text ∧ (Apart line ↔ Apart before) := by
  induction after using List.reverseRecOn generalizing line with
  | nil => exact ⟨line, by rw [split, List.append_nil], Iff.rfl⟩
  | append_singleton after c ih =>
    obtain ⟨clear, other⟩ := not_or.mp (mt List.mem_append.mpr clear)
    rw [← List.append_assoc] at split
    cases line using List.reverseRecOn with
    | nil => exact absurd split.symm (by simp [lineText])
    | append_singleton line piece =>
      have whole : lineText (line ++ [piece]) = lineText line ++ piece.text := by
        simp [lineText]
      rw [whole] at split
      cases piece with
      | letter d =>
        obtain ⟨before, same, alike⟩ := ih (List.append_inj_left' split rfl) clear
        exact ⟨before, same, apart_append.trans alike⟩
      | bold first more =>
        have last := congrArg List.getLast? split
        rw [last_bold, List.getLast?_concat] at last
        exact absurd (List.mem_singleton.mpr (Option.some.inj last)) other

/-- The content of a heading is made of pieces too. -/
theorem content_pieces {text : List Char} (opens : opening (lineText line) = some text) :
    ∃ inner, lineText inner = content text ∧ (Apart line ↔ Apart inner) := by
  have clear : ∀ {p : Char → Bool} {run : List Char}, p '*' = false → (∀ c ∈ run, p c = true) →
      '*' ∉ run := by
    intro p run other every member
    rw [every _ member] at other
    cases other
  obtain ⟨indent, hashes, blanks, split, blank, -, hash, -, -, blank', -⟩ := opening_eq_some opens
  obtain ⟨blanks₁, hashes₁, after, split₁, blank₁, hash₁, blank₂⟩ := content_eq text
  have ahead : '*' ∉ indent ++ (hashes ++ blanks) := by
    rw [List.mem_append, List.mem_append]
    rintro (inside | inside | inside)
    · exact clear rfl blank inside
    · exact clear rfl hash inside
    · exact clear rfl blank' inside
  have behind : '*' ∉ blanks₁ ++ (hashes₁ ++ after) := by
    rw [List.mem_append, List.mem_append]
    rintro (inside | inside | inside)
    · exact clear rfl blank₁ inside
    · exact clear rfl hash₁ inside
    · exact clear rfl blank₂ inside
  have split : lineText line = (indent ++ (hashes ++ blanks)) ++ text := by
    rw [split]
    simp only [List.append_assoc]
  obtain ⟨rest, same, alike⟩ := drop_letters split ahead
  obtain ⟨inner, same', alike'⟩ := take_letters (same.trans split₁) behind
  exact ⟨inner, same', alike.trans alike'⟩

/-- A line ends with a star where it ends with a span. -/
theorem last_lineText (line : List Piece) :
    (lineText line).getLast? = some '*' ↔ line.getLast?.any Piece.isBold = true := by
  cases line using List.reverseRecOn with
  | nil => simp [lineText]
  | append_singleton line piece =>
    cases piece with
    | letter c => simp [lineText, Piece.text, Piece.isBold, c.star]
    | bold first more =>
      have whole : lineText (line ++ [.bold first more]) =
          lineText line ++ (Piece.bold first more).text := by
        simp [lineText]
      rw [whole, last_bold, List.getLast?_concat]
      exact iff_of_true rfl rfl

/-- **What the first substitution makes of a line settles where no two spans touch and none begins or
ends a heading**; a heading that says nothing is one pair. -/
theorem settles_headed (other : rest.head? ≠ some '*') :
    settles '*' isOpen (headed (lineText line) ++ rest) = true ↔
      (Apart line ∧ Inner line) ∧ settles '*' (isOpen ^^ isEmptyHeading line) rest = true := by
  unfold headed Inner isEmptyHeading
  cases opens : opening (lineText line) with
  | none =>
    rw [settles_line]
    simp [other]
  | some text =>
    obtain ⟨inner, same, alike⟩ := content_pieces opens
    have only : (∀ text', some text = some text' →
        (content text').head? ≠ some '*' ∧ (content text').getLast? ≠ some '*') ↔
        (content text).head? ≠ some '*' ∧ (content text).getLast? ≠ some '*' :=
      ⟨fun every => every text rfl, fun here text' eq => Option.some.inj eq ▸ here⟩
    rw [only, alike, Option.any_some]
    dsimp only
    rw [List.cons_append, List.append_assoc, List.singleton_append, ← same]
    cases inner with
    | nil => simp [lineText, DoubledMarks.settles_pair, other, Apart]
    | cons piece inner =>
      have speaks : lineText (piece :: inner) ≠ [] := by
        cases piece <;> exact List.cons_ne_nil _ _
      rw [decide_eq_false speaks, Bool.xor_false]
      by_cases starts : (lineText (piece :: inner)).head? = some '*'
      · -- three stars in a row
        obtain ⟨more, eq⟩ : ∃ more, lineText (piece :: inner) = '*' :: '*' :: more := by
          cases piece with
          | letter c => exact absurd (Option.some.inj starts) c.star
          | bold first more => exact ⟨_, rfl⟩
        rw [eq, List.cons_append, List.cons_append, DoubledMarks.settles_pair]
        simp
      · have alone : (lineText (piece :: inner) ++ '*' :: rest).head? ≠ some '*' := by
          obtain ⟨c, cs, eq⟩ := List.exists_cons_of_ne_nil speaks
          rw [eq] at starts ⊢
          exact starts
        rw [DoubledMarks.settles_mark alone, settles_line, DoubledMarks.settles_mark other,
          ne_eq (lineText _).getLast?, last_lineText]
        simp [starts, and_assoc]

end Stars

/-! ### The lines of a document -/

section Documents

variable {lines : List (List Piece)}

/-- The pairs of the headings that say nothing are taken two at a time. -/
theorem parity_cons (isOpen : Bool) (line : List Piece) (lines : List (List Piece)) :
    ((isOpen ^^ isEmptyHeading line) = true ↔ ¬ Even (lines.countP isEmptyHeading)) ↔
      (isOpen = true ↔ ¬ Even ((line :: lines).countP isEmptyHeading)) := by
  rw [List.countP_cons]
  cases isEmptyHeading line with
  | false => simp
  | true =>
    rw [if_pos rfl, Nat.even_add_one]
    cases isOpen <;> simp

theorem settles_doc (isOpen : Bool) (lines : List (List Piece)) :
    settles '*' isOpen (['\n'].intercalate ((lines.map lineText).map headed)) = true ↔
      (∀ line ∈ lines, Apart line ∧ Inner line) ∧
        (isOpen = true ↔ ¬ Even (lines.countP isEmptyHeading)) := by
  induction lines generalizing isOpen with
  | nil => cases isOpen <;> simp [settles]
  | cons line lines ih =>
    rw [List.forall_mem_cons, ← parity_cons, and_assoc, ← ih]
    cases lines with
    | nil =>
      have here := @settles_headed line [] isOpen (by simp)
      rw [List.append_nil] at here
      rw [show ([line].map lineText).map headed = [headed (lineText line)] from rfl,
        List.intercalate_singleton]
      exact here
    | cons next lines =>
      have heads : ['\n'].intercalate (((line :: next :: lines).map lineText).map headed) =
          headed (lineText line) ++
            '\n' :: ['\n'].intercalate (((next :: lines).map lineText).map headed) := by
        rw [List.map_cons, List.map_cons, List.map_cons, List.map_cons, List.intercalate_cons_cons,
          List.append_assoc]
        rfl
      have newline : ∀ isOpen rest, settles '*' isOpen ('\n' :: rest) = settles '*' isOpen rest :=
        fun isOpen rest => DoubledMarks.settles_cons_of_ne (by decide)
      rw [heads, settles_headed (by simp), newline]

/-- **The stars**: none is doubled where no spans touch, none begins or ends a heading, and the
headings that say nothing are even in number. -/
theorem doubled_iff (lines : List (List Piece)) :
    ¬ Doubled '*' (toMrkdwn (docText lines)) ↔
      (∀ line ∈ lines, Apart line ∧ Inner line) ∧ Even (lines.countP isEmptyHeading) := by
  have clear : ∀ line ∈ lines.map lineText, '\n' ∉ line := by
    intro line member
    obtain ⟨pieces, -, rfl⟩ := List.mem_map.mp member
    exact newline_not_mem pieces
  unfold toMrkdwn mdBold docText
  dsimp only
  rw [sub_mdHeading rfl clear, DoubledMarks.doubled_sub_iff, settles_doc]
  refine and_congr_right fun _ => ?_
  rw [iff_comm, ← not_iff_not]
  simp

/-! ### The other characters -/

/-- What is left of a line. -/
def kept (line : List Char) : List Char := (headed line).filter (· ≠ '*')

theorem newline_not_mem_filter {line : List Char} (clear : '\n' ∉ line) (p : Char → Bool) :
    '\n' ∉ line.filter p := fun member => clear (List.mem_of_mem_filter member)

theorem filter_intercalate (lines : List (List Char)) :
    (['\n'].intercalate lines).filter (· ≠ '*') =
      ['\n'].intercalate (lines.map fun line => line.filter (· ≠ '*')) := by
  induction lines with
  | nil => rfl
  | cons line lines ih =>
    cases lines with
    | nil => simp [List.intercalate_singleton]
    | cons next lines =>
      rw [List.map_cons, List.map_cons, List.intercalate_cons_cons, List.intercalate_cons_cons,
        ← List.map_cons, ← ih, List.filter_append, List.filter_append]
      rfl

/-- Lines are read back. -/
theorem intercalate_inj {f g : List Char → List Char} {lines : List (List Char)}
    (clear : ∀ line ∈ lines, '\n' ∉ f line ∧ '\n' ∉ g line) :
    ['\n'].intercalate (lines.map f) = ['\n'].intercalate (lines.map g) ↔
      ∀ line ∈ lines, f line = g line := by
  induction lines with
  | nil => simp
  | cons line lines ih =>
    cases lines with
    | nil => simp [List.intercalate_singleton]
    | cons next lines =>
      have later := ih fun line member => clear line (List.mem_cons_of_mem _ member)
      have here := clear line List.mem_cons_self
      rw [List.forall_mem_cons, ← later]
      simp only [List.map_cons, List.intercalate_cons_cons, List.append_assoc, List.singleton_append]
      constructor
      · exact separator_append_inj here.1 here.2
      · rintro ⟨same, rest⟩
        rw [same, rest]

/-- Glued hashes are lost. -/
theorem filter_glued {text : List Char} (glued : Glued text) :
    (content text).filter (· ≠ '*') ≠ (trimmed text).filter (· ≠ '*') := by
  obtain ⟨lost, -, same⟩ := glued
  have split : unhashed text ++ (trimmed text).rtakeWhile isHash = trimmed text :=
    List.rdropWhile_append_rtakeWhile
  intro equal
  rw [same, ← split, List.filter_append] at equal
  have none := List.append_right_eq_self.mp equal.symm
  cases hashes : (trimmed text).rtakeWhile isHash with
  | nil =>
    rw [hashes, List.append_nil] at split
    exact lost split.symm
  | cons c cs =>
    have hash : isHash c = true := List.mem_rtakeWhile_imp (hashes ▸ List.mem_cons_self)
    obtain rfl : c = '#' := eq_of_beq hash
    rw [hashes] at none
    cases none

/-- **A line keeps what it says exactly where no hash is glued to it.** -/
theorem kept_iff {line : List Char} :
    kept line = spoken line ↔ ∀ text, opening line = some text → ¬ Glued text := by
  unfold kept headed spoken
  cases opens : opening line with
  | none => simp
  | some text =>
    have stars : ('*' :: (content text ++ ['*'])).filter (· ≠ '*') =
        (content text).filter (· ≠ '*') := by simp
    dsimp only
    rw [stars]
    by_cases glued : Glued text
    · rw [if_pos glued]
      exact iff_of_false (filter_glued glued) fun every => every text rfl glued
    · rw [if_neg glued]
      refine iff_of_true rfl fun text' same => ?_
      rw [← Option.some.inj same]
      exact glued

theorem newline_not_mem_kept (line : List Piece) :
    '\n' ∉ kept (lineText line) ∧ '\n' ∉ spoken (lineText line) := by
  have clear := newline_not_mem line
  have inside : ∀ text, opening (lineText line) = some text → '\n' ∉ text := by
    intro text opens member
    obtain ⟨indent, hashes, blanks, split, -⟩ := opening_eq_some opens
    rw [split] at clear
    exact clear (List.mem_append_right _ (List.mem_append_right _ (List.mem_append_right _ member)))
  have trimmed_sub : ∀ text c, c ∈ trimmed text → c ∈ text := fun text c member =>
    (List.rdropWhile_prefix _ text).subset member
  have content_sub : ∀ text c, c ∈ content text → c ∈ text := fun text c member =>
    trimmed_sub text c ((List.rdropWhile_prefix _ _).subset ((List.rdropWhile_prefix _ _).subset member))
  unfold kept headed spoken
  cases opens : opening (lineText line) with
  | none => exact ⟨newline_not_mem_filter clear _, newline_not_mem_filter clear _⟩
  | some text =>
    have clear := inside text opens
    refine ⟨newline_not_mem_filter (fun member => ?_) _, newline_not_mem_filter (fun member => ?_) _⟩
    · have member : '\n' ∈ content text := by simpa using member
      exact clear (content_sub text _ member)
    · dsimp only at member
      split_ifs at member
      · exact clear (trimmed_sub text _ member)
      · exact clear (content_sub text _ member)

/-- **The other characters**: they stay as they are, hashes glued to a heading aside. -/
theorem spoken_iff (lines : List (List Piece)) :
    (toMrkdwn (docText lines)).filter (· ≠ '*') = docSpoken lines ↔
      ∀ line ∈ lines, ∀ text, opening (lineText line) = some text → ¬ Glued text := by
  have clear : ∀ line ∈ lines.map lineText, '\n' ∉ line := by
    intro line member
    obtain ⟨pieces, -, rfl⟩ := List.mem_map.mp member
    exact newline_not_mem pieces
  have apart : ∀ line ∈ lines.map lineText, '\n' ∉ kept line ∧ '\n' ∉ spoken line := by
    intro line member
    obtain ⟨pieces, -, rfl⟩ := List.mem_map.mp member
    exact newline_not_mem_kept pieces
  unfold toMrkdwn mdBold docText docSpoken
  dsimp only
  rw [sub_mdHeading rfl clear, DoubledMarks.filter_sub, filter_intercalate, List.map_map]
  refine (intercalate_inj apart).trans ?_
  rw [List.forall_mem_map]
  exact forall₂_congr fun line _ => kept_iff

/-- **No doubled star reaches Slack and nothing else is lost, exactly where every line is one the
translation gets right and the headings that say nothing are even in number.** -/
theorem mrkdwn_iff (lines : List (List Piece)) :
    (¬ ['*', '*'] <:+: toMrkdwn (docText lines) ∧
      (toMrkdwn (docText lines)).filter (· ≠ '*') = docSpoken lines) ↔
      (∀ line ∈ lines, Translatable line) ∧ Even (lines.countP isEmptyHeading) := by
  rw [spoken_iff, show ¬ ['*', '*'] <:+: toMrkdwn (docText lines) ↔ _ from doubled_iff lines]
  constructor
  · rintro ⟨⟨settled, even⟩, unglued⟩
    exact ⟨fun line member =>
      ⟨(settled line member).1, (settled line member).2, unglued line member⟩, even⟩
  · rintro ⟨every, even⟩
    exact ⟨⟨fun line member => ⟨(every line member).apart, (every line member).inner⟩, even⟩,
      fun line member => (every line member).unglued⟩

end Documents

/-! ### A heading in bold -/

/-- `## **b**`. -/
def boldHeading : List Piece :=
  [.letter ⟨'#', by decide, by decide⟩, .letter ⟨'#', by decide, by decide⟩,
    .letter ⟨' ', by decide, by decide⟩, .bold ⟨'b', by decide, by decide⟩ []]

/-- **A heading in bold** becomes `**b**`. -/
theorem bold_heading : toMrkdwn (docText [boldHeading]) = "**b**".toList ∧
    ¬ (¬ ['*', '*'] <:+: toMrkdwn (docText [boldHeading]) ∧
      (toMrkdwn (docText [boldHeading])).filter (· ≠ '*') = docSpoken [boldHeading]) := by
  have bold : toMrkdwn (docText [boldHeading]) = "**b**".toList := by decide +kernel
  refine ⟨bold, fun kept => kept.1 ?_⟩
  rw [bold]
  exact ⟨[], "b**".toList, by decide⟩

end Freshet.Autopilot.Mrkdwn
