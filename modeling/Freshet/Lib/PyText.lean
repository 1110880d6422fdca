/-
**Text as Python's `str` and `re` see it.**

* `isSpace`, `isDigit`, `digitValue`: the character classes `\s` and `\d`, which are Unicode's;
* `caseless`: when a letter of a pattern matches under `re.IGNORECASE`;
* `strip` and `squeeze`: `str.strip` and `re.sub(r"\s+", " ", …)`, with `collapse`, their composition.

`ways_anyCase_lacks` is how a lazy run is followed to the first occurrence of a word.
-/

import Freshet.Lib.Regex
import Mathlib.Data.List.DropRight

namespace Freshet.Lib

/-! ### Character classes -/

/-- The code points of `str.isspace`. -/
def isSpaceCode (n : Nat) : Bool :=
  (0x9 ≤ n && n ≤ 0xd) || (0x1c ≤ n && n ≤ 0x20) || n == 0x85 || n == 0xa0 || n == 0x1680 ||
    (0x2000 ≤ n && n ≤ 0x200a) || n == 0x2028 || n == 0x2029 || n == 0x202f || n == 0x205f ||
    n == 0x3000

/-- `str.isspace` of one character, and `\s`. -/
def isSpace (c : Char) : Bool := isSpaceCode c.toNat

/-- The zeros of Unicode's decimal digits; the nine others of each row follow it. -/
def decimalZeros : List Nat :=
  [0x30, 0x660, 0x6f0, 0x7c0, 0x966, 0x9e6, 0xa66, 0xae6, 0xb66, 0xbe6, 0xc66, 0xce6, 0xd66, 0xde6,
    0xe50, 0xed0, 0xf20, 0x1040, 0x1090, 0x17e0, 0x1810, 0x1946, 0x19d0, 0x1a80, 0x1a90, 0x1b50,
    0x1bb0, 0x1c40, 0x1c50, 0xa620, 0xa8d0, 0xa900, 0xa9d0, 0xa9f0, 0xaa50, 0xabf0, 0xff10, 0x104a0,
    0x10d30, 0x11066, 0x110f0, 0x11136, 0x111d0, 0x112f0, 0x11450, 0x114d0, 0x11650, 0x116c0,
    0x11730, 0x118e0, 0x11950, 0x11c50, 0x11d50, 0x11da0, 0x16a60, 0x16ac0, 0x16b50, 0x1d7ce,
    0x1d7d8, 0x1d7e2, 0x1d7ec, 0x1d7f6, 0x1e140, 0x1e2f0, 0x1e950, 0x1fbf0]

/-- The value of a decimal digit. -/
def digitValue (c : Char) : Option Nat :=
  (decimalZeros.find? fun nought => nought ≤ c.toNat && c.toNat < nought + 10).map fun nought =>
    c.toNat - nought

/-- `\d`. -/
def isDigit (c : Char) : Bool := (digitValue c).isSome

theorem isDigit_iff {c : Char} :
    isDigit c = true ↔ ∃ nought ∈ decimalZeros, nought ≤ c.toNat ∧ c.toNat < nought + 10 := by
  unfold isDigit digitValue
  rw [Option.isSome_map, List.find?_isSome]
  simp only [Bool.and_eq_true, decide_eq_true_eq]

/-- No character is both. -/
theorem isSpace_of_isDigit {c : Char} (digit : isDigit c = true) : isSpace c = false := by
  obtain ⟨nought, member, lower, upper⟩ := isDigit_iff.mp digit
  have apart : ∀ nought ∈ decimalZeros, ∀ i ∈ List.range 10, isSpaceCode (nought + i) = false := by
    decide
  have value := apart nought member (c.toNat - nought) (List.mem_range.mpr (by omega))
  rw [Nat.add_sub_cancel' lower] at value
  exact value

theorem isDigit_of_isSpace {c : Char} (space : isSpace c = true) : isDigit c = false := by
  cases digit : isDigit c with
  | false => rfl
  | true =>
    rw [isSpace_of_isDigit digit] at space
    exact absurd space (by simp)

/-- `int` of a string of decimal digits. -/
def intOf (digits : List Char) : Nat :=
  digits.foldl (fun value c => 10 * value + (digitValue c).getD 0) 0

/-- The letter that a character counts as under `re.IGNORECASE`: four that are not ASCII count as
`i`, `k` and `s`. -/
def foldCase (c : Char) : Char :=
  if c = 'İ' ∨ c = 'ı' then 'i' else if c = '\u212A' then 'k' else if c = 'ſ' then 's' else c.toLower

/-- A character of a pattern under `re.IGNORECASE`. -/
def caseless (letter c : Char) : Bool := foldCase letter == foldCase c

/-- A text that is matched regardless of case. -/
def anyCase (text : String) : Regex Char := Regex.word (text.toList.map caseless)

/-- A text that is matched as it stands. -/
def exactly (text : String) : Regex Char := Regex.word (text.toList.map fun c => (c == ·))

theorem mem_ways_exactly {text : String} {w v : Way Char} :
    v ∈ (exactly text).ways w ↔ w.rest = text.toList ++ v.rest ∧ v.groups = w.groups := by
  unfold exactly
  rw [Regex.mem_ways_word]
  constructor
  · rintro ⟨found, split, fits, same⟩
    rw [List.forall₂_map_left_iff] at fits
    have equal : text.toList = found := by
      rw [← List.forall₂_eq_eq_eq]
      exact fits.imp fun _ _ passes => eq_of_beq passes
    rw [equal]
    exact ⟨split, same⟩
  · rintro ⟨split, same⟩
    refine ⟨text.toList, split, ?_, same⟩
    rw [List.forall₂_map_left_iff, List.forall₂_same]
    exact fun c _ => beq_self_eq_true c

theorem mem_ways_anyCase {text : String} {w v : Way Char} :
    v ∈ (anyCase text).ways w ↔ ∃ found, w.rest = found ++ v.rest ∧
      List.Forall₂ (fun letter c => caseless letter c = true) text.toList found ∧
      v.groups = w.groups := by
  unfold anyCase
  rw [Regex.mem_ways_word]
  simp only [List.forall₂_map_left_iff]

/-- Only letters have another case. -/
theorem eq_of_caseless {letter c : Char} (plain : foldCase letter = letter)
    (other : ¬ ('a' ≤ letter ∧ letter ≤ 'z')) (same : caseless letter c = true) : c = letter := by
  have fold : foldCase c = letter := by
    rw [← plain]
    exact (eq_of_beq same).symm
  unfold foldCase at fold
  split_ifs at fold
  · exact absurd (by rw [← fold]; decide) other
  · exact absurd (by rw [← fold]; decide) other
  · exact absurd (by rw [← fold]; decide) other
  · unfold Char.toLower at fold
    split_ifs at fold with upper
    · refine absurd ?_ other
      rw [← fold]
      obtain ⟨low, high⟩ := upper
      have lower : 65 ≤ c.val.toNat := low
      have higher : c.val.toNat ≤ 90 := high
      have value : (c.val + ('a'.val - 'A'.val)).toNat = c.val.toNat + 32 := by
        have constant : ('a'.val - 'A'.val : UInt32) = 32 := rfl
        rw [constant, UInt32.toNat_add]
        show (c.val.toNat + 32) % 2 ^ 32 = c.val.toNat + 32
        omega
      constructor
      · show 97 ≤ (c.val + ('a'.val - 'A'.val)).toNat
        omega
      · show (c.val + ('a'.val - 'A'.val)).toNat ≤ 122
        omega
    · exact fold

/-- **A text holds no occurrence of a word**, in any case. -/
def Lacks (word : String) (text : List Char) : Prop := (anyCase word).search text = none

instance (word : String) (text : List Char) : Decidable (Lacks word text) :=
  decidable_of_iff ((anyCase word).search text = none) Iff.rfl

/-- **A text holds none, or a first one.** -/
theorem lacks_or_split {word : String} (full : word.toList ≠ []) (text : List Char) :
    Lacks word text ∨ ∃ before found after, text = before ++ (found ++ after) ∧ Lacks word before ∧
      List.Forall₂ (fun letter c => caseless letter c = true) word.toList found := by
  have search_nil : (anyCase word).search [] = none := by
    cases found : (anyCase word).first [] with
    | none =>
      unfold Regex.search
      rw [found]
      rfl
    | some result =>
      obtain ⟨occurrence, split, fits, -⟩ := mem_ways_anyCase.mp (Regex.mem_ways_of_first found)
      obtain ⟨rfl, -⟩ := List.append_eq_nil_iff.mp split.symm
      exact absurd (List.forall₂_nil_right_iff.mp fits) full
  induction text with
  | nil => exact Or.inl search_nil
  | cons c cs ih =>
    cases here : (anyCase word).first (c :: cs) with
    | some result =>
      obtain ⟨occurrence, split, fits, -⟩ := mem_ways_anyCase.mp (Regex.mem_ways_of_first here)
      exact Or.inr ⟨[], occurrence, _, split, search_nil, fits⟩
    | none =>
      rcases ih with lacks | ⟨before, found, after, rfl, lacks, fits⟩
      · left
        unfold Lacks
        rw [Regex.search, here]
        exact lacks
      · refine Or.inr ⟨c :: before, found, after, rfl, ?_, fits⟩
        have absent : (anyCase word).first (c :: before) = none := by
          rw [Regex.first_eq_none, List.eq_nil_iff_forall_not_mem] at here ⊢
          intro v member
          obtain ⟨occurrence, split, fits', -⟩ := mem_ways_anyCase.mp member
          refine here ⟨v.rest ++ (found ++ after), []⟩ ?_
          refine mem_ways_anyCase.mpr ⟨occurrence, ?_, fits', rfl⟩
          show c :: (before ++ (found ++ after)) = occurrence ++ (v.rest ++ (found ++ after))
          rw [← List.cons_append, show c :: before = occurrence ++ v.rest from split,
            List.append_assoc]
        unfold Lacks
        rw [Regex.search, absent]
        exact lacks

/-- An occurrence does not reach into what follows, when that begins with a character that the word
has in front alone. -/
theorem ways_anyCase_lacks {word : String} {text before after rest : List Char} {c : Char}
    {groups : List (Nat × List Char)} (stop : Char) (lacks : Lacks word text)
    (alone : word.toList.tail.all (fun letter => !caseless letter stop) = true)
    (split : text = before ++ c :: after) (follows : ∀ d ∈ rest.head?, d = stop) :
    (anyCase word).ways ⟨c :: after ++ rest, groups⟩ = [] := by
  rw [List.eq_nil_iff_forall_not_mem]
  intro v member
  obtain ⟨found, eq, fits, -⟩ := mem_ways_anyCase.mp member
  have absent : (anyCase word).first (c :: after) = none := by
    unfold Lacks at lacks
    rw [split] at lacks
    exact Regex.first_of_search_none lacks
  have within : ∀ more, c :: after ≠ found ++ more := by
    intro more inside
    have here : (⟨more, []⟩ : Way Char) ∈ (anyCase word).ways ⟨c :: after, []⟩ :=
      mem_ways_anyCase.mpr ⟨found, inside, fits, rfl⟩
    rw [Regex.first_eq_none.mp absent] at here
    exact absurd here List.not_mem_nil
  rcases List.append_eq_append_iff.mp (show c :: after ++ rest = found ++ v.rest from eq) with
    ⟨more, longer, tail⟩ | ⟨more, shorter, -⟩
  · -- the occurrence goes on behind the text: its second character or a later one is the stop
    cases more with
    | nil =>
      rw [List.append_nil] at longer
      exact within [] (by rw [List.append_nil, longer])
    | cons d more =>
      have stopped : d = stop := follows d (by rw [tail]; rfl)
      rw [longer] at fits
      cases letters : word.toList with
      | nil =>
        rw [letters] at fits
        exact absurd fits (by simp)
      | cons first tail' =>
        rw [letters, List.cons_append] at fits
        obtain ⟨-, later⟩ := List.forall₂_cons.mp fits
        have among : d ∈ after ++ d :: more := List.mem_append_right _ List.mem_cons_self
        obtain ⟨letter, member', passes⟩ : ∃ letter ∈ tail', caseless letter d = true := by
          clear fits letters
          generalize after ++ d :: more = text' at later among
          induction later with
          | nil => exact absurd among List.not_mem_nil
          | cons passes _ ih =>
            rcases List.mem_cons.mp among with rfl | among
            · exact ⟨_, List.mem_cons_self, passes⟩
            · obtain ⟨letter, inside, passes⟩ := ih among
              exact ⟨letter, List.mem_cons_of_mem _ inside, passes⟩
        have clear' := List.all_eq_true.mp alone letter (by rw [letters]; exact member')
        rw [← stopped, passes] at clear'
        exact absurd clear' (by simp)
  · exact within more shorter

/-- A text without an occurrence, and another behind it. -/
theorem Lacks.append {word : String} {before after : List Char} (stop : Char)
    (lacks : Lacks word before)
    (alone : word.toList.tail.all (fun letter => !caseless letter stop) = true)
    (follows : ∀ d ∈ after.head?, d = stop) (later : Lacks word after) :
    Lacks word (before ++ after) := by
  unfold Lacks
  rw [Regex.search_append fun front c back split =>
    Regex.first_eq_none.mpr (ways_anyCase_lacks stop lacks alone split follows)]
  exact later

/-! ### Whitespace -/

/-- `str.strip`. -/
def strip (text : List Char) : List Char := (text.dropWhile isSpace).rdropWhile isSpace

/-- A text without space is stripped already. -/
theorem strip_of_clear {text : List Char} (clear : ∀ c ∈ text, isSpace c = false) :
    strip text = text := by
  have left : text.dropWhile isSpace = text := by
    rw [List.dropWhile_eq_self_iff]
    intro full
    rw [clear _ (List.getElem_mem full)]
    exact Bool.false_ne_true
  have right : text.rdropWhile isSpace = text := by
    rw [List.rdropWhile_eq_self_iff]
    intro full
    rw [clear _ (List.getLast_mem full)]
    exact Bool.false_ne_true
  unfold strip
  rw [left, right]

theorem dropWhile_append_stop {before : List Char} {c : Char} {after : List Char}
    (stop : isSpace c = false) :
    (before ++ c :: after).dropWhile isSpace = before.dropWhile isSpace ++ c :: after := by
  rw [List.dropWhile_append]
  split_ifs with empty
  · rw [List.isEmpty_iff.mp empty, List.dropWhile_cons_of_neg (by simp [stop]), List.nil_append]
  · rfl

theorem rdropWhile_stop_append {before : List Char} {c : Char} {after : List Char}
    (stop : isSpace c = false) :
    (before ++ c :: after).rdropWhile isSpace = before ++ c :: after.rdropWhile isSpace := by
  unfold List.rdropWhile
  rw [List.reverse_append, List.reverse_cons, List.append_assoc, List.singleton_append,
    dropWhile_append_stop stop]
  simp

theorem rdropWhile_cons {c : Char} {text : List Char} (visible : ∃ e ∈ c :: text, isSpace e = false) :
    (c :: text).rdropWhile isSpace = c :: text.rdropWhile isSpace := by
  unfold List.rdropWhile
  rw [List.reverse_cons, List.dropWhile_append]
  split_ifs with empty
  · have spaces : text.rdropWhile isSpace = [] := by
      unfold List.rdropWhile
      rw [List.isEmpty_iff.mp empty, List.reverse_nil]
    obtain ⟨e, member, here⟩ := visible
    have clear : isSpace c = false := by
      rcases List.mem_cons.mp member with rfl | inside
      · exact here
      · have space := List.rdropWhile_eq_nil_iff.mp spaces e inside
        rw [here] at space
        exact absurd space (by simp)
    rw [List.isEmpty_iff.mp empty, List.dropWhile_cons_of_neg (by simp [clear])]
    rfl
  · rw [List.reverse_append]
    rfl

/-- What stands between two visible characters is not stripped. -/
theorem strip_append {before middle after : List Char} {c d : Char}
    (first : isSpace c = false) (last : isSpace d = false) :
    strip (before ++ (c :: middle ++ [d]) ++ after) =
      before.dropWhile isSpace ++ (c :: middle ++ [d]) ++ after.rdropWhile isSpace := by
  unfold strip
  have left := @dropWhile_append_stop before c (middle ++ [d] ++ after) first
  have right := @rdropWhile_stop_append (before.dropWhile isSpace ++ c :: middle) d after last
  simp only [List.append_assoc, List.cons_append, List.nil_append] at left right ⊢
  rw [left, right]

/-- `re.sub(r"\s+", " ", …)`; `between` says that a space has just been written. -/
def squeeze : (between : Bool) → List Char → List Char
  | _, [] => []
  | between, c :: cs =>
    if isSpace c then if between then squeeze true cs else ' ' :: squeeze true cs
    else c :: squeeze false cs

/-- `re.sub(r"\s+", " ", text).strip()`. -/
def collapse (text : List Char) : List Char :=
  strip ((Regex.some isSpace).sub (fun _ => [' ']) text)

end Freshet.Lib
