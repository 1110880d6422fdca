/-
**Character references of HTML**: `html.unescape` and `html.escape`.

The table of named references, `html.entities.html5`, is a parameter. A reference never reaches past
a `<`, so a text is unescaped piece by piece there (`unescape_append`).
-/

import Freshet.Lib.PyText

namespace Freshet.Lib

/-! ### `html.unescape` -/

def isAsciiDigit (c : Char) : Bool := '0' ≤ c && c ≤ '9'

def isHexDigit (c : Char) : Bool :=
  isAsciiDigit c || ('a' ≤ c && c ≤ 'f') || ('A' ≤ c && c ≤ 'F')

/-- The characters a named reference may have. -/
def isNameChar (c : Char) : Bool :=
  c != '\t' && c != '\n' && c != '\x0c' && c != ' ' && c != '<' && c != '&' && c != '#' && c != ';'

/-- `_charref`. -/
def charref : Regex Char :=
  .all [exactly "&", .group 1 <|
    .alt (.all [exactly "#", .some isAsciiDigit, .opt (exactly ";")]) <|
    .alt (.all [exactly "#", .one fun c => c == 'x' || c == 'X', .some isHexDigit,
      .opt (exactly ";")])
    (.all [.one isNameChar, .upTo isNameChar 31, .opt (exactly ";")])]

/-- `_invalid_charrefs`: the numbers that stand for another character. -/
def invalidCharrefs : List (Nat × Nat) :=
  [(0x00, 0xfffd), (0x0d, 0x0d), (0x80, 0x20ac), (0x81, 0x81), (0x82, 0x201a), (0x83, 0x192),
    (0x84, 0x201e), (0x85, 0x2026), (0x86, 0x2020), (0x87, 0x2021), (0x88, 0x2c6), (0x89, 0x2030),
    (0x8a, 0x160), (0x8b, 0x2039), (0x8c, 0x152), (0x8d, 0x8d), (0x8e, 0x17d), (0x8f, 0x8f),
    (0x90, 0x90), (0x91, 0x2018), (0x92, 0x2019), (0x93, 0x201c), (0x94, 0x201d), (0x95, 0x2022),
    (0x96, 0x2013), (0x97, 0x2014), (0x98, 0x2dc), (0x99, 0x2122), (0x9a, 0x161), (0x9b, 0x203a),
    (0x9c, 0x153), (0x9d, 0x9d), (0x9e, 0x17e), (0x9f, 0x178)]

/-- `_invalid_codepoints`: the numbers that stand for nothing. -/
def isInvalidCodepoint (n : Nat) : Bool :=
  (0x1 ≤ n && n ≤ 0x8) || n == 0xb || (0xe ≤ n && n ≤ 0x1f) || (0x7f ≤ n && n ≤ 0x9f) ||
    (0xfdd0 ≤ n && n ≤ 0xfdef) || n % 0x10000 == 0xfffe || n % 0x10000 == 0xffff

/-- What a numeric reference stands for. -/
def numericRef (n : Nat) : List Char :=
  match invalidCharrefs.lookup n with
  | some other => [Char.ofNat other]
  | none =>
    if (0xd800 ≤ n && n ≤ 0xdfff) || n > 0x10ffff then ['\ufffd']
    else if isInvalidCodepoint n then []
    else [Char.ofNat n]

def hexValue (c : Char) : Nat :=
  if isAsciiDigit c then c.toNat - 48 else if 'a' ≤ c && c ≤ 'f' then c.toNat - 87 else c.toNat - 55

/-- `int(digits, base)` of ASCII digits. -/
def numberOf (base : Nat) (digits : List Char) : Nat :=
  digits.foldl (fun value c => base * value + hexValue c) 0

/-- Every reference begins with `&`. -/
theorem first_of_ne {c : Char} (other : c ≠ '&') (cs : List Char) :
    charref.first (c :: cs) = none := by
  have none : (exactly "&").ways ⟨c :: cs, []⟩ = [] := by
    rw [List.eq_nil_iff_forall_not_mem]
    intro v member
    obtain ⟨split, -⟩ := mem_ways_exactly.mp member
    exact other (List.cons.inj split).1
  rw [Regex.first_eq_none]
  show ((exactly "&").ways ⟨c :: cs, []⟩).flatMap _ = []
  rw [none]
  rfl

section Unescape

variable (html5 : List Char → Option (List Char))

/-- The longest known name at the head of `s` that is `x` characters long or shorter, but has two. -/
def longestName (s : List Char) : (x : Nat) → List Char
  | 0 | 1 => '&' :: s
  | x + 2 => match html5 (s.take (x + 2)) with
    | some text => text ++ s.drop (x + 2)
    | none => longestName s (x + 1)

/-- `_replace_charref`. -/
def replaceCharref (s : List Char) : List Char :=
  match s with
  | '#' :: 'x' :: digits | '#' :: 'X' :: digits =>
    numericRef (numberOf 16 (digits.rdropWhile (· == ';')))
  | '#' :: digits => numericRef (numberOf 10 (digits.rdropWhile (· == ';')))
  | _ => match html5 s with
    | some text => text
    | none => longestName html5 s (s.length - 1)

/-- `html.unescape`. -/
def unescape (text : List Char) : List Char :=
  charref.sub (fun found => replaceCharref html5 ((found.group 1).getD [])) text

/-- **References end before a `<`.** -/
theorem unescape_append (before after : List Char) :
    unescape html5 (before ++ '<' :: after) =
      unescape html5 before ++ '<' :: unescape html5 after := by
  have same : charref.SameBefore ('<' :: after) before := fun front c back _ =>
    Regex.first_extend (Regex.ways_barrier (by decide) (by simp [charref, exactly, Regex.Open,
      Regex.all, Regex.word, Regex.some, Regex.opt, Regex.upTo]) ⟨c :: back, []⟩ after)
  have open' : charref.first ('<' :: after) = none := Regex.first_eq_none.mpr rfl
  unfold unescape
  rw [Regex.sub_extend same]
  unfold Regex.sub
  rw [Regex.scan_plain open']
  rfl

/-- A text without `&` is copied. -/
theorem unescape_copy {before : List Char} (clear : '&' ∉ before) (after : List Char) :
    unescape html5 (before ++ after) = before ++ unescape html5 after := by
  refine Regex.sub_append fun front c back split => first_of_ne ?_ _
  rintro rfl
  exact clear (by simp [split])

end Unescape

/-! ### `html.escape` -/

/-- The reference that a character is written as, without its `&`. -/
def escapeName (c : Char) : Option (List Char) :=
  if c = '&' then some "amp;".toList else if c = '<' then some "lt;".toList
  else if c = '>' then some "gt;".toList else if c = '"' then some "quot;".toList
  else if c = '\'' then some "#x27;".toList else none

/-- What a character is written as. -/
def escapeChar (c : Char) : List Char :=
  match escapeName c with
  | some name => '&' :: name
  | none => [c]

/-- `html.escape`. -/
def escape (text : List Char) : List Char := text.flatMap escapeChar

/-- The table knows the names that `html.escape` writes. -/
structure KnowsEscapes (html5 : List Char → Option (List Char)) : Prop where
  amp : html5 "amp;".toList = some ['&']
  lt : html5 "lt;".toList = some ['<']
  gt : html5 "gt;".toList = some ['>']
  quot : html5 "quot;".toList = some ['"']

/-- A named reference is read up to its semicolon. -/
theorem first_named {c : Char} {name : List Char} (letters : ∀ d ∈ c :: name, isNameChar d = true)
    (short : name.length ≤ 31) (rest : List Char) :
    charref.first ('&' :: ((c :: name) ++ [';']) ++ rest) =
      some (⟨'&' :: ((c :: name) ++ [';']), [(1, (c :: name) ++ [';'])]⟩, rest) := by
  obtain ⟨first, later⟩ := List.forall_mem_cons.mp letters
  have noHash : ∀ tail : List Char, (exactly "#").ways ⟨c :: tail, []⟩ = [] := by
    intro tail
    have other : ('#' == c) = false := by
      cases same : '#' == c with
      | false => rfl
      | true =>
        obtain rfl := eq_of_beq same
        exact absurd first (by decide)
    show (if ('#' == c) = true then _ else _ : List (Way Char)).flatMap _ = []
    rw [other]
    rfl
  have split : '&' :: ((c :: name) ++ [';']) ++ rest =
      '&' :: (c :: (name ++ (';' :: rest))) := by simp
  have inner : (Regex.all [.one isNameChar, .upTo isNameChar 31, .opt (exactly ";")]).Leads
      ⟨((c :: name) ++ [';']) ++ rest, []⟩ ⟨rest, []⟩ := by
    have flat : ((c :: name) ++ [';']) ++ rest = c :: (name ++ (';' :: rest)) := by simp
    rw [flat]
    refine .only (if_pos first) ?_
    refine .step (Regex.leads_upTo later short (Or.inr (by rintro d ds ⟨⟩; decide))) ?_
    exact .step (.left rfl) (Regex.leads_nothing _)
  have leads : charref.Leads ⟨'&' :: ((c :: name) ++ [';']) ++ rest, []⟩
      ⟨rest, [(1, (c :: name) ++ [';'])]⟩ := by
    refine @Regex.Leads.only Char (exactly "&") _ _ ⟨((c :: name) ++ [';']) ++ rest, []⟩ _ rfl ?_
    refine .step (.group (.right ?_ (.right ?_ inner))) (Regex.leads_nothing _)
    · show ((exactly "#").ways ⟨c :: _, []⟩).flatMap _ = []
      rw [noHash]
      rfl
    · show ((exactly "#").ways ⟨c :: _, []⟩).flatMap _ = []
      rw [noHash]
      rfl
  exact Regex.first_of_leads leads

/-- So is the numeric one. -/
theorem first_apostrophe (rest : List Char) : charref.first ("&#x27;".toList ++ rest) =
    some (⟨"&#x27;".toList, [(1, "#x27;".toList)]⟩, rest) := by
  have inner : (Regex.all [exactly "#", .one fun c => c == 'x' || c == 'X', .some isHexDigit,
      .opt (exactly ";")]).Leads ⟨"#x27;".toList ++ rest, []⟩ ⟨rest, []⟩ := by
    refine @Regex.Leads.only Char (exactly "#") _ _ ⟨"x27;".toList ++ rest, []⟩ _ rfl ?_
    refine @Regex.Leads.only Char _ _ _ ⟨"27;".toList ++ rest, []⟩ _ rfl ?_
    refine .assoc (@Regex.Leads.only Char _ _ _ ⟨"7".toList ++ (";".toList ++ rest), []⟩ _ rfl ?_)
    refine .many (List.all_eq_true.mp (by decide)) (by rintro d ds ⟨⟩; decide) ?_
    exact .step (.left rfl) (Regex.leads_nothing _)
  have leads : charref.Leads ⟨"&#x27;".toList ++ rest, []⟩ ⟨rest, [(1, "#x27;".toList)]⟩ := by
    refine @Regex.Leads.only Char (exactly "&") _ _ ⟨"#x27;".toList ++ rest, []⟩ _ rfl ?_
    exact .step (.group (.right rfl (.left inner))) (Regex.leads_nothing _)
  exact Regex.first_of_leads leads

/-- **What is written for a character is read as one reference.** -/
theorem first_escape {c : Char} {name : List Char} (named : escapeName c = some name)
    (rest : List Char) :
    charref.first ('&' :: name ++ rest) = some (⟨'&' :: name, [(1, name)]⟩, rest) := by
  unfold escapeName at named
  split_ifs at named
  · obtain rfl := Option.some.inj named
    exact @first_named 'a' "mp".toList (List.all_eq_true.mp (by decide)) (by decide) rest
  · obtain rfl := Option.some.inj named
    exact @first_named 'l' "t".toList (List.all_eq_true.mp (by decide)) (by decide) rest
  · obtain rfl := Option.some.inj named
    exact @first_named 'g' "t".toList (List.all_eq_true.mp (by decide)) (by decide) rest
  · obtain rfl := Option.some.inj named
    exact @first_named 'q' "uot".toList (List.all_eq_true.mp (by decide)) (by decide) rest
  · obtain rfl := Option.some.inj named
    exact first_apostrophe rest

/-- And stands for the character. -/
theorem replaceCharref_escape {html5 : List Char → Option (List Char)} (knows : KnowsEscapes html5)
    {c : Char} {name : List Char} (named : escapeName c = some name) :
    replaceCharref html5 name = [c] := by
  unfold escapeName at named
  split_ifs at named with amp lt gt quot apostrophe
  · obtain rfl := Option.some.inj named
    show (match html5 "amp;".toList with | some text => text | none => _) = _
    rw [knows.amp, amp]
  · obtain rfl := Option.some.inj named
    show (match html5 "lt;".toList with | some text => text | none => _) = _
    rw [knows.lt, lt]
  · obtain rfl := Option.some.inj named
    show (match html5 "gt;".toList with | some text => text | none => _) = _
    rw [knows.gt, gt]
  · obtain rfl := Option.some.inj named
    show (match html5 "quot;".toList with | some text => text | none => _) = _
    rw [knows.quot, quot]
  · obtain rfl := Option.some.inj named
    rw [apostrophe]
    rfl

/-- A character that is written as it stands is no `&`. -/
theorem ne_of_unescaped {c : Char} (unnamed : escapeName c = none) : c ≠ '&' := by
  rintro rfl
  exact absurd unnamed (by decide)

theorem escape_cons (c : Char) (text : List Char) : escape (c :: text) = escapeChar c ++ escape text :=
  List.flatMap_cons

/-- **Unescaping undoes escaping**, whatever follows. -/
theorem unescape_escape {html5 : List Char → Option (List Char)} (knows : KnowsEscapes html5)
    (text rest : List Char) :
    unescape html5 (escape text ++ rest) = text ++ unescape html5 rest := by
  induction text with
  | nil => rfl
  | cons c text ih =>
    rw [escape_cons, List.append_assoc]
    unfold escapeChar
    cases named : escapeName c with
    | some name =>
      unfold unescape at ih ⊢
      rw [Regex.sub_hit (first_escape named _) (List.cons_ne_nil _ _), ih]
      show replaceCharref html5 name ++ _ = _
      rw [replaceCharref_escape knows named, List.singleton_append, List.cons_append]
    | none =>
      unfold unescape at ih ⊢
      show charref.sub _ (c :: (escape text ++ rest)) = _
      rw [Regex.sub_plain (first_of_ne (ne_of_unescaped named) _), ih, List.cons_append]

/-- The references of an escaped text are those of its characters. -/
theorem mem_findAll_escape {text rest : List Char} {found : Regex.Match Char}
    (member : found ∈ charref.findAll (escape text ++ rest)) :
    (∃ c name, escapeName c = some name ∧ found = ⟨'&' :: name, [(1, name)]⟩) ∨
      found ∈ charref.findAll rest := by
  induction text with
  | nil => exact Or.inr member
  | cons c text ih =>
    rw [escape_cons, List.append_assoc] at member
    unfold escapeChar at member
    cases named : escapeName c with
    | some name =>
      rw [named] at member
      simp only at member
      rw [Regex.findAll_hit (first_escape named _) (List.cons_ne_nil _ _)] at member
      rcases List.mem_cons.mp member with rfl | later
      · exact Or.inl ⟨c, name, named, rfl⟩
      · exact ih later
    | none =>
      rw [named] at member
      have same := @Regex.findAll_append Char charref [c] (escape text ++ rest) (by
        intro before d after split
        cases before with
        | nil =>
          obtain ⟨rfl, rfl⟩ := List.cons.inj split
          exact first_of_ne (ne_of_unescaped named) _
        | cons e before =>
          have empty := (List.cons.inj split).2
          exact absurd empty.symm (by simp))
      rw [same] at member
      exact ih member

/-- A text without `&` has no references. -/
theorem findAll_copy {before : List Char} (clear : '&' ∉ before) (after : List Char) :
    charref.findAll (before ++ after) = charref.findAll after := by
  refine Regex.findAll_append fun front c back split => first_of_ne ?_ _
  rintro rfl
  exact clear (by simp [split])

end Freshet.Lib
