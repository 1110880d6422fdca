/-
**Reading JSON as `json.loads` does.**

A value that is read has one of three things to go wrong: the text is no JSON, an integer has too many
digits, or values nest deeper than the interpreter's stack. `room` says how deep they may nest.

* `scanString`, `scanNumber`, `scanValue`: one function for each of the scanner's own;
* `scanValue_shrinks`: what is read is no longer ahead, so the loops over items and members, which get
  a number of turns as an argument, have turns enough (`scanItems_enough`, `scanMembers_enough`).
-/

import Mathlib.Algebra.Order.Ring.Rat
import Mathlib.Algebra.Order.Field.Rat
import Mathlib.Data.List.TakeWhile

namespace Freshet.Lib

/-- The code points of a string. An escape may name half of a surrogate pair. -/
abbrev Text := List ℕ

/-- The code points of a text. -/
def codePoints (text : List Char) : Text := text.map Char.toNat

/-- A value. `float` is written in decimal: a mantissa and a power of ten. -/
inductive Json where
  | null
  | bool (value : Bool)
  | int (value : ℤ)
  | float (mantissa exponent : ℤ)
  | infinite (negative : Bool)
  | nan
  | string (text : Text)
  | array (items : List Json)
  | object (members : List (Text × Json))

inductive LoadError where
  | decode
  | digits
  | recursion
deriving DecidableEq

namespace Json

/-- `bool(value)`. A float is nought when it rounds to it: up to half of the least positive double. -/
def truthy : Json → Bool
  | null => false
  | bool value => value
  | int value => value ≠ 0
  | float mantissa exponent => decide ((1 : ℚ) / 2 ^ 1075 < |mantissa * (10 : ℚ) ^ exponent|)
  | infinite _ => true
  | nan => true
  | string text => !text.isEmpty
  | array items => !items.isEmpty
  | object members => !members.isEmpty

/-- What is found under a key; the last member of the key counts. -/
def member (members : List (Text × Json)) (key : Text) : Option Json :=
  (members.reverse.find? fun item => decide (item.1 = key)).map Prod.snd

/-! ### Strings -/

/-- `[0-9a-fA-F]`. -/
def hexDigit (c : Char) : Option ℕ :=
  if '0' ≤ c ∧ c ≤ '9' then some (c.toNat - '0'.toNat)
  else if 'a' ≤ c ∧ c ≤ 'f' then some (c.toNat - 'a'.toNat + 10)
  else if 'A' ≤ c ∧ c ≤ 'F' then some (c.toNat - 'A'.toNat + 10)
  else none

/-- Four hexadecimal digits. -/
def readHex (a b c d : Char) : Option ℕ := do
  let a ← hexDigit a
  let b ← hexDigit b
  let c ← hexDigit c
  let d ← hexDigit d
  pure (a * 0x1000 + b * 0x100 + c * 0x10 + d)

/-- What stands behind a backslash, but for `u`. -/
def simpleEscape : Char → Option ℕ
  | '"' => some 0x22
  | '\\' => some 0x5c
  | '/' => some 0x2f
  | 'b' => some 0x8
  | 'f' => some 0xc
  | 'n' => some 0xa
  | 'r' => some 0xd
  | 't' => some 0x9
  | _ => none

abbrev Scan (α : Type) := Except LoadError (α × List Char)

/-- One more code point in front of a string that is read. -/
def prepend (unit : ℕ) : Scan Text → Scan Text
  | .ok (text, rest) => .ok (unit :: text, rest)
  | .error error => .error error

/-- Up to the closing quote, each escape on its own. -/
def scanUnits : List Char → Scan Text
  | [] => .error .decode
  | '"' :: rest => .ok ([], rest)
  | '\\' :: 'u' :: a :: b :: c :: d :: rest =>
    match readHex a b c d with
    | none => .error .decode
    | some unit => prepend unit (scanUnits rest)
  | '\\' :: c :: rest =>
    match simpleEscape c with
    | none => .error .decode
    | some unit => prepend unit (scanUnits rest)
  | c :: rest => if c.toNat ≤ 0x1f then .error .decode else prepend c.toNat (scanUnits rest)

def isHigh (unit : ℕ) : Bool := 0xd800 ≤ unit && unit ≤ 0xdbff

def isLow (unit : ℕ) : Bool := 0xdc00 ≤ unit && unit ≤ 0xdfff

/-- A high half and a low half that follow one another are one code point. -/
def joinSurrogates : Text → Text
  | high :: low :: rest =>
    if isHigh high && isLow low then
      (0x10000 + (high - 0xd800) * 0x400 + (low - 0xdc00)) :: joinSurrogates rest
    else high :: joinSurrogates (low :: rest)
  | text => text

/-- `scanstring`, behind the opening quote. -/
def scanString (text : List Char) : Scan Text :=
  match scanUnits text with
  | .ok (units, rest) => .ok (joinSurrogates units, rest)
  | .error error => .error error

/-! ### Numbers -/

def isDigit (c : Char) : Bool := '0' ≤ c && c ≤ '9'

/-- `0|[1-9][0-9]*`. -/
def scanInteger : List Char → Option (List Char × List Char)
  | '0' :: rest => some (['0'], rest)
  | c :: rest =>
    if isDigit c then some (c :: rest.takeWhile isDigit, rest.dropWhile isDigit) else none
  | [] => none

/-- `(\.[0-9]+)?`. -/
def scanFraction : List Char → Option (List Char) × List Char
  | '.' :: c :: rest =>
    if isDigit c then (some (c :: rest.takeWhile isDigit), rest.dropWhile isDigit)
    else (none, '.' :: c :: rest)
  | text => (none, text)

/-- The number that digits name. -/
def digitsValue (digits : List Char) : ℕ :=
  digits.foldl (fun value c => value * 10 + (c.toNat - '0'.toNat)) 0

/-- A number with a sign. -/
def signed (negative : Bool) (value : ℕ) : ℤ := if negative then -value else value

/-- The sign in front of an exponent. -/
def exponentSign : List Char → Bool × List Char
  | '+' :: rest => (false, rest)
  | '-' :: rest => (true, rest)
  | text => (false, text)

/-- `([eE][-+]?[0-9]+)?`. -/
def scanExponent : List Char → Option ℤ × List Char
  | c :: rest =>
    let digits := (exponentSign rest).2
    if (c = 'e' ∨ c = 'E') ∧ digits.head?.any isDigit then
      (some (signed (exponentSign rest).1 (digitsValue (digits.takeWhile isDigit))),
        digits.dropWhile isDigit)
    else (none, c :: rest)
  | [] => (none, [])

/-- How many digits `int` takes. -/
def maxDigits : ℕ := 4300

/-- The sign in front of a number. -/
def numberSign : List Char → Bool × List Char
  | '-' :: rest => (true, rest)
  | text => (false, text)

/-- `_match_number`. -/
def scanNumber (text : List Char) : Scan Json :=
  let (negative, text) := numberSign text
  match scanInteger text with
  | none => .error .decode
  | some (whole, rest) =>
    match scanFraction rest with
    | (fraction, rest) =>
      match fraction, scanExponent rest with
      | none, (none, rest) =>
        if maxDigits < whole.length then .error .digits
        else .ok (int (signed negative (digitsValue whole)), rest)
      | fraction, (exponent, rest) =>
        let behind := fraction.getD []
        .ok (float (signed negative (digitsValue (whole ++ behind)))
          (exponent.getD 0 - behind.length), rest)

/-! ### Values -/

def isJsonSpace (c : Char) : Bool := c == ' ' || c == '\t' || c == '\n' || c == '\r'

def skipSpace (text : List Char) : List Char := text.dropWhile isJsonSpace

/-- What is read of a fixed word. -/
def scanWord (text : List Char) : Option (Json × List Char) :=
  [("null", null), ("true", bool true), ("false", bool false), ("NaN", nan),
    ("Infinity", infinite false), ("-Infinity", infinite true)].findSome? fun word =>
      if word.1.toList.isPrefixOf text then some (word.2, text.drop word.1.length) else none

section Loops

variable (value : List Char → Scan Json)

/-- The items of an array, one at least, and its bracket. -/
def scanItems : ℕ → List Char → Scan (List Json)
  | 0, _ => .error .decode
  | n + 1, text =>
    match value text with
    | .error error => .error error
    | .ok (item, rest) =>
      match skipSpace rest with
      | ']' :: rest => .ok ([item], rest)
      | ',' :: rest =>
        match scanItems n (skipSpace rest) with
        | .error error => .error error
        | .ok (items, rest) => .ok (item :: items, rest)
      | _ => .error .decode

/-- A key, its colon and its value. -/
def scanMember : List Char → Scan (Text × Json)
  | '"' :: text =>
    match scanString text with
    | .error error => .error error
    | .ok (key, rest) =>
      match skipSpace rest with
      | ':' :: rest =>
        match value (skipSpace rest) with
        | .error error => .error error
        | .ok (item, rest) => .ok ((key, item), rest)
      | _ => .error .decode
  | _ => .error .decode

/-- The members of an object, one at least, and its brace. -/
def scanMembers : ℕ → List Char → Scan (List (Text × Json))
  | 0, _ => .error .decode
  | n + 1, text =>
    match scanMember value text with
    | .error error => .error error
    | .ok (item, rest) =>
      match skipSpace rest with
      | '}' :: rest => .ok ([item], rest)
      | ',' :: rest =>
        match scanMembers n (skipSpace rest) with
        | .error error => .error error
        | .ok (items, rest) => .ok (item :: items, rest)
      | _ => .error .decode

/-- `_parse_array`, behind the bracket. -/
def scanArray (text : List Char) : Scan Json :=
  match skipSpace text with
  | ']' :: rest => .ok (array [], rest)
  | text =>
    match scanItems value (text.length + 1) text with
    | .error error => .error error
    | .ok (items, rest) => .ok (array items, rest)

/-- `_parse_object`, behind the brace. -/
def scanObject (text : List Char) : Scan Json :=
  match skipSpace text with
  | '}' :: rest => .ok (object [], rest)
  | text =>
    match scanMembers value (text.length + 1) text with
    | .error error => .error error
    | .ok (items, rest) => .ok (object items, rest)

end Loops

/-- A string, behind the opening quote. -/
def scanText (text : List Char) : Scan Json :=
  match scanString text with
  | .error error => .error error
  | .ok (text, rest) => .ok (string text, rest)

/-- A fixed word or a number. -/
def scanPlain (text : List Char) : Scan Json :=
  match scanWord text with
  | some found => .ok found
  | none => scanNumber text

/-- `scan_once`. -/
def scanValue : ℕ → List Char → Scan Json
  | _, '"' :: rest => scanText rest
  | 0, '{' :: _ => .error .recursion
  | 0, '[' :: _ => .error .recursion
  | room + 1, '{' :: rest => scanObject (scanValue room) rest
  | room + 1, '[' :: rest => scanArray (scanValue room) rest
  | _, text => scanPlain text

/-- **`json.loads`.** -/
def loads (room : ℕ) (raw : List Char) : Except LoadError Json :=
  if raw.head? = some '\uFEFF' then .error .decode
  else match scanValue room (skipSpace raw) with
    | .error error => .error error
    | .ok (value, rest) => if skipSpace rest = [] then .ok value else .error .decode

/-! ### What is read is no longer ahead -/

/-- A scanner leaves less than it was given. -/
def Shrinks {α : Type} (scan : List Char → Scan α) : Prop :=
  ∀ text value rest, scan text = .ok (value, rest) → rest.length < text.length

theorem prepend_eq_ok {unit : ℕ} {scanned : Scan Text} {text : Text} {rest : List Char} :
    prepend unit scanned = .ok (text, rest) ↔
      ∃ later, scanned = .ok (later, rest) ∧ text = unit :: later := by
  cases scanned with
  | error error =>
    constructor
    · intro same
      cases same
    · rintro ⟨later, same, -⟩
      cases same
  | ok found =>
    obtain ⟨later, rest'⟩ := found
    constructor
    · intro same
      obtain ⟨rfl, rfl⟩ := Prod.mk.inj (Except.ok.inj same)
      exact ⟨later, rfl, rfl⟩
    · rintro ⟨later', same, rfl⟩
      obtain ⟨rfl, rfl⟩ := Prod.mk.inj (Except.ok.inj same)
      rfl

theorem scanUnits_shrinks : Shrinks scanUnits := by
  intro text
  fun_induction scanUnits text with
  | case1 => exact fun _ _ found => by cases found
  | case2 rest =>
    intro value rest' found
    obtain ⟨-, rfl⟩ := Prod.mk.inj (Except.ok.inj found)
    exact Nat.lt_succ_self _
  | case3 a b c d rest none' => exact fun _ _ found => by cases found
  | case4 a b c d rest unit read ih =>
    intro value rest' found
    obtain ⟨later, found, -⟩ := prepend_eq_ok.mp found
    have shorter := ih later rest' found
    simp only [List.length_cons]
    omega
  | case5 c rest long none' => exact fun _ _ found => by cases found
  | case6 c rest long unit read ih =>
    intro value rest' found
    obtain ⟨later, found, -⟩ := prepend_eq_ok.mp found
    have shorter := ih later rest' found
    simp only [List.length_cons]
    omega
  | case7 c rest plain escaped long control => exact fun _ _ found => by cases found
  | case8 c rest plain escaped long control ih =>
    intro value rest' found
    obtain ⟨later, found, -⟩ := prepend_eq_ok.mp found
    exact Nat.lt_succ_of_lt (ih later rest' found)

theorem scanString_shrinks : Shrinks scanString := by
  intro text value rest found
  unfold scanString at found
  split at found
  · rename_i units rest' scanned
    obtain ⟨-, rfl⟩ := Prod.mk.inj (Except.ok.inj found)
    exact scanUnits_shrinks text units _ scanned
  · cases found

theorem length_dropWhile_le (test : Char → Bool) (text : List Char) :
    (text.dropWhile test).length ≤ text.length := (List.dropWhile_suffix test).length_le

theorem scanInteger_shrinks {text whole rest : List Char}
    (found : scanInteger text = some (whole, rest)) : rest.length < text.length := by
  unfold scanInteger at found
  split at found
  · obtain ⟨-, rfl⟩ := Prod.mk.inj (Option.some.inj found)
    exact Nat.lt_succ_self _
  · split_ifs at found
    obtain ⟨-, rfl⟩ := Prod.mk.inj (Option.some.inj found)
    exact Nat.lt_succ_of_le (length_dropWhile_le _ _)
  · cases found

theorem scanFraction_le (text : List Char) : (scanFraction text).2.length ≤ text.length := by
  unfold scanFraction
  split
  · split_ifs
    · exact le_trans (length_dropWhile_le _ _) (by simp; omega)
    · exact le_refl _
  · exact le_refl _

theorem exponentSign_le (text : List Char) : (exponentSign text).2.length ≤ text.length := by
  unfold exponentSign
  split
  · exact Nat.le_succ _
  · exact Nat.le_succ _
  · exact le_refl _

theorem scanExponent_le (text : List Char) : (scanExponent text).2.length ≤ text.length := by
  cases text with
  | nil => exact le_refl _
  | cons c rest =>
    unfold scanExponent
    dsimp only
    split_ifs
    · exact le_trans (length_dropWhile_le _ _) (le_trans (exponentSign_le rest) (Nat.le_succ _))
    · exact le_refl _

theorem numberSign_le (text : List Char) : (numberSign text).2.length ≤ text.length := by
  unfold numberSign
  split
  · exact Nat.le_succ _
  · exact le_refl _

theorem scanNumber_shrinks : Shrinks scanNumber := by
  intro text value rest found
  have sign := numberSign_le text
  unfold scanNumber at found
  dsimp only at found
  split at found
  · cases found
  · rename_i whole rest' scanned
    have integer := scanInteger_shrinks scanned
    have fraction := scanFraction_le rest'
    have exponent := scanExponent_le (scanFraction rest').2
    split at found
    · rename_i none' rest'' exponential
      split_ifs at found
      obtain ⟨-, rfl⟩ := Prod.mk.inj (Except.ok.inj found)
      rw [exponential] at exponent
      dsimp only at exponent
      omega
    · rename_i rest'' exponential otherwise
      obtain ⟨-, rfl⟩ := Prod.mk.inj (Except.ok.inj found)
      rw [exponential] at exponent
      dsimp only at exponent
      omega

theorem scanWord_shrinks {text : List Char} {value : Json} {rest : List Char}
    (found : scanWord text = some (value, rest)) : rest.length < text.length := by
  unfold scanWord at found
  obtain ⟨word, among, taken⟩ := List.exists_of_findSome?_eq_some found
  split_ifs at taken with here
  obtain ⟨-, rfl⟩ := Prod.mk.inj (Option.some.inj taken)
  have long : 0 < word.1.length := by
    revert among
    simp only [List.mem_cons, List.not_mem_nil, or_false]
    rintro (rfl | rfl | rfl | rfl | rfl | rfl) <;> decide
  have fits := (List.isPrefixOf_iff_prefix.mp here).length_le
  rw [String.length_toList] at fits
  rw [List.length_drop]
  omega

theorem skipSpace_le (text : List Char) : (skipSpace text).length ≤ text.length :=
  length_dropWhile_le _ _

section Loops

variable {value : List Char → Scan Json}

theorem scanMember_shrinks (shrinks : Shrinks value) : Shrinks (scanMember value) := by
  intro text member rest found
  unfold scanMember at found
  split at found
  · rename_i text
    split at found
    · cases found
    · rename_i key behind scanned
      have string := scanString_shrinks _ _ _ scanned
      have space := skipSpace_le behind
      split at found
      · rename_i ahead colon
        have space' := skipSpace_le ahead
        rw [colon, List.length_cons] at space
        split at found
        · cases found
        · rename_i item rest' read
          obtain ⟨-, rfl⟩ := Prod.mk.inj (Except.ok.inj found)
          have item := shrinks _ _ _ read
          rw [List.length_cons]
          omega
      · cases found
  · cases found

theorem scanItems_shrinks (shrinks : Shrinks value) (n : ℕ) : Shrinks (scanItems value n) := by
  induction n with
  | zero =>
    intro text items rest found
    cases found
  | succ n ih =>
    intro text items rest found
    unfold scanItems at found
    split at found
    · cases found
    · rename_i item behind read
      have item := shrinks _ _ _ read
      have space := skipSpace_le behind
      split at found
      · rename_i ahead bracket
        obtain ⟨-, rfl⟩ := Prod.mk.inj (Except.ok.inj found)
        rw [bracket, List.length_cons] at space
        omega
      · rename_i ahead comma
        have space' := skipSpace_le ahead
        rw [comma, List.length_cons] at space
        split at found
        · cases found
        · rename_i later rest' scanned
          obtain ⟨-, rfl⟩ := Prod.mk.inj (Except.ok.inj found)
          have later := ih _ _ _ scanned
          omega
      · cases found

theorem scanMembers_shrinks (shrinks : Shrinks value) (n : ℕ) :
    Shrinks (scanMembers value n) := by
  induction n with
  | zero =>
    intro text items rest found
    cases found
  | succ n ih =>
    intro text items rest found
    unfold scanMembers at found
    split at found
    · cases found
    · rename_i item behind read
      have item := scanMember_shrinks shrinks _ _ _ read
      have space := skipSpace_le behind
      split at found
      · rename_i ahead brace
        obtain ⟨-, rfl⟩ := Prod.mk.inj (Except.ok.inj found)
        rw [brace, List.length_cons] at space
        omega
      · rename_i ahead comma
        have space' := skipSpace_le ahead
        rw [comma, List.length_cons] at space
        split at found
        · cases found
        · rename_i later rest' scanned
          obtain ⟨-, rfl⟩ := Prod.mk.inj (Except.ok.inj found)
          have later := ih _ _ _ scanned
          omega
      · cases found

/-- A loop over items that has more turns than there are characters has turns enough. -/
theorem scanItems_enough (shrinks : Shrinks value) {n m : ℕ} {text : List Char}
    (enough : text.length < n) (enough' : text.length < m) :
    scanItems value n text = scanItems value m text := by
  induction n generalizing m text with
  | zero => omega
  | succ n ih =>
    obtain ⟨m, rfl⟩ : ∃ m', m = m' + 1 := ⟨m - 1, by omega⟩
    unfold scanItems
    cases read : value text with
    | error error => rfl
    | ok found =>
      obtain ⟨item, rest⟩ := found
      have shorter := shrinks _ _ _ read
      have space := skipSpace_le rest
      dsimp only
      split
      · rfl
      · rename_i ahead comma
        have space' := skipSpace_le ahead
        rw [comma, List.length_cons] at space
        rw [ih (m := m) (by omega) (by omega)]
      · rfl

/-- A loop over members that has more turns than there are characters has turns enough. -/
theorem scanMembers_enough (shrinks : Shrinks value) {n m : ℕ} {text : List Char}
    (enough : text.length < n) (enough' : text.length < m) :
    scanMembers value n text = scanMembers value m text := by
  induction n generalizing m text with
  | zero => omega
  | succ n ih =>
    obtain ⟨m, rfl⟩ : ∃ m', m = m' + 1 := ⟨m - 1, by omega⟩
    unfold scanMembers
    cases read : scanMember value text with
    | error error => rfl
    | ok found =>
      obtain ⟨item, rest⟩ := found
      have shorter := scanMember_shrinks shrinks _ _ _ read
      have space := skipSpace_le rest
      dsimp only
      split
      · rfl
      · rename_i ahead comma
        have space' := skipSpace_le ahead
        rw [comma, List.length_cons] at space
        rw [ih (m := m) (by omega) (by omega)]
      · rfl

theorem scanArray_le (shrinks : Shrinks value) {text : List Char} {array : Json}
    {rest : List Char} (found : scanArray value text = .ok (array, rest)) :
    rest.length ≤ text.length := by
  have space := skipSpace_le text
  unfold scanArray at found
  split at found
  · rename_i ahead bracket
    obtain ⟨-, rfl⟩ := Prod.mk.inj (Except.ok.inj found)
    rw [bracket, List.length_cons] at space
    omega
  · split at found
    · cases found
    · rename_i items ahead scanned
      obtain ⟨-, rfl⟩ := Prod.mk.inj (Except.ok.inj found)
      have shorter := scanItems_shrinks shrinks _ _ _ _ scanned
      omega

theorem scanObject_le (shrinks : Shrinks value) {text : List Char} {object : Json}
    {rest : List Char} (found : scanObject value text = .ok (object, rest)) :
    rest.length ≤ text.length := by
  have space := skipSpace_le text
  unfold scanObject at found
  split at found
  · rename_i ahead brace
    obtain ⟨-, rfl⟩ := Prod.mk.inj (Except.ok.inj found)
    rw [brace, List.length_cons] at space
    omega
  · split at found
    · cases found
    · rename_i items ahead scanned
      obtain ⟨-, rfl⟩ := Prod.mk.inj (Except.ok.inj found)
      have shorter := scanMembers_shrinks shrinks _ _ _ _ scanned
      omega

end Loops

theorem scanText_shrinks : Shrinks scanText := by
  intro text value rest found
  unfold scanText at found
  split at found
  · cases found
  · rename_i units ahead scanned
    obtain ⟨-, rfl⟩ := Prod.mk.inj (Except.ok.inj found)
    exact scanString_shrinks _ _ _ scanned

theorem scanPlain_shrinks : Shrinks scanPlain := by
  intro text value rest found
  unfold scanPlain at found
  split at found
  · rename_i word scanned
    obtain rfl := Except.ok.inj found
    exact scanWord_shrinks scanned
  · exact scanNumber_shrinks _ _ _ found

/-- Of what is read, a character at least is no longer ahead. -/
theorem scanValue_shrinks (room : ℕ) : Shrinks (scanValue room) := by
  induction room using Nat.strongRecOn with
  | ind room ih =>
    intro text value rest found
    unfold scanValue at found
    split at found
    · exact Nat.lt_succ_of_lt (scanText_shrinks _ _ _ found)
    · cases found
    · cases found
    · rename_i room ahead
      exact Nat.lt_succ_of_le (scanObject_le (ih room (Nat.lt_succ_self room)) found)
    · rename_i room ahead
      exact Nat.lt_succ_of_le (scanArray_le (ih room (Nat.lt_succ_self room)) found)
    · exact scanPlain_shrinks _ _ _ found

/-! ### What is read, from what its parts are read as -/

section Loops

variable {value : List Char → Scan Json}

theorem scanMember_ok {text behind ahead rest : List Char} {key : Text} {item : Json}
    (named : scanString text = .ok (key, behind)) (colon : skipSpace behind = ':' :: ahead)
    (read : value (skipSpace ahead) = .ok (item, rest)) :
    scanMember value ('"' :: text) = .ok ((key, item), rest) := by
  simp only [scanMember, named, colon, read]

theorem scanMembers_last {n : ℕ} {text behind rest : List Char} {item : Text × Json}
    (read : scanMember value text = .ok (item, behind)) (brace : skipSpace behind = '}' :: rest) :
    scanMembers value (n + 1) text = .ok ([item], rest) := by
  simp only [scanMembers, read, brace]

theorem scanMembers_next {n : ℕ} {text behind ahead rest : List Char} {item : Text × Json}
    {items : List (Text × Json)} (read : scanMember value text = .ok (item, behind))
    (comma : skipSpace behind = ',' :: ahead)
    (later : scanMembers value n (skipSpace ahead) = .ok (items, rest)) :
    scanMembers value (n + 1) text = .ok (item :: items, rest) := by
  simp only [scanMembers, read, comma, later]

theorem scanObject_ok {text ahead rest : List Char} {items : List (Text × Json)}
    (space : skipSpace text = '"' :: ahead)
    (read : scanMembers value (('"' :: ahead).length + 1) ('"' :: ahead) = .ok (items, rest)) :
    scanObject value text = .ok (object items, rest) := by
  rw [scanObject, space]
  split
  · rename_i rest' brace
    cases brace
  · rw [read]

end Loops

end Json

end Freshet.Lib
