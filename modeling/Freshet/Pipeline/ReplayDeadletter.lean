/-
**Giving dead letters back.**

`replay_record` reads an envelope and produces the payload to the topic it came from.

* `replayRecord_buildDeadletter`: an envelope that the pipeline wrote gives its payload back, for
  what `json.dumps` writes of a text, `json.loads` reads (`scanString_jsonString`);
* `replayRecord_restores`: any other record is quarantined or given back as it should, except for a
  JSON value that is no object, an object whose fields are set and are not both strings, and what
  `json.loads` refuses with another error than its own.
-/

import Freshet.Lib.Json
import Freshet.Pipeline.Deadletter
import Mathlib.Tactic.IntervalCases

namespace Freshet.Pipeline

open Lib Lib.Json

def unusableTopic : String := "deadletter.unusable"

/-- What ends the replay. -/
inductive ReplayError where
  | attribute
  | type
  | digits
  | recursion
deriving DecidableEq

/-- A topic and a value. -/
abbrev Produced := Text × Text

/-- The text of a literal. -/
def literal (text : String) : Text := codePoints text.toList

/-- `producer.produce`. -/
def produce : Json → Json → Except ReplayError Produced
  | .string topic, .string payload => .ok (topic, payload)
  | _, _ => .error .type

/-- `record.get(key)`. -/
def field (record : List (Text × Json)) (key : String) : Json :=
  (member record (literal key)).getD .null

def isNone : Json → Bool
  | .null => true
  | _ => false

/-- A record that cannot be routed. -/
def quarantine (raw : List Char) : List Produced × Except ReplayError Json :=
  ([(literal unusableTopic, codePoints raw)], .ok .null)

/-- `replay_record`: what is produced, and the topic or the error. -/
def replayRecord (room : ℕ) (raw : List Char) : List Produced × Except ReplayError Json :=
  match loads room raw with
  | .error .decode => quarantine raw
  | .error .digits => ([], .error .digits)
  | .error .recursion => ([], .error .recursion)
  | .ok (.object record) =>
    let topic := field record "source_topic"
    let payload := field record "payload"
    if !topic.truthy || isNone payload then quarantine raw
    else match produce topic payload with
      | .ok message => ([message], .ok topic)
      | .error error => ([], .error error)
  | .ok _ => ([], .error .attribute)

/-! ### Reading back what was written -/

/-- The escapes that stand for a character. -/
def units (c : Char) : Text :=
  if c.toNat < 0x10000 then [c.toNat]
  else [0xd800 + (c.toNat - 0x10000) / 0x400, 0xdc00 + (c.toNat - 0x10000) % 0x400]

theorem hexDigit_digitChar {d : ℕ} (small : d < 16) : hexDigit d.digitChar = some d := by
  interval_cases d <;> rfl

theorem hex4_eq {n : ℕ} (small : n < 0x10000) :
    hex4 n = [(n / 0x1000).digitChar, (n / 0x100 % 16).digitChar, (n / 0x10 % 16).digitChar,
      (n % 16).digitChar] := by
  have step (m : ℕ) (large : 16 ≤ m) : Nat.toDigits 16 m =
      Nat.toDigits 16 (m / 16) ++ [(m % 16).digitChar] := Nat.toDigits_of_base_le (by decide) large
  have last (m : ℕ) (little : m < 16) : Nat.toDigits 16 m = [m.digitChar] :=
    Nat.toDigits_of_lt_base little
  unfold hex4
  rcases Nat.lt_or_ge n 0x10 with one | two
  · rw [last n one, show n / 0x1000 = 0 by omega, show n / 0x100 % 16 = 0 by omega,
      show n / 0x10 % 16 = 0 by omega, show n % 16 = n by omega]
    rfl
  rcases Nat.lt_or_ge n 0x100 with two' | three
  · rw [step n two, last (n / 16) (by omega), show n / 0x1000 = 0 by omega,
      show n / 0x100 % 16 = 0 by omega, show n / 0x10 % 16 = n / 16 by omega]
    rfl
  rcases Nat.lt_or_ge n 0x1000 with three' | four
  · rw [step n two, step (n / 16) (by omega), last (n / 16 / 16) (by omega),
      show n / 0x1000 = 0 by omega, show n / 0x100 % 16 = n / 16 / 16 by omega]
    rfl
  · rw [step n two, step (n / 16) (by omega), step (n / 16 / 16) (by omega),
      last (n / 16 / 16 / 16) (by omega), show n / 0x1000 = n / 16 / 16 / 16 by omega,
      show n / 0x100 % 16 = n / 16 / 16 % 16 by omega]
    rfl

theorem readHex_digits {n : ℕ} (small : n < 0x10000) :
    readHex (n / 0x1000).digitChar (n / 0x100 % 16).digitChar (n / 0x10 % 16).digitChar
      (n % 16).digitChar = some n := by
  unfold readHex
  rw [hexDigit_digitChar (by omega), hexDigit_digitChar (by omega), hexDigit_digitChar (by omega),
    hexDigit_digitChar (by omega)]
  simp only [Option.bind_eq_bind, Option.bind_some, Option.pure_def, Option.some.injEq]
  omega

theorem scanUnits_hex4 {n : ℕ} (small : n < 0x10000) (rest : List Char) :
    scanUnits ('\\' :: 'u' :: hex4 n ++ rest) = prepend n (scanUnits rest) := by
  rw [hex4_eq small]
  simp only [List.cons_append, List.nil_append]
  rw [scanUnits, readHex_digits small]

theorem toNat_valid (c : Char) : c.toNat < 0xd800 ∨ 0xdfff < c.toNat ∧ c.toNat < 0x110000 :=
  c.valid

theorem scanUnits_plain {c : Char} (quote : c ≠ '"') (backslash : c ≠ '\\')
    (printable : 0x1f < c.toNat) (rest : List Char) :
    scanUnits (c :: rest) = prepend c.toNat (scanUnits rest) := by
  rw [scanUnits, if_neg (by omega)]
  · exact quote
  · rintro _ _ _ _ _ rfl
    exact fun _ => backslash rfl
  · rintro _ _ rfl
    exact fun _ => backslash rfl

theorem units_basic {c : Char} (basic : c.toNat < 0x10000) : units c = [c.toNat] := if_pos basic

/-- A character that is written is read as the halves that stand for it. -/
theorem scanUnits_jsonChar (c : Char) (rest : List Char) :
    scanUnits (jsonChar c ++ rest) = (units c).foldr prepend (scanUnits rest) := by
  unfold jsonChar
  split_ifs with quote backslash newline feed tab page back printable basic
  · rw [quote]
    rfl
  · rw [backslash]
    rfl
  · rw [newline]
    rfl
  · rw [feed]
    rfl
  · rw [tab]
    rfl
  · rw [units_basic (by omega), page]
    rfl
  · rw [units_basic (by omega), back]
    rfl
  · rw [units_basic (by omega)]
    exact scanUnits_plain quote backslash (by omega) rest
  · rw [units_basic basic]
    exact scanUnits_hex4 basic rest
  · have valid := toNat_valid c
    rw [units, if_neg basic]
    dsimp only
    rw [List.append_assoc, scanUnits_hex4 (by omega), scanUnits_hex4 (by omega)]
    rfl

theorem scanUnits_flatMap (text rest : List Char) :
    scanUnits (text.flatMap jsonChar ++ '"' :: rest) = .ok (text.flatMap units, rest) := by
  induction text with
  | nil => rfl
  | cons c text ih =>
    rw [List.flatMap_cons, List.append_assoc, scanUnits_jsonChar, ih, List.flatMap_cons]
    generalize text.flatMap units = later
    induction units c with
    | nil => rfl
    | cons unit before ih' => rw [List.foldr_cons, ih']; rfl

theorem joinSurrogates_cons {unit : ℕ} (whole : isHigh unit = false) (text : Text) :
    joinSurrogates (unit :: text) = unit :: joinSurrogates text := by
  cases text with
  | nil => rfl
  | cons low text => rw [joinSurrogates, whole, Bool.false_and, if_neg Bool.false_ne_true]

theorem isHigh_toNat (c : Char) : isHigh c.toNat = false := by
  have valid := toNat_valid c
  simp only [isHigh, Bool.and_eq_false_iff, decide_eq_false_iff_not]
  omega

theorem joinSurrogates_units (text : List Char) :
    joinSurrogates (text.flatMap units) = codePoints text := by
  induction text with
  | nil => rfl
  | cons c text ih =>
    have valid := toNat_valid c
    rw [List.flatMap_cons, units]
    split_ifs with basic
    · rw [List.singleton_append, joinSurrogates_cons (isHigh_toNat c), ih]
      rfl
    · have high : isHigh (0xd800 + (c.toNat - 0x10000) / 0x400) = true := by
        simp only [isHigh, Bool.and_eq_true, decide_eq_true_eq]
        omega
      have low : isLow (0xdc00 + (c.toNat - 0x10000) % 0x400) = true := by
        simp only [isLow, Bool.and_eq_true, decide_eq_true_eq]
        omega
      have joined : 0x10000 + (0xd800 + (c.toNat - 0x10000) / 0x400 - 0xd800) * 0x400 +
          (0xdc00 + (c.toNat - 0x10000) % 0x400 - 0xdc00) = c.toNat := by
        omega
      rw [List.cons_append, List.singleton_append, joinSurrogates, high, low, Bool.and_self, if_pos rfl, ih, joined]
      rfl


/-! ### An envelope -/

/-- A member that is a string, as `json.dumps` writes it, behind its first quote. -/
def memberText (item : List Char × List Char) : List Char :=
  item.1.flatMap jsonChar ++ '"' :: ':' :: ' ' :: '"' :: item.2.flatMap jsonChar ++ ['"']

/-- Members, one at least. -/
def membersText (first : List Char × List Char) : List (List Char × List Char) → List Char
  | [] => '"' :: memberText first
  | next :: later => '"' :: memberText first ++ ',' :: ' ' :: membersText next later

/-- What is read of a member. -/
def memberRead (item : List Char × List Char) : Text × Json :=
  (codePoints item.1, .string (codePoints item.2))

/-- What `json.dumps` writes of a text, `json.loads` reads. -/
theorem scanString_jsonString (text rest : List Char) :
    scanString (text.flatMap jsonChar ++ '"' :: rest) = .ok (codePoints text, rest) := by
  rw [scanString, scanUnits_flatMap]
  dsimp only
  rw [joinSurrogates_units]

theorem scanValue_jsonString (room : ℕ) (text rest : List Char) :
    scanValue room ('"' :: (text.flatMap jsonChar ++ '"' :: rest)) =
      .ok (.string (codePoints text), rest) := by
  rw [scanValue, scanText, scanString_jsonString]

theorem scanMember_memberText (room : ℕ) (item : List Char × List Char) (rest : List Char) :
    scanMember (scanValue room) ('"' :: memberText item ++ rest) = .ok (memberRead item, rest) := by
  unfold memberText
  simp only [List.cons_append, List.append_assoc, List.nil_append]
  refine scanMember_ok (scanString_jsonString item.1 _) rfl ?_
  exact scanValue_jsonString room item.2 rest

theorem membersText_head (first : List Char × List Char) (later : List (List Char × List Char)) :
    ∃ text, membersText first later = '"' :: text := by
  cases later with
  | nil => exact ⟨_, rfl⟩
  | cons next later => exact ⟨_, rfl⟩

theorem scanMembers_membersText (room : ℕ) (rest : List Char) (first : List Char × List Char)
    (later : List (List Char × List Char)) (n : ℕ) (enough : later.length < n) :
    scanMembers (scanValue room) n (membersText first later ++ '}' :: rest) =
      .ok ((first :: later).map memberRead, rest) := by
  induction later generalizing first n with
  | nil =>
    obtain ⟨n, rfl⟩ : ∃ m, n = m + 1 := ⟨n - 1, by omega⟩
    exact scanMembers_last (scanMember_memberText room first _) rfl
  | cons next later ih =>
    obtain ⟨n, rfl⟩ : ∃ m, n = m + 1 := ⟨n - 1, by omega⟩
    rw [List.length_cons] at enough
    have last := ih next n (by omega)
    rw [membersText, List.append_assoc]
    refine scanMembers_next (scanMember_memberText room first _) rfl ?_
    obtain ⟨text, head⟩ := membersText_head next later
    rw [head] at last ⊢
    exact last

theorem length_membersText (first : List Char × List Char)
    (later : List (List Char × List Char)) : later.length < (membersText first later).length := by
  induction later generalizing first with
  | nil => exact Nat.succ_pos _
  | cons next later ih =>
    have shorter := ih next
    simp only [membersText, List.length_append, List.length_cons]
    omega

/-- **An object whose members are strings is read back.** -/
theorem loads_membersText (room : ℕ) (first : List Char × List Char)
    (later : List (List Char × List Char)) :
    loads (room + 1) ('{' :: membersText first later ++ ['}']) =
      .ok (.object ((first :: later).map memberRead)) := by
  have long := length_membersText first later
  have read := scanMembers_membersText room [] first later
    ((membersText first later ++ ['}']).length + 1) (by rw [List.length_append]; omega)
  obtain ⟨text, head⟩ := membersText_head first later
  have object : scanObject (scanValue room) (membersText first later ++ ['}']) =
      .ok (.object ((first :: later).map memberRead), []) := by
    rw [head] at read ⊢
    exact scanObject_ok rfl read
  have value : scanValue (room + 1) (skipSpace ('{' :: membersText first later ++ ['}'])) =
      .ok (.object ((first :: later).map memberRead), []) := object
  rw [loads, value]
  rfl

theorem toList_buildDeadletter (error payload sourceTopic deadLetteredAt : String) :
    (buildDeadletter error payload sourceTopic deadLetteredAt).toList =
      '{' :: membersText ("error".toList, error.toList)
        [("source_topic".toList, sourceTopic.toList), ("payload".toList, payload.toList),
          ("dead_lettered_at".toList, deadLetteredAt.toList)] ++ ['}'] := by
  delta buildDeadletter jsonString
  simp only [String.toList_append, String.toList_ofList, membersText, memberText,
    List.append_assoc, List.cons_append, List.nil_append]
  rfl

/-! ### What a replay of one record does -/

section Object

variable {room : ℕ} {raw : List Char} {record : List (Text × Json)}

theorem isNone_iff {value : Json} : isNone value = true ↔ value = .null := by
  cases value <;> simp [isNone]

/-- An object that lacks its topic or its payload is quarantined. -/
theorem replayRecord_lacking (read : loads room raw = .ok (.object record))
    (lacking : (field record "source_topic").truthy = false ∨ field record "payload" = .null) :
    replayRecord room raw = quarantine raw := by
  rw [← isNone_iff] at lacking
  have unroutable : (!(field record "source_topic").truthy ||
      isNone (field record "payload")) = true := by
    rcases lacking with falsy | missing
    · rw [falsy]
      rfl
    · rw [missing, Bool.or_true]
  unfold replayRecord
  rw [read]
  dsimp only
  rw [if_pos unroutable]

/-- With both set, the producer decides. -/
theorem replayRecord_set (read : loads room raw = .ok (.object record))
    (named : (field record "source_topic").truthy = true)
    (filled : field record "payload" ≠ .null) :
    replayRecord room raw =
      match produce (field record "source_topic") (field record "payload") with
      | .ok message => ([message], .ok (field record "source_topic"))
      | .error error => ([], .error error) := by
  have routable : ¬ (!(field record "source_topic").truthy ||
      isNone (field record "payload")) = true := by
    rw [named, Bool.not_true, Bool.false_or, isNone_iff]
    exact filled
  unfold replayRecord
  rw [read]
  dsimp only
  rw [if_neg routable]

/-- The producer takes nothing but strings. -/
theorem produce_eq_ok {topic payload : Json} {message : Produced} :
    produce topic payload = .ok message ↔
      topic = .string message.1 ∧ payload = .string message.2 := by
  constructor
  · intro made
    unfold produce at made
    split at made
    · obtain rfl := Except.ok.inj made
      exact ⟨rfl, rfl⟩
    · cases made
  · rintro ⟨rfl, rfl⟩
    rfl

end Object

/-- **An envelope gives its payload back to its topic.** -/
theorem replayRecord_buildDeadletter (room : ℕ) (error payload sourceTopic deadLetteredAt : String)
    (named : sourceTopic ≠ "") :
    replayRecord (room + 1) (buildDeadletter error payload sourceTopic deadLetteredAt).toList =
      ([(literal sourceTopic, literal payload)], .ok (.string (literal sourceTopic))) := by
  have read := loads_membersText room ("error".toList, error.toList)
    [("source_topic".toList, sourceTopic.toList), ("payload".toList, payload.toList),
      ("dead_lettered_at".toList, deadLetteredAt.toList)]
  rw [← toList_buildDeadletter] at read
  have topic : field ((("error".toList, error.toList) ::
      [("source_topic".toList, sourceTopic.toList), ("payload".toList, payload.toList),
        ("dead_lettered_at".toList, deadLetteredAt.toList)]).map memberRead) "source_topic" =
      .string (literal sourceTopic) := rfl
  have payload' : field ((("error".toList, error.toList) ::
      [("source_topic".toList, sourceTopic.toList), ("payload".toList, payload.toList),
        ("dead_lettered_at".toList, deadLetteredAt.toList)]).map memberRead) "payload" =
      .string (literal payload) := rfl
  have truthy : (Json.string (literal sourceTopic)).truthy = true := by
    rw [Json.truthy, Bool.not_eq_true', List.isEmpty_eq_false_iff, literal, codePoints, ne_eq,
      List.map_eq_nil_iff, String.toList_eq_nil_iff]
    exact named
  rw [replayRecord_set read, topic, payload']
  · rfl
  · rw [topic]
    exact truthy
  · rw [payload']
    exact fun same => by cases same

/-- What a record is to be produced as: its payload to its topic, or else as it is to where it can be
looked at. -/
def intended (room : ℕ) (raw : List Char) : Produced :=
  match loads room raw with
  | .ok (.object record) =>
    match field record "source_topic", field record "payload" with
    | .string (unit :: topic), .string payload => (unit :: topic, payload)
    | _, _ => (literal unusableTopic, codePoints raw)
  | _ => (literal unusableTopic, codePoints raw)

/-- The record is produced once, as it should be, and nothing is raised. -/
def Restores (room : ℕ) (raw : List Char) : Prop :=
  (replayRecord room raw).1 = [intended room raw] ∧
    ∃ topic, (replayRecord room raw).2 = .ok topic

/-- An object that lacks its topic or its payload or has both as strings. -/
def RoutableObject (record : List (Text × Json)) : Prop :=
  (field record "source_topic").truthy = false ∨ field record "payload" = .null ∨
    ∃ topic payload, field record "source_topic" = .string topic ∧
      field record "payload" = .string payload

/-- What `json.loads` refuses by its own error, or a routable object. -/
def Routable (room : ℕ) (raw : List Char) : Prop :=
  loads room raw = .error .decode ∨
    ∃ record, loads room raw = .ok (.object record) ∧ RoutableObject record

section Object

variable {room : ℕ} {raw : List Char} {record : List (Text × Json)}

theorem intended_lacking (read : loads room raw = .ok (.object record))
    (lacking : (field record "source_topic").truthy = false ∨ field record "payload" = .null) :
    intended room raw = (literal unusableTopic, codePoints raw) := by
  unfold intended
  rw [read]
  dsimp only
  split
  · rename_i unit topic payload named filled
    rw [named, filled] at lacking
    rcases lacking with falsy | missing
    · cases falsy
    · cases missing
  · rfl

theorem intended_strings {topic payload : Text} (read : loads room raw = .ok (.object record))
    (truthy : (field record "source_topic").truthy = true)
    (named : field record "source_topic" = .string topic)
    (filled : field record "payload" = .string payload) :
    intended room raw = (topic, payload) := by
  unfold intended
  rw [read]
  dsimp only
  rw [named] at truthy
  rw [named, filled]
  cases topic with
  | nil => cases truthy
  | cons unit topic => rfl

theorem restores_object (read : loads room raw = .ok (.object record)) :
    Restores room raw ↔ RoutableObject record := by
  by_cases lacking :
      (field record "source_topic").truthy = false ∨ field record "payload" = .null
  · refine iff_of_true ?_ (lacking.imp_right Or.inl)
    rw [Restores, replayRecord_lacking read lacking, intended_lacking read lacking]
    exact ⟨rfl, _, rfl⟩
  · obtain ⟨named, filled⟩ := not_or.mp lacking
    rw [Bool.not_eq_false] at named
    rw [Restores, replayRecord_set read named filled]
    cases made : produce (field record "source_topic") (field record "payload") with
    | error error =>
      refine iff_of_false ?_ ?_
      · rintro ⟨sent, -⟩
        cases sent
      · rintro (falsy | missing | ⟨topic, payload, strings⟩)
        · exact lacking (.inl falsy)
        · exact lacking (.inr missing)
        · rw [(@produce_eq_ok _ _ (topic, payload)).mpr strings] at made
          cases made
    | ok message =>
      have strings := produce_eq_ok.mp made
      refine iff_of_true ?_ (.inr (.inr ⟨_, _, strings⟩))
      rw [intended_strings read named strings.1 strings.2]
      exact ⟨rfl, _, rfl⟩

end Object

theorem not_restores_of_nothing {room : ℕ} {raw : List Char}
    (nothing : (replayRecord room raw).1 = []) : ¬ Restores room raw := by
  rintro ⟨sent, -⟩
  rw [nothing] at sent
  cases sent

theorem restores_iff_routable (room : ℕ) (raw : List Char) :
    Restores room raw ↔ Routable room raw := by
  unfold Routable
  cases read : loads room raw with
  | error error =>
    cases error with
    | decode =>
      refine iff_of_true ?_ (.inl rfl)
      rw [Restores, replayRecord, intended, read]
      exact ⟨rfl, _, rfl⟩
    | digits =>
      refine iff_of_false (not_restores_of_nothing ?_) ?_
      · rw [replayRecord, read]
      · rintro (same | ⟨record, same, -⟩) <;> cases same
    | recursion =>
      refine iff_of_false (not_restores_of_nothing ?_) ?_
      · rw [replayRecord, read]
      · rintro (same | ⟨record, same, -⟩) <;> cases same
  | ok value =>
    by_cases object : ∃ record, value = .object record
    · obtain ⟨record, rfl⟩ := object
      rw [restores_object read]
      constructor
      · exact fun routable => .inr ⟨record, rfl, routable⟩
      · rintro (same | ⟨record', same, routable⟩)
        · cases same
        · obtain rfl := Json.object.inj (Except.ok.inj same)
          exact routable
    · refine iff_of_false (not_restores_of_nothing ?_) ?_
      · rw [replayRecord, read]
        cases value <;> first | rfl | exact absurd ⟨_, rfl⟩ object
      · rintro (same | ⟨record, same, -⟩)
        · cases same
        · exact object ⟨record, Except.ok.inj same⟩

/-- **A record is replayed as it should be exactly if it is routable, and every envelope is.** -/
theorem replayRecord_restores (room : ℕ) :
    (∀ raw, Restores room raw ↔ Routable room raw) ∧
      ∀ error payload sourceTopic deadLetteredAt, sourceTopic ≠ "" →
        replayRecord (room + 1)
            (buildDeadletter error payload sourceTopic deadLetteredAt).toList =
          ([(literal sourceTopic, literal payload)], .ok (.string (literal sourceTopic))) :=
  ⟨restores_iff_routable room, replayRecord_buildDeadletter room⟩

theorem replayRecord_restores_one :
    Restores 1000 "[1, ".toList ∧
      replayRecord 1 (buildDeadletter "boom" "\x7b\x7d" "normalized.updates" "2026-01-01").toList =
        ([(literal "normalized.updates", literal "\x7b\x7d")],
          .ok (.string (literal "normalized.updates"))) :=
  ⟨((replayRecord_restores 1000).1 _).mpr (.inl rfl),
    (replayRecord_restores 0).2 _ _ _ _ (by decide)⟩

/-- A value that is no object is neither produced nor quarantined. -/
theorem null_not_restored : ¬ Restores 1000 "null".toList := by
  rintro ⟨sent, -⟩
  cases sent

end Freshet.Pipeline
