/-
**The Statuspage adapter**: `parse_atom`, entry by entry and block by block.

The feed's XML is parsed elsewhere; an `Entry` is what the tree holds of one `<entry>`. `Adapter`
collects what the adapter takes from libraries: the XML parser, ISO dates, Unicode's letters and
lower case, the named references of HTML, the interpreter's limit on numbers and the digest.
-/

import Freshet.Ingest.ParseWhen
import Freshet.Ingest.Sources
import Freshet.Lib.Dict
import Freshet.Lib.Fallible
import Freshet.Lib.Html
import Mathlib.Data.List.Sort

namespace Freshet.Ingest

open Freshet.Lib

instance decidableEqExcept {ε α : Type} [DecidableEq ε] [DecidableEq α] : DecidableEq (Except ε α)
  | .ok a, .ok b => decidable_of_iff (a = b) (by rw [Except.ok.injEq])
  | .error a, .error b => decidable_of_iff (a = b) (by rw [Except.error.injEq])
  | .ok _, .error _ => isFalse nofun
  | .error _, .ok _ => isFalse nofun

/-- What the tree holds of an entry: the text of each element that is there. -/
structure Entry where
  id : Option (List Char) := none
  updated : Option (List Char) := none
  published : Option (List Char) := none
  title : Option (List Char) := none
  content : Option (List Char) := none
deriving DecidableEq, Repr

/-- What the adapter takes from libraries. -/
structure Adapter where
  /-- `ET.fromstring` and `findall`; none is a `ParseError`. -/
  fromString : List Char → Option (List Entry)
  /-- `datetime.fromisoformat`: the local time and by how many microseconds it is ahead of UTC. A text
  without a zone is in the machine's. None is a `ValueError`. -/
  fromIsoFormat : List Char → Option (Clock × Int)
  isoformat : DateTime → List Char
  /-- `\w`. -/
  isWord : Char → Bool
  lower : List Char → List Char
  html5 : List Char → Option (List Char)
  /-- `sys.get_int_max_str_digits()`: an `int` of a text with more digits raises; 0 is no limit. -/
  intMaxStrDigits : Nat
  /-- `hashlib.blake2s(…, digest_size=6).hexdigest()` of the encoded text. -/
  digest : List Char → String

/-- What `parse_atom` can raise. -/
inductive Raised
  | overflow (error : OverflowError)
  | valueError
deriving DecidableEq, Repr

/-- A datetime in UTC, from an instant. -/
def dateTimeOf (instant : Int) : Except OverflowError DateTime :=
  if inside : yearStart 1 ≤ instant ∧ instant < yearStart 10000 then
    .ok { Clock.ofInstant instant with
      supported := by
        rw [← Clock.instant_ofInstant instant] at inside
        exact ⟨Clock.le_year_of_le_instant inside.1,
          Int.lt_add_one_iff.mp (Clock.year_lt_of_instant_lt inside.2)⟩ }
  else .error .dateValueOutOfRange

/-- `_text`. -/
def text (field : Option (List Char)) : List Char := strip (field.getD [])

/-- `FALLBACK_MAX_CHARS`. -/
def fallbackMaxChars : Nat := 2000

/-- The decimal digits of a number. -/
def digits (n : Nat) : List Char := (toString n).toList

namespace Adapter

variable (lib : Adapter)

/-- `_parse_iso`. -/
def parseIso (raw : List Char) : Except OverflowError (Option DateTime) :=
  match lib.fromIsoFormat (raw.flatMap fun c => if c = 'Z' then "+00:00".toList else [c]) with
  | none => .ok none
  | some (clock, ahead) => (dateTimeOf (clock.instant - ahead)).map some

/-- A decimal character reference has more digits than `int` takes. -/
def exceedsLimit (found : Regex.Match Char) : Bool :=
  match (found.group 1).getD [] with
  | '#' :: 'x' :: _ | '#' :: 'X' :: _ => false
  | '#' :: digits => lib.intMaxStrDigits < (digits.rdropWhile (· == ';')).length
  | _ => false

/-- `html.unescape`, which raises when it meets a number that `int` does not take. -/
def unescaped (content : List Char) : Except Raised (List Char) :=
  if lib.intMaxStrDigits ≠ 0 ∧ (charref.findAll content).any lib.exceedsLimit then .error .valueError
  else .ok (unescape lib.html5 content)

/-- `_INCIDENT_ID`. -/
def incidentId : Regex Char :=
  .alt (.all [anyCase "Incident/", .group 1 (.some lib.isWord)])
    (.all [anyCase "/incident", .opt (anyCase "s"), anyCase "/",
      .group 2 (.some fun c => lib.isWord c || c == '-')])

/-- `incident.group(1) or incident.group(2)`. -/
def incidentOf (found : Regex.Match Char) : List Char :=
  ((found.group 1).or (found.group 2)).getD []

/-- What the updates of an entry share. -/
structure Heading where
  provider : String
  incidentId : List Char
  name : List Char
  revised : DateTime

/-- `_make`. -/
def make (heading : Heading) (stamp : Int) (status body identity : List Char) : IncidentUpdate where
  provider := heading.provider
  incidentId := String.ofList heading.incidentId
  updateId := lib.digest identity
  createdAt := stamp
  status := String.ofList status
  text := String.ofList body
  incidentName := String.ofList heading.name
  bodyDigest := lib.digest body

/-- The identity of an update block. -/
def blockIdentity (marker : List Char) (ordinal : Nat) : List Char :=
  marker ++ '#' :: digits ordinal

/-- `seen_markers.get(marker, -1) + 1`. -/
def nextOrdinal (seen : Dict (List Char) Nat) (marker : List Char) : Nat :=
  match seen.get marker with
  | none => 0
  | some last => last + 1

/-- The loop over the update blocks. -/
def blockUpdates (heading : Heading) (seen : Dict (List Char) Nat) :
    List (Regex.Match Char) → Except Raised (List IncidentUpdate)
  | [] => .ok []
  | block :: later => do
    let body := plain ((block.group 3).getD [])
    let marker := plain ((block.group 1).getD [])
    let ordinal := nextOrdinal seen marker
    let stamp ← (parseWhen ((block.group 1).getD []) heading.revised).mapError Raised.overflow
    let rest ← blockUpdates heading (seen.set marker ordinal) later
    return lib.make heading (stamp.getD heading.revised.instant)
      (lib.lower (plain ((block.group 2).getD []))) body (blockIdentity marker ordinal) :: rest

/-- The record of an entry that holds its current state under a status line. -/
def statusUpdate (heading : Heading) (single : Regex.Match Char) : IncidentUpdate :=
  let status := lib.lower (plain ((single.group 2).getD []))
  let body := plain (components.sub (fun _ => []) ((single.group 3).getD []))
  lib.make heading heading.revised.instant status body ("status:".toList ++ status)

/-- The record of an entry with neither markup. -/
def fallbackUpdates (heading : Heading) (markup : List Char) : List IncidentUpdate :=
  let prose := strip ((plain markup).take fallbackMaxChars)
  if prose = [] then []
  else [lib.make heading heading.revised.instant "unknown".toList prose
    ("revision:".toList ++ lib.isoformat heading.revised)]

/-- The updates in an entry's markup. -/
def markupUpdates (heading : Heading) (markup : List Char) :
    Except Raised (List IncidentUpdate) :=
  match update.findAll markup with
  | block :: blocks => lib.blockUpdates heading [] (block :: blocks)
  | [] => match statusLine.search markup with
    | some single => .ok [lib.statusUpdate heading single]
    | none => .ok (lib.fallbackUpdates heading markup)

/-- What one turn of the loop over the entries appends. -/
def entryUpdates (provider : String) (entry : Entry) :
    Except Raised (List IncidentUpdate) := do
  let revised ← (lib.parseIso
    (if text entry.updated = [] then text entry.published else text entry.updated)).mapError
      Raised.overflow
  match lib.incidentId.search (text entry.id), revised with
  | some incident, some revised => do
    let markup ← lib.unescaped (text entry.content)
    lib.markupUpdates ⟨provider, incidentOf incident, text entry.title, revised⟩ markup
  | _, _ => .ok []

/-- The loop over the entries. -/
def entriesUpdates (provider : String) : List Entry → Except Raised (List IncidentUpdate)
  | [] => .ok []
  | entry :: later => do
    let here ← lib.entryUpdates provider entry
    let rest ← entriesUpdates provider later
    return here ++ rest

/-- `"<!DOCTYPE" in feed[:2048].upper()`. -/
def declaresDoctype (feed : List Char) : Bool :=
  ((exactly "<!DOCTYPE").search ((feed.take 2048).map Char.toUpper)).isSome

/-- `out.sort(key=lambda u: u.created_at)`, which is stable. -/
def sorted (updates : List IncidentUpdate) : List IncidentUpdate :=
  updates.insertionSort fun first second => first.createdAt ≤ second.createdAt

/-- `parse_atom`. -/
def parseAtom (provider : String) (feed : List Char) :
    Except Raised (List IncidentUpdate) :=
  if declaresDoctype feed then .ok []
  else match lib.fromString feed with
    | none => .ok []
    | some entries => do
      let updates ← lib.entriesUpdates provider entries
      return sorted updates

variable {lib}

theorem eq_of_unescaped {content markup : List Char} (escaped : lib.unescaped content = .ok markup) :
    markup = unescape lib.html5 content := by
  unfold unescaped at escaped
  split_ifs at escaped
  exact (Except.ok.inj escaped).symm

/-- What an entry gives is among what the loop appends. -/
theorem mem_entriesUpdates {provider : String} {entries : List Entry} {entry : Entry}
    {updates : List IncidentUpdate} (member : entry ∈ entries)
    (done : lib.entriesUpdates provider entries = .ok updates) :
    ∃ here, lib.entryUpdates provider entry = .ok here ∧ ∀ u ∈ here, u ∈ updates := by
  induction entries generalizing updates with
  | nil => exact absurd member List.not_mem_nil
  | cons first later ih =>
    obtain ⟨here, one, done⟩ := bind_eq_ok.mp done
    obtain ⟨rest, two, done⟩ := bind_eq_ok.mp done
    obtain rfl := Except.ok.inj done
    rcases List.mem_cons.mp member with rfl | among
    · exact ⟨here, one, fun u mine => List.mem_append.mpr (Or.inl mine)⟩
    · obtain ⟨mine, eq, within⟩ := ih among two
      exact ⟨mine, eq, fun u inside => List.mem_append.mpr (Or.inr (within u inside))⟩

theorem declaresDoctype_of_clear {feed : List Char} (clear : '!' ∉ feed.map Char.toUpper) :
    declaresDoctype feed = false := by
  unfold declaresDoctype
  rw [Regex.search_eq_none]
  · rfl
  intro before after split
  rw [Regex.first_eq_none, List.eq_nil_iff_forall_not_mem]
  intro v member
  obtain ⟨declared, -⟩ := mem_ways_exactly.mp member
  refine clear ?_
  have inside : '!' ∈ (feed.take 2048).map Char.toUpper := by
    rw [split, List.mem_append, show after = "<!DOCTYPE".toList ++ v.rest from declared,
      List.mem_append]
    exact Or.inr (Or.inl (by decide))
  rw [List.map_take] at inside
  exact List.mem_of_mem_take inside

/-- A feed without a DTD is parsed as its entries are. -/
theorem parseAtom_eq {provider : String} {feed : List Char} {entries : List Entry}
    (declares : declaresDoctype feed = false) (tree : lib.fromString feed = some entries) :
    lib.parseAtom provider feed = (lib.entriesUpdates provider entries).map sorted := by
  unfold parseAtom
  rw [declares, tree]
  show (lib.entriesUpdates provider entries).bind _ = _
  cases lib.entriesUpdates provider entries <;> rfl

/-- What an entry of the feed gives is in the result. -/
theorem mem_parseAtom {provider : String} {feed : List Char} {entries : List Entry} {entry : Entry}
    {updates : List IncidentUpdate} (declares : declaresDoctype feed = false)
    (tree : lib.fromString feed = some entries) (member : entry ∈ entries)
    (done : lib.parseAtom provider feed = .ok updates) :
    ∃ here, lib.entryUpdates provider entry = .ok here ∧ ∀ u ∈ here, u ∈ updates := by
  rw [parseAtom_eq declares tree, map_eq_ok] at done
  obtain ⟨found, every, rfl⟩ := done
  obtain ⟨here, eq, within⟩ := mem_entriesUpdates member every
  exact ⟨here, eq, fun u inside => (List.mem_insertionSort _).mpr (within u inside)⟩

end Adapter

end Freshet.Ingest
