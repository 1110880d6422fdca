/-
**A component flip emits nothing downstream.**

In an entry that holds its current state, what follows the bold header `Affected components` is the
live state of the components. The two patterns that read such an entry consume two `<` before they
take all the rest, and a header has two of its own. So a run of either pattern that starts above the
header never asks what stands below it (`ways_above`), and neither the status nor the body of the
record depends on it.
-/

import Freshet.Ingest.Statuspage
import Freshet.Stream.Dedup

namespace Freshet.Ingest

open Freshet.Lib Freshet.Stream

/-! ### What the patterns read before they take the rest -/

/-- The part of `_STATUS_LINE` before the body. -/
def statusLead : Regex Char :=
  .all [anyCase "<b>", .many isSpace, anyCase "Status:", .many isSpace,
    .group 2 (.someFew (· != '<')), .many isSpace, anyCase "</b>"]

/-- The header of `_COMPONENTS`. -/
def componentsLead : Regex Char :=
  .all [anyCase "<b>", .many isSpace, anyCase "Affected components", .many isSpace, anyCase "</b>"]

/-- **The bold header** `Affected components`. -/
def IsHeader (header : List Char) : Prop := ⟨[], []⟩ ∈ componentsLead.ways ⟨header, []⟩

theorem statusLine_first (input : List Char) :
    statusLine.first input = (statusLead.ways ⟨input, []⟩).head?.map fun u =>
      (⟨input, (3, u.rest) :: u.groups⟩, []) := by
  have cut : statusLine.ways ⟨input, []⟩ = (statusLead.ways ⟨input, []⟩).flatMap
      (Regex.all [.group 3 (.many anything)]).ways :=
    Regex.ways_all_append [anyCase "<b>", .many isSpace, anyCase "Status:", .many isSpace,
      .group 2 (.someFew (· != '<')), .many isSpace, anyCase "</b>"] _ _
  have leads : ∀ u ∈ statusLead.ways ⟨input, []⟩, (Regex.all [.group 3 (.many anything)]).Leads u
      ⟨[], (3, u.rest) :: u.groups⟩ := fun u _ => by
    have whole := @Regex.Leads.groupMany Char anything .nothing 3 u.rest [] u.groups _
      (fun _ _ => rfl) (by simp) (Regex.leads_nothing _)
    rw [List.append_nil] at whole
    exact whole
  unfold Regex.first
  rw [cut, Regex.head_flatMap leads, Option.map_map]
  congr 1
  funext u
  simp [Regex.consumed]

theorem components_first (input : List Char) :
    components.first input = (componentsLead.ways ⟨input, []⟩).head?.map fun u =>
      (⟨input, u.groups⟩, []) := by
  have cut : components.ways ⟨input, []⟩ = (componentsLead.ways ⟨input, []⟩).flatMap
      (Regex.all [.many anything, .atEnd]).ways :=
    Regex.ways_all_append [anyCase "<b>", .many isSpace, anyCase "Affected components",
      .many isSpace, anyCase "</b>"] _ _
  have leads : ∀ u ∈ componentsLead.ways ⟨input, []⟩, (Regex.all [.many anything, .atEnd]).Leads u
      ⟨[], u.groups⟩ := fun u _ => by
    have whole := @Regex.Leads.many Char anything (Regex.all [.atEnd]) u.rest [] u.groups
      ⟨[], u.groups⟩ (fun _ _ => rfl) (by simp) rfl
    rw [List.append_nil] at whole
    exact whole
  unfold Regex.first
  rw [cut, Regex.head_flatMap leads, Option.map_map]
  congr 1
  funext u
  simp [Regex.consumed]

/-! ### A header -/

theorem statusLead_marks : statusLead.marks '<' = some 2 := by decide

theorem componentsLead_marks : componentsLead.marks '<' = some 2 := by decide

theorem statusLead_open : statusLead.Open := by
  simp [statusLead, anyCase, Regex.Open, Regex.all, Regex.word, Regex.someFew]

theorem componentsLead_open : componentsLead.Open := by
  simp [componentsLead, anyCase, Regex.Open, Regex.all, Regex.word]

/-- What `<b>` matches. -/
theorem bold_split {w v : Way Char} (member : v ∈ (anyCase "<b>").ways w) :
    ∃ b, caseless 'b' b = true ∧ w.rest = '<' :: b :: '>' :: v.rest := by
  obtain ⟨found, split, fits, -⟩ := mem_ways_anyCase.mp member
  have letters : "<b>".toList = ['<', 'b', '>'] := rfl
  simp only [letters, List.forall₂_cons_left_iff, List.forall₂_nil_left_iff] at fits
  obtain ⟨less, after, isLess, ⟨b, after, isB, ⟨greater, after, isGreater, rfl, rfl⟩, rfl⟩, rfl⟩ :=
    fits
  obtain rfl := eq_of_caseless (by decide) (by decide) isLess
  obtain rfl := eq_of_caseless (by decide) (by decide) isGreater
  exact ⟨b, isB, split⟩

/-- What `</b>` matches. -/
theorem boldEnd_split {w v : Way Char} (member : v ∈ (anyCase "</b>").ways w) :
    ∃ b, caseless 'b' b = true ∧ w.rest = '<' :: '/' :: b :: '>' :: v.rest := by
  obtain ⟨found, split, fits, -⟩ := mem_ways_anyCase.mp member
  have letters : "</b>".toList = ['<', '/', 'b', '>'] := rfl
  simp only [letters, List.forall₂_cons_left_iff, List.forall₂_nil_left_iff] at fits
  obtain ⟨less, after, isLess, ⟨slash, after, isSlash,
    ⟨b, after, isB, ⟨greater, after, isGreater, rfl, rfl⟩, rfl⟩, rfl⟩, rfl⟩ := fits
  obtain rfl := eq_of_caseless (by decide) (by decide) isLess
  obtain rfl := eq_of_caseless (by decide) (by decide) isSlash
  obtain rfl := eq_of_caseless (by decide) (by decide) isGreater
  exact ⟨b, isB, split⟩

/-- The shape of a header. -/
theorem IsHeader.split {header : List Char} (isHeader : IsHeader header) :
    ∃ b middle b', caseless 'b' b = true ∧
      header = '<' :: b :: '>' :: middle ++ ['<', '/', b', '>'] := by
  obtain ⟨u, opening, after⟩ := Regex.mem_ways_all 1 isHeader
  obtain ⟨v, between, closing⟩ := Regex.mem_ways_all 3 after
  obtain ⟨x, bold, rest⟩ := Regex.mem_ways_seq.mp opening
  obtain rfl := List.mem_singleton.mp rest
  obtain ⟨y, boldEnd, rest⟩ := Regex.mem_ways_seq.mp closing
  obtain rfl := List.mem_singleton.mp rest
  obtain ⟨b, isB, start⟩ := bold_split bold
  obtain ⟨b', -, ending⟩ := boldEnd_split boldEnd
  obtain ⟨middle, body⟩ := Regex.ways_suffix between
  refine ⟨b, middle, b', isB, ?_⟩
  rw [show header = '<' :: b :: '>' :: u.rest from start, body, ending]
  rfl

theorem IsHeader.count {header : List Char} (isHeader : IsHeader header) :
    header.count '<' = 2 := by
  have most := Regex.count_of_ways componentsLead_marks isHeader
  have least : 2 ≤ header.count '<' := by
    obtain ⟨b, middle, b', -, rfl⟩ := isHeader.split
    simp only [List.cons_append, List.count_cons, List.count_append]
    simp only [beq_self_eq_true, if_true]
    omega
  have bounded : header.count '<' ≤ 0 + 2 := most
  omega

/-- A header holds no character reference. -/
theorem IsHeader.clear {header : List Char} (isHeader : IsHeader header) : '&' ∉ header := by
  have none : componentsLead.marks '&' = some 0 := by decide
  have bounded : header.count '&' ≤ 0 := Regex.count_of_ways none isHeader
  exact List.count_eq_zero.mp (Nat.le_zero.mp bounded)

/-! ### Above the header nothing depends on what stands below -/

section Above

variable {header : List Char} (isHeader : IsHeader header)

include isHeader in
/-- **A run that starts above the header never asks what stands below it.** -/
theorem ways_above {later : List (Regex Char)}
    (bounded : (Regex.all (anyCase "<b>" :: later)).marks '<' = some 2) (c : Char)
    (above below : List Char) :
    (Regex.all (anyCase "<b>" :: later)).ways ⟨c :: above ++ header ++ below, []⟩ =
      ((Regex.all (anyCase "<b>" :: later)).ways ⟨c :: above ++ header, []⟩).map
        (Way.extend below) := by
  by_cases less : c = '<'
  · refine @Regex.ways_extend _ _ ⟨c :: above ++ header, []⟩ (Regex.stuck_of_marks bounded ?_) below
    show 2 < (c :: above ++ header).count '<'
    rw [less, List.count_append, List.count_cons_self, isHeader.count]
    omega
  · have fails : ∀ rest, (Regex.all (anyCase "<b>" :: later)).ways ⟨c :: rest, []⟩ = [] := by
      intro rest
      rw [List.eq_nil_iff_forall_not_mem]
      intro v member
      obtain ⟨u, bold, -⟩ := Regex.mem_ways_seq.mp member
      obtain ⟨b, -, start⟩ := bold_split bold
      exact less (List.cons.inj start).1
    rw [List.cons_append, List.cons_append, fails, fails, List.map_nil]

include isHeader in
/-- A status line that starts above the header ends above it. -/
theorem statusLead_above {above : List Char} (less : '<' ∈ above) {u : Way Char}
    (member : u ∈ statusLead.ways ⟨above ++ header, []⟩) : ∃ body, u.rest = body ++ header := by
  obtain ⟨v, stated, closing⟩ := Regex.mem_ways_all 6 member
  obtain ⟨w, boldEnd, rest⟩ := Regex.mem_ways_seq.mp closing
  obtain rfl := List.mem_singleton.mp rest
  obtain ⟨b', isB', ending⟩ := boldEnd_split boldEnd
  obtain ⟨text, split⟩ := Regex.ways_suffix stated
  have first : (above ++ header).count '<' ≤ v.rest.count '<' + 1 :=
    Regex.count_of_ways (by decide) stated
  have seen : 0 < above.count '<' := List.count_pos_iff.mpr less
  have two := isHeader.count
  obtain ⟨b, middle, b'', isB, shape⟩ := isHeader.split
  -- the end tag `</b>` is not how the header starts
  have apart : v.rest ≠ header := by
    intro same
    rw [same, shape] at ending
    obtain ⟨rfl, -⟩ := List.cons.inj (List.cons.inj ending).2
    exact absurd isB (by decide)
  rcases List.append_eq_append_iff.mp split with ⟨later, -, inside⟩ | ⟨before, -, rest⟩
  · -- nor does it start further down, where the header has only one `<` left
    cases later with
    | nil => exact absurd inside.symm apart
    | cons c later =>
      have starts : c = '<' := by
        rw [shape] at inside
        exact (List.cons.inj inside).1.symm
      rw [inside, starts, List.cons_append, List.count_cons_self, List.count_append] at two
      rw [List.count_append, inside, starts, List.cons_append, List.count_cons_self,
        List.count_append] at first
      omega
  · -- nor does it run over into the header, which starts with `<`
    rw [rest] at ending apart
    have starts : ∃ after, header = '<' :: after := ⟨_, shape⟩
    obtain ⟨after, eq⟩ := starts
    rcases before with _ | ⟨first', _ | ⟨second, _ | ⟨third, _ | ⟨fourth, before⟩⟩⟩⟩
    · exact absurd rfl apart
    · rw [eq] at ending
      exact absurd (List.cons.inj (List.cons.inj ending).2).1 (by decide)
    · rw [eq] at ending
      obtain rfl := (List.cons.inj (List.cons.inj (List.cons.inj ending).2).2).1
      exact absurd isB' (by decide)
    · rw [eq] at ending
      exact absurd (List.cons.inj (List.cons.inj (List.cons.inj (List.cons.inj ending).2).2).2).1
        (by decide)
    · have tail := (List.cons.inj (List.cons.inj (List.cons.inj (List.cons.inj ending).2).2).2).2
      exact ⟨before, tail.symm⟩

include isHeader in
/-- **The status line is the same whatever stands below**, and what stands below ends its body. -/
theorem statusLine_above {above : List Char} (stated : (statusLine.search above).isSome) :
    ∃ body groups, ∀ below, ∃ text,
      statusLine.search (above ++ header ++ below) =
        some ⟨text, (3, body ++ header ++ below) :: groups⟩ := by
  induction above with
  | nil => exact absurd stated (by decide)
  | cons c above ih =>
    have extended : ∀ below, statusLead.ways ⟨c :: above ++ header ++ below, []⟩ =
        (statusLead.ways ⟨c :: above ++ header, []⟩).map (Way.extend below) :=
      ways_above isHeader statusLead_marks c above
    cases here : statusLead.ways ⟨c :: above ++ header, []⟩ with
    | nil =>
      have fails : ∀ below, statusLine.first (c :: above ++ header ++ below) = none := by
        intro below
        rw [statusLine_first, extended, here]
        rfl
      have alone : statusLine.first (c :: above) = none := by
        rw [statusLine_first, Option.map_eq_none_iff, List.head?_eq_none_iff,
          List.eq_nil_iff_forall_not_mem]
        intro v member
        have longer := Regex.ways_mono statusLead_open header member
        rw [show Way.extend header ⟨c :: above, []⟩ = ⟨c :: above ++ header, []⟩ from rfl,
          here] at longer
        exact List.not_mem_nil longer
      have later : (statusLine.search above).isSome := by
        rw [Regex.search, alone] at stated
        exact stated
      obtain ⟨body, groups, rest⟩ := ih later
      refine ⟨body, groups, fun below => ?_⟩
      obtain ⟨text, found⟩ := rest below
      refine ⟨text, ?_⟩
      rw [← found, List.cons_append, List.cons_append, Regex.search]
      have none := fails below
      rw [List.cons_append, List.cons_append] at none
      rw [none]
    | cons u later =>
      have less : '<' ∈ c :: above := by
        have member : u ∈ statusLead.ways ⟨c :: above ++ header, []⟩ := by
          rw [here]
          exact List.mem_cons_self
        obtain ⟨w, bold, -⟩ := Regex.mem_ways_seq.mp member
        obtain ⟨b, -, start⟩ := bold_split bold
        obtain rfl := (List.cons.inj start).1
        exact List.mem_cons_self
      obtain ⟨body, rest⟩ := statusLead_above isHeader less (by rw [here]; exact List.mem_cons_self)
      refine ⟨body, u.groups, fun below => ⟨c :: above ++ header ++ below, ?_⟩⟩
      refine @Regex.search_of_first _ _ _ [] _ ?_
      rw [statusLine_first, extended, here, List.map_cons, List.head?_cons, Option.map_some]
      show some (Regex.Match.mk _ ((3, u.rest ++ below) :: u.groups), ([] : List Char)) = _
      rw [rest]

/-- Wherever the header is found, all the rest goes. -/
theorem components_cut {input : List Char} (full : input ≠ [])
    (found : componentsLead.ways ⟨input, []⟩ ≠ []) : components.sub (fun _ => []) input = [] := by
  obtain ⟨u, later, here⟩ := List.exists_cons_of_ne_nil found
  have first : components.first input = some (⟨input, u.groups⟩, []) := by
    rw [components_first, here]
    rfl
  rw [Regex.sub_hit first full]
  rfl

include isHeader in
/-- **What is left of a body does not depend on what stands below the header.** -/
theorem components_above (above : List Char) :
    ∃ left, ∀ below, components.sub (fun _ => []) (above ++ header ++ below) = left := by
  induction above with
  | nil =>
    refine ⟨[], fun below => components_cut ?_ ?_⟩
    · obtain ⟨b, middle, b', -, rfl⟩ := isHeader.split
      exact List.cons_ne_nil _ _
    · exact List.ne_nil_of_mem (Regex.ways_mono componentsLead_open below isHeader)
  | cons c above ih =>
    have extended : ∀ below, componentsLead.ways ⟨c :: above ++ header ++ below, []⟩ =
        (componentsLead.ways ⟨c :: above ++ header, []⟩).map (Way.extend below) :=
      ways_above isHeader componentsLead_marks c above
    cases here : componentsLead.ways ⟨c :: above ++ header, []⟩ with
    | nil =>
      obtain ⟨left, rest⟩ := ih
      refine ⟨c :: left, fun below => ?_⟩
      have fails : components.first (c :: above ++ header ++ below) = none := by
        rw [components_first, extended, here]
        rfl
      rw [List.cons_append, List.cons_append] at fails ⊢
      unfold Regex.sub at rest ⊢
      rw [Regex.scan_plain fails, List.flatMap_cons, rest]
      rfl
    | cons u later =>
      refine ⟨[], fun below => components_cut (List.cons_ne_nil _ _) ?_⟩
      rw [extended, here, List.map_cons]
      exact List.cons_ne_nil _ _

end Above

/-! ### From the content to the markup -/

/-- What a version's content becomes: the header stands as it is. -/
theorem markup_split (html5 : List Char → Option (List Char)) {header : List Char}
    (isHeader : IsHeader header) (prose below : List Char) :
    unescape html5 (text (some (prose ++ header ++ below))) =
      unescape html5 (prose.dropWhile isSpace) ++ header ++
        unescape html5 (below.rdropWhile isSpace) := by
  have clear := isHeader.clear
  obtain ⟨b, middle, b', -, shape⟩ := isHeader.split
  have ends : header = '<' :: (b :: '>' :: middle ++ ['<', '/', b']) ++ ['>'] := by
    rw [shape]
    simp
  have starts : header = '<' :: (b :: '>' :: middle ++ ['<', '/', b', '>']) := shape
  have stripped : text (some (prose ++ header ++ below)) =
      prose.dropWhile isSpace ++ header ++ below.rdropWhile isSpace := by
    show strip (prose ++ header ++ below) = _
    rw [ends]
    exact strip_append (by decide) (by decide)
  have tail : '&' ∉ b :: '>' :: middle ++ ['<', '/', b', '>'] := by
    intro member
    rw [starts] at clear
    exact clear (List.mem_cons_of_mem _ member)
  rw [stripped, List.append_assoc, starts, List.cons_append, unescape_append, unescape_copy _ tail]
  simp

/-- Space in front of the markup hides no status line. -/
theorem statusLine_unescape (html5 : List Char → Option (List Char)) (prose : List Char) :
    statusLine.search (unescape html5 (prose.dropWhile isSpace)) =
      statusLine.search (unescape html5 prose) := by
  have spaces : ∀ c ∈ prose.takeWhile isSpace, isSpace c = true := fun c member =>
    List.mem_takeWhile_imp member
  have clear : '&' ∉ prose.takeWhile isSpace := fun member => by
    have space := spaces _ member
    exact absurd space (by decide)
  conv_rhs => rw [← List.takeWhile_append_dropWhile (p := isSpace) (l := prose)]
  rw [unescape_copy _ clear, Regex.search_append]
  intro before c after split
  rw [statusLine_first, Option.map_eq_none_iff, List.head?_eq_none_iff,
    List.eq_nil_iff_forall_not_mem]
  intro v member
  obtain ⟨w, bold, -⟩ := Regex.mem_ways_seq.mp member
  obtain ⟨b, -, start⟩ := bold_split bold
  have space : isSpace c = true := spaces c (by rw [split]; simp)
  rw [(List.cons.inj start).1] at space
  exact absurd space (by decide)

/-! ### The entry and its versions -/

/-- What the versions of an entry have in common: all but the stamp, and the content down to the
header. -/
structure StatusEntry where
  id : Option (List Char)
  title : Option (List Char)
  prose : List Char
  header : List Char

/-- **A version of the entry**, of the shape that holds no update block. -/
structure StatusEntry.Version (lib : Adapter) (shown : StatusEntry) (entry : Entry) : Prop where
  id : entry.id = shown.id
  title : entry.title = shown.title
  content : ∃ below, entry.content = some (shown.prose ++ shown.header ++ below)
  noBlock : ∃ markup, lib.unescaped (text entry.content) = .ok markup ∧ update.findAll markup = []
  dated : ∃ revised, lib.parseIso
    (if text entry.updated = [] then text entry.published else text entry.updated) = .ok (some revised)

/-- A feed that holds the entry has been swept, and what was parsed has arrived in the topic. -/
def Swept (lib : Adapter) (library : Library) (readStamp : String → Option Int) (provider : String)
    (entry : Entry) (topic : List RawIncident) : Prop :=
  ∃ feed entries updates, Adapter.declaresDoctype feed = false ∧ lib.fromString feed = some entries ∧
    entry ∈ entries ∧ lib.parseAtom provider feed = .ok updates ∧
    ∀ u ∈ updates, ∃ procTime, received readStamp (toMessage library u) procTime ∈ topic

/-- **Every version is parsed into one record, of one status and one body.** -/
theorem version_updates (lib : Adapter) (provider : String) {shown : StatusEntry}
    (isHeader : IsHeader shown.header)
    (stated : (statusLine.search (unescape lib.html5 shown.prose)).isSome)
    {incident : Regex.Match Char} (found : lib.incidentId.search (text shown.id) = some incident) :
    ∃ status body, ∀ entry, shown.Version lib entry → ∃ stamp, lib.entryUpdates provider entry =
      .ok [lib.make ⟨provider, Adapter.incidentOf incident, text shown.title, stamp⟩ stamp.instant status
        body ("status:".toList ++ status)] := by
  rw [← statusLine_unescape] at stated
  obtain ⟨above, groups, lines⟩ := statusLine_above isHeader stated
  obtain ⟨left, cut⟩ := components_above isHeader above
  refine ⟨lib.lower (plain ((groups.lookup 2).getD [])), plain left, ?_⟩
  intro entry version
  obtain ⟨below, content⟩ := version.content
  obtain ⟨revised, dated⟩ := version.dated
  obtain ⟨markup, escaped, noBlock⟩ := version.noBlock
  obtain rfl := Adapter.eq_of_unescaped escaped
  rw [content] at escaped
  rw [content, markup_split _ isHeader] at noBlock
  obtain ⟨whole, line⟩ := lines (unescape lib.html5 (below.rdropWhile isSpace))
  refine ⟨revised, ?_⟩
  unfold Adapter.entryUpdates
  rw [dated, version.id, version.title, content]
  simp only [bind, Except.bind, Except.mapError, found, escaped]
  unfold Adapter.markupUpdates
  rw [markup_split _ isHeader, noBlock, line]
  show Except.ok [lib.make _ _ (lib.lower (plain ((groups.lookup 2).getD [])))
    (plain (components.sub (fun _ => []) (above ++ shown.header ++
      unescape lib.html5 (below.rdropWhile isSpace)))) _] = _
  rw [cut]
  rfl

/-- **A component flip emits nothing downstream.** All versions of an entry have one update id and
one body digest, so they are one partition of the deduplication; and from any number of sweeps, in
whatever else the topic holds, exactly one row of that partition is emitted. -/
theorem component_flip_emits_once (lib : Adapter) (library : Library)
    {readStamp : String → Option Int} (reads : ∀ instant, (readStamp (library.isoformatZ instant)).isSome)
    (provider : String) {shown : StatusEntry} (isHeader : IsHeader shown.header)
    (stated : (statusLine.search (unescape lib.html5 shown.prose)).isSome)
    {incident : Regex.Match Char} (found : lib.incidentId.search (text shown.id) = some incident) :
    ∃ updateId bodyDigest : String, ∃ key : RawIncident.Partition,
      (∀ entry, shown.Version lib entry → ∃ record, lib.entryUpdates provider entry = .ok [record] ∧
        record.updateId = updateId ∧ record.bodyDigest = bodyDigest ∧
        ∀ procTime, (received readStamp (toMessage library record) procTime).partition = key) ∧
      ∀ topic, (∃ entry, shown.Version lib entry ∧
          Swept lib library readStamp provider entry topic) →
        ∃ row ∈ topic, (firsts topic).filter (fun row => row.partition = key) = [row] := by
  obtain ⟨status, body, every⟩ := version_updates lib provider isHeader stated found
  refine ⟨lib.digest ("status:".toList ++ status), lib.digest body,
    ⟨provider, String.ofList (Adapter.incidentOf incident),
      lib.digest ("status:".toList ++ status), lib.digest body⟩, ?_, ?_⟩
  · intro entry version
    obtain ⟨stamp, parsed⟩ := every entry version
    exact ⟨_, parsed, rfl, rfl, fun _ => rfl⟩
  · rintro topic ⟨entry, version, feed, entries, updates, declares, tree, member, done, arrived⟩
    obtain ⟨stamp, parsed⟩ := every entry version
    obtain ⟨here, eq, within⟩ := Adapter.mem_parseAtom declares tree member done
    rw [parsed] at eq
    obtain rfl := Except.ok.inj eq
    obtain ⟨procTime, inTopic⟩ := arrived _ (within _ (List.mem_singleton_self _))
    obtain ⟨row, among, -, once⟩ := firsts_once inTopic (reads _)
    exact ⟨row, among, once⟩

/-! ### An entry that flips -/

/-- What stands above the header. -/
def loginProse : String := "<b>Status: Investigating</b>Errors."

def loginHeader : String := "<b>Affected components</b>"

/-- The entry, as the tree holds it. -/
def loginEntry (below : String) : Entry where
  id := some "tag:status.openai.com,2005:Incident/7".toList
  updated := some "2026-08-18T12:00:00Z".toList
  title := some "Login errors".toList
  content := some (loginProse.toList ++ loginHeader.toList ++ below.toList)

/-- The feed that holds it. -/
def loginFeed (below : String) : List Char :=
  "<feed xmlns=\"http://www.w3.org/2005/Atom\"><entry>".toList ++
    "<id>tag:status.openai.com,2005:Incident/7</id><updated>2026-08-18T12:00:00Z</updated>".toList ++
    "<title>Login errors</title><content>&lt;b&gt;Status: Investigating&lt;/b&gt;Errors.".toList ++
    "&lt;b&gt;Affected components&lt;/b&gt;".toList ++ below.toList ++
    "</content></entry></feed>".toList

theorem loginRevised_fits : Fits 2026 8 18 12 0 0 0 := by decide

theorem loginRevised_supported : (1 : Int) ≤ 2026 ∧ (2026 : Int) ≤ 9999 := by decide

/-- Noon of 18 August 2026. -/
def loginRevised : DateTime where
  year := 2026
  month := 8
  day := 18
  hour := 12
  minute := 0
  second := 0
  microsecond := 0
  fits := loginRevised_fits
  supported := loginRevised_supported

/-- The libraries on these two feeds. -/
def loginAdapter : Adapter where
  fromString feed :=
    if feed = loginFeed "Down" then some [loginEntry "Down"]
    else if feed = loginFeed "Up" then some [loginEntry "Up"]
    else none
  fromIsoFormat raw :=
    if raw = "2026-08-18T12:00:00+00:00".toList then some (loginRevised.toClock, 0) else none
  isoformat _ := "2026-08-18T12:00:00+00:00".toList
  isWord c := c.isAlphanum || c == '_'
  lower text := text.map Char.toLower
  html5 _ := none
  intMaxStrDigits := 4300
  digest text :=
    if text = "status:investigating".toList then "f7567decb722"
    else if text = "Errors.".toList then "5e28cc3521bd" else ""

def loginLibrary : Library where
  dumps _ := ""
  isoformatZ _ := "2026-08-18T12:00:00Z"
  hostOf url := url

/-- What the poller makes of the entry. -/
def loginUpdate : IncidentUpdate where
  provider := "openai"
  incidentId := "7"
  updateId := "f7567decb722"
  createdAt := loginRevised.instant
  status := "investigating"
  text := "Errors."
  incidentName := "Login errors"
  bodyDigest := "5e28cc3521bd"

/-- Noon of that day in milliseconds. -/
def loginStamp (_ : String) : Option Int := some 1787054400000

/-- The topic after the operational and the degraded sweep. -/
def loginTopic : List RawIncident :=
  [received loginStamp (toMessage loginLibrary loginUpdate) 0,
    received loginStamp (toMessage loginLibrary loginUpdate) 60000]

/-- What the two versions have in common. -/
def login : StatusEntry where
  id := (loginEntry "").id
  title := (loginEntry "").title
  prose := loginProse.toList
  header := loginHeader.toList

/-- What is evaluated of the entry and its feed. -/
theorem login_evaluated :
    loginAdapter.unescaped (text (loginEntry "Down").content) =
      .ok "<b>Status: Investigating</b>Errors.<b>Affected components</b>Down".toList ∧
    update.findAll "<b>Status: Investigating</b>Errors.<b>Affected components</b>Down".toList = [] ∧
    loginAdapter.parseIso (if text (loginEntry "Down").updated = [] then
      text (loginEntry "Down").published else text (loginEntry "Down").updated) =
        .ok (some loginRevised) ∧
    loginAdapter.entryUpdates "openai" (loginEntry "Down") = .ok [loginUpdate] ∧
    Adapter.declaresDoctype (loginFeed "Down") = false ∧
    IsHeader login.header ∧
    (statusLine.search (unescape loginAdapter.html5 login.prose)).isSome ∧
    loginAdapter.incidentId.search (text login.id) = some ⟨"Incident/7".toList, [(1, "7".toList)]⟩ := by
  have markup : loginAdapter.unescaped (text (loginEntry "Down").content) =
      .ok "<b>Status: Investigating</b>Errors.<b>Affected components</b>Down".toList := by
    have visible : text (loginEntry "Down").content =
        "<b>Status: Investigating</b>Errors.<b>Affected components</b>Down".toList := by
      decide +kernel
    rw [visible]
    decide +kernel
  have dated : loginAdapter.parseIso (if text (loginEntry "Down").updated = [] then
      text (loginEntry "Down").published else text (loginEntry "Down").updated) =
        .ok (some loginRevised) := by decide +kernel
  have here : loginAdapter.entryUpdates "openai" (loginEntry "Down") = .ok [loginUpdate] := by
    unfold Adapter.entryUpdates
    rw [markup, dated]
    decide +kernel
  have isHeader : IsHeader login.header := by
    unfold IsHeader
    decide +kernel
  exact ⟨markup, by decide +kernel, dated, here, Adapter.declaresDoctype_of_clear (by decide +kernel),
    isHeader, by decide +kernel, by decide +kernel⟩

theorem login_version : login.Version loginAdapter (loginEntry "Down") where
  id := rfl
  title := rfl
  content := ⟨"Down".toList, rfl⟩
  noBlock := ⟨_, login_evaluated.1, login_evaluated.2.1⟩
  dated := ⟨loginRevised, login_evaluated.2.2.1⟩

theorem login_declares : Adapter.declaresDoctype (loginFeed "Down") = false :=
  login_evaluated.2.2.2.2.1

theorem login_tree : loginAdapter.fromString (loginFeed "Down") = some [loginEntry "Down"] := by
  unfold loginAdapter
  simp only [if_true]

theorem login_parsed : loginAdapter.parseAtom "openai" (loginFeed "Down") = .ok [loginUpdate] := by
  obtain ⟨-, -, -, here, -⟩ := login_evaluated
  rw [Adapter.parseAtom_eq login_declares login_tree, Adapter.entriesUpdates, here]
  rfl

theorem login_swept : Swept loginAdapter loginLibrary loginStamp "openai"
    (loginEntry "Down") loginTopic := by
  unfold Swept
  refine ⟨_, _, _, login_declares, login_tree, List.mem_singleton_self _, login_parsed, ?_⟩
  intro u member
  obtain rfl := List.mem_singleton.mp member
  exact ⟨0, List.mem_cons_self⟩

theorem component_flip_emits_once_login :
    ∃ key : RawIncident.Partition, ∃ row ∈ loginTopic,
      (firsts loginTopic).filter (fun row => row.partition = key) = [row] := by
  obtain ⟨-, -, -, -, -, isHeader, stated, found⟩ := login_evaluated
  obtain ⟨updateId, bodyDigest, key, every, once⟩ :=
    @component_flip_emits_once loginAdapter loginLibrary loginStamp (fun _ => rfl) "openai" login
      isHeader stated _ found
  exact ⟨key, once loginTopic ⟨_, login_version, login_swept⟩⟩

end Freshet.Ingest
