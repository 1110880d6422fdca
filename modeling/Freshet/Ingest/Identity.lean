/-
**The identity of an update** is its time as the entry shows it, with an ordinal among the blocks that
show the same. The loop counts from the newest block on.

So the identities of one entry are distinct, but they move when a newer block shows the same minute as
an older one: the newer one takes the ordinal 0. `keepsIdentity_iff` says exactly when they stay.
-/

import Freshet.Ingest.Blocks
import Freshet.Ingest.Entries
import Freshet.Lib.Numbering
import Mathlib.Data.Set.Function

namespace Freshet.Ingest

open Freshet.Lib

/-! ### What an entry's blocks become -/

/-- `block.group("when")`. -/
def timeOf (found : Regex.Match Char) : List Char := (found.group 1).getD []

/-- `block.group("status")`. -/
def statusOf (found : Regex.Match Char) : List Char := (found.group 2).getD []

/-- `block.group("body")`. -/
def bodyOf (found : Regex.Match Char) : List Char := (found.group 3).getD []

/-- The marker of a block that was found. -/
def markerOf (found : Regex.Match Char) : List Char := plain (timeOf found)

namespace Adapter

variable {lib : Adapter} {heading : Heading} {seen : Dict (List Char) Nat}
  {blocks : List (Regex.Match Char)} {updates : List IncidentUpdate}

/-- **The record of a block**: everything but its ordinal is the block's own. -/
def RecordOf (lib : Adapter) (heading : Heading) (found : Regex.Match Char) (u : IncidentUpdate) :
    Prop :=
  ∃ stamp ordinal, parseWhen (timeOf found) heading.revised = .ok stamp ∧
    u = lib.make heading (stamp.getD heading.revised.instant) (lib.lower (plain (statusOf found)))
      (plain (bodyOf found)) (blockIdentity (markerOf found) ordinal)

/-- The loop makes a record of each block. -/
theorem blockUpdates_records (done : lib.blockUpdates heading seen blocks = .ok updates) :
    List.Forall₂ (lib.RecordOf heading) blocks updates := by
  induction blocks generalizing seen updates with
  | nil =>
    obtain rfl := Except.ok.inj done
    exact .nil
  | cons found later ih =>
    obtain ⟨stamp, dated, done⟩ := bind_eq_ok.mp done
    obtain ⟨rest, after, done⟩ := bind_eq_ok.mp done
    obtain rfl := Except.ok.inj done
    exact .cons ⟨stamp, _, mapError_eq_ok.mp dated, rfl⟩ (ih after)

/-- The identities of blocks with these markers. -/
def identities (markers : List (List Char)) : List (List Char) :=
  (numbered (fun _ => 0) markers).map fun entry => blockIdentity entry.1 entry.2

theorem nextOrdinal_set (seen : Dict (List Char) Nat) (marker other : List Char) :
    nextOrdinal (seen.set marker (nextOrdinal seen marker)) other =
      bump (nextOrdinal seen) marker other := by
  unfold bump
  by_cases same : other = marker
  · subst same
    rw [Function.update_self]
    unfold nextOrdinal
    rw [Dict.get_set, if_pos rfl]
  · rw [Function.update_of_ne same]
    unfold nextOrdinal
    rw [Dict.get_set, if_neg same]

/-- **The loop numbers the markers**, newest first. -/
theorem blockUpdates_ids (done : lib.blockUpdates heading seen blocks = .ok updates) :
    updates.map IncidentUpdate.updateId = (numbered (nextOrdinal seen) (blocks.map markerOf)).map
      fun entry => lib.digest (blockIdentity entry.1 entry.2) := by
  induction blocks generalizing seen updates with
  | nil =>
    obtain rfl := Except.ok.inj done
    rfl
  | cons found later ih =>
    obtain ⟨stamp, -, done⟩ := bind_eq_ok.mp done
    obtain ⟨rest, after, done⟩ := bind_eq_ok.mp done
    obtain rfl := Except.ok.inj done
    have next : nextOrdinal (seen.set (markerOf found) (nextOrdinal seen (markerOf found))) =
        bump (nextOrdinal seen) (markerOf found) := funext (nextOrdinal_set seen (markerOf found))
    rw [List.map_cons, ih after, List.map_cons, numbered, List.map_cons, ← next]
    rfl

/-! ### Identities -/

/-- **The digest tells the identities apart** that blocks with these markers can get. -/
def CollisionFree (lib : Adapter) (markers : List (List Char)) : Prop :=
  Set.InjOn lib.digest {identity | ∃ marker ∈ markers, ∃ ordinal < markers.length,
    identity = blockIdentity marker ordinal}

theorem CollisionFree.of_cons {marker : List Char} {markers : List (List Char)}
    (free : lib.CollisionFree (marker :: markers)) : lib.CollisionFree markers := by
  refine free.mono ?_
  rintro identity ⟨marker', among, ordinal, below, rfl⟩
  exact ⟨marker', List.mem_cons_of_mem _ among, ordinal, Nat.lt_succ_of_lt below, rfl⟩

theorem blockIdentity_inj {marker marker' : List Char} {ordinal ordinal' : Nat}
    (same : blockIdentity marker ordinal = blockIdentity marker' ordinal') :
    marker = marker' ∧ ordinal = ordinal' := by
  have spelled : ∀ marker ordinal, blockIdentity marker ordinal = suffixed marker '#' ordinal := by
    intro marker ordinal
    unfold blockIdentity digits suffixed
    rw [show (toString ordinal).toList = Nat.toDigits 10 ordinal from Nat.toList_repr]
  rw [spelled, spelled] at same
  exact suffixed_inj (by decide) same

theorem mem_identities {markers : List (List Char)} {identity : List Char}
    (member : identity ∈ identities markers) : ∃ marker ∈ markers, ∃ ordinal < markers.length,
      identity = blockIdentity marker ordinal := by
  obtain ⟨⟨marker, ordinal⟩, among, rfl⟩ := List.mem_map.mp member
  have below := lt_of_mem among
  have named : marker ∈ markers := by
    rw [← map_numbered (fun _ => 0) markers]
    exact List.mem_map.mpr ⟨_, among, rfl⟩
  exact ⟨marker, named, ordinal, by omega, rfl⟩

/-- **No two updates of an entry share an identity.** -/
theorem nodup_ids {markers : List (List Char)} (free : lib.CollisionFree markers) :
    ((identities markers).map lib.digest).Nodup := by
  have distinct : (identities markers).Nodup :=
    (nodup_numbered _ markers).map fun one two same => by
      obtain ⟨names, ordinals⟩ := blockIdentity_inj same
      exact Prod.ext names ordinals
  refine List.Nodup.map_on ?_ distinct
  intro one first two second same
  exact free (mem_identities first) (mem_identities second) same

/-- Lists with the same image are the same, where the function tells their items apart. -/
theorem eq_of_map_eq {α β : Type} {f : α → β} {items : Set α} {one two : List α}
    (apart : Set.InjOn f items) (first : ∀ a ∈ one, a ∈ items) (second : ∀ a ∈ two, a ∈ items)
    (same : one.map f = two.map f) : one = two := by
  induction one generalizing two with
  | nil => exact (List.map_eq_nil_iff.mp same.symm).symm
  | cons a one ih =>
    cases two with
    | nil => exact absurd same (List.cons_ne_nil _ _)
    | cons b two =>
      rw [List.forall_mem_cons] at first second
      obtain ⟨heads, tails⟩ := List.cons.inj same
      rw [apart first.1 second.1 heads, ih first.2 second.2 tails]

/-- **The identities stay when a newer block comes exactly when no older one shows its time.** -/
theorem identities_kept_iff {newer : List Char} {markers : List (List Char)}
    (free : lib.CollisionFree (newer :: markers)) :
    ((identities (newer :: markers)).map lib.digest).tail = (identities markers).map lib.digest ↔
      newer ∉ markers := by
  rw [← @numbered_bump_iff _ _ (fun _ => 0)]
  unfold identities
  rw [numbered, List.map_cons, List.map_cons, List.tail_cons]
  refine ⟨fun same => ?_, fun same => by rw [same]⟩
  have names : Function.Injective fun entry : List Char × Nat => blockIdentity entry.1 entry.2 :=
    fun one two same => by
      obtain ⟨names, ordinals⟩ := blockIdentity_inj same
      exact Prod.ext names ordinals
  -- the ordinals of one block more are at most the blocks
  have within : ∀ count : List Char → Nat, (∀ marker, count marker ≤ 1) →
      ∀ identity ∈ (numbered count markers).map fun entry => blockIdentity entry.1 entry.2,
        identity ∈ {identity | ∃ marker ∈ newer :: markers, ∃ ordinal < (newer :: markers).length,
          identity = blockIdentity marker ordinal} := by
    intro count few identity member
    obtain ⟨⟨marker, ordinal⟩, among, rfl⟩ := List.mem_map.mp member
    have below := lt_of_mem among
    have least := few marker
    have named : marker ∈ markers := by
      rw [← map_numbered count markers]
      exact List.mem_map.mpr ⟨_, among, rfl⟩
    refine ⟨marker, List.mem_cons_of_mem _ named, ordinal, ?_, rfl⟩
    rw [List.length_cons]
    omega
  refine List.map_injective_iff.mpr names (eq_of_map_eq free (within _ ?_) (within _ ?_) same)
  · intro marker
    unfold bump
    by_cases here : marker = newer
    · rw [here, Function.update_self]
    · rw [Function.update_of_ne here]
      exact Nat.zero_le 1
  · exact fun _ => Nat.zero_le 1

end Adapter

/-! ### Feeds -/

/-- **The content of an entry is made of these blocks**, behind markup that shows none. The entry names
an incident and is dated. -/
structure MadeOf (lib : Adapter) (entry : Entry) (blocks : List Block) : Prop where
  incident : ∃ incident, lib.incidentId.search (text entry.id) = some incident
  dated : ∃ clock ahead, lib.fromIsoFormat (Adapter.zoned (Adapter.stampText entry)) =
    some (clock, ahead)
  content : ∃ lead, Lacks "<small>" lead ∧
    lib.unescaped (text entry.content) = .ok (lead ++ Block.render blocks)
  full : blocks ≠ []

namespace Adapter

variable {lib : Adapter} {provider : String}

/-- What is parsed of such an entry. -/
theorem entryUpdates_madeOf {entry : Entry} {blocks : List Block} {updates : List IncidentUpdate}
    {incident : Regex.Match Char} (made : MadeOf lib entry blocks)
    (named : lib.incidentId.search (text entry.id) = some incident)
    (done : lib.entryUpdates provider entry = .ok updates) :
    ∃ revised, List.Forall₂ (lib.RecordOf
        ⟨provider, incidentOf incident, text entry.title, revised⟩) (blocks.map Block.found) updates ∧
      updates.map IncidentUpdate.updateId =
        (identities (blocks.map Block.marker)).map lib.digest := by
  obtain ⟨clock, ahead, dated⟩ := made.dated
  obtain ⟨lead, clear, escaped⟩ := made.content
  obtain ⟨result, read⟩ := entryUpdates_read done
  rcases parseIso_eq_ok.mp read with ⟨missing, -⟩ | ⟨_, _, revised, -, -, rfl⟩
  · rw [dated] at missing
    exact absurd missing nofun
  have all := Block.findAll_render clear blocks
  have full : update.findAll (lead ++ Block.render blocks) ≠ [] := by
    rw [all]
    exact fun empty => made.full (List.map_eq_nil_iff.mp empty)
  rw [entryUpdates_blocks named read escaped full, all] at done
  refine ⟨revised, blockUpdates_records done, ?_⟩
  rw [blockUpdates_ids done, List.map_map]
  unfold identities
  rw [List.map_map]
  rfl

/-- What the records of an entry share. -/
theorem RecordOf.shared {heading : Heading} {found : Regex.Match Char} {u : IncidentUpdate}
    (record : lib.RecordOf heading found u) : u.provider = heading.provider ∧
      u.incidentId = String.ofList heading.incidentId ∧
      u.text = String.ofList (plain (bodyOf found)) := by
  obtain ⟨stamp, ordinal, -, rfl⟩ := record
  exact ⟨rfl, rfl, rfl⟩

theorem shared_of_records {heading : Heading} {blocks : List (Regex.Match Char)}
    {updates : List IncidentUpdate} (records : List.Forall₂ (lib.RecordOf heading) blocks updates) :
    ∀ u ∈ updates, u.provider = heading.provider ∧
      u.incidentId = String.ofList heading.incidentId := by
  induction records with
  | nil => exact fun u member => absurd member List.not_mem_nil
  | cons record _ ih =>
    exact List.forall_mem_cons.mpr ⟨⟨record.shared.1, record.shared.2.1⟩, ih⟩

theorem shared_of_markupUpdates {heading : Heading} {markup : List Char}
    {updates : List IncidentUpdate} (done : lib.markupUpdates heading markup = .ok updates) :
    ∀ u ∈ updates, u.provider = heading.provider ∧
      u.incidentId = String.ofList heading.incidentId := by
  unfold markupUpdates at done
  cases blocks : update.findAll markup with
  | cons block later =>
    rw [blocks] at done
    exact shared_of_records (blockUpdates_records done)
  | nil =>
    rw [blocks] at done
    cases line : statusLine.search markup with
    | some single =>
      rw [line] at done
      obtain rfl := Except.ok.inj done
      exact List.forall_mem_singleton.mpr ⟨rfl, rfl⟩
    | none =>
      rw [line] at done
      obtain rfl := Except.ok.inj done
      unfold fallbackUpdates
      by_cases blank : strip ((plain markup).take fallbackMaxChars) = []
      · rw [if_pos blank]
        exact fun u member => absurd member List.not_mem_nil
      · rw [if_neg blank]
        exact List.forall_mem_singleton.mpr ⟨rfl, rfl⟩

theorem shared_of_entryUpdates {entry : Entry} {updates : List IncidentUpdate}
    (done : lib.entryUpdates provider entry = .ok updates) : ∀ u ∈ updates, u.provider = provider ∧
      ∃ id found, lib.incidentId.search id = some found ∧
        u.incidentId = String.ofList (incidentOf found) := by
  obtain ⟨result, read⟩ := entryUpdates_read done
  cases found : lib.incidentId.search (text entry.id) with
  | none =>
    rw [entryUpdates_skipped read (Or.inl found)] at done
    obtain rfl := Except.ok.inj done
    exact fun u member => absurd member List.not_mem_nil
  | some incident =>
    cases result with
    | none =>
      rw [entryUpdates_skipped read (Or.inr rfl)] at done
      obtain rfl := Except.ok.inj done
      exact fun u member => absurd member List.not_mem_nil
    | some revised =>
      rw [entryUpdates_usable found read] at done
      obtain ⟨markup, -, done⟩ := bind_eq_ok.mp done
      intro u member
      obtain ⟨same, named⟩ := shared_of_markupUpdates done u member
      exact ⟨same, _, incident, found, named⟩

/-- **Every update of a feed** has its provider, and an incident id that was found in an entry. -/
theorem shared_of_parseAtom {feed : List Char} {updates : List IncidentUpdate}
    (done : lib.parseAtom provider feed = .ok updates) : ∀ u ∈ updates, u.provider = provider ∧
      ∃ id found, lib.incidentId.search id = some found ∧
        u.incidentId = String.ofList (incidentOf found) := by
  unfold parseAtom at done
  split_ifs at done with declares
  · obtain rfl := Except.ok.inj done
    exact fun u member => absurd member List.not_mem_nil
  cases tree : lib.fromString feed with
  | none =>
    rw [tree] at done
    obtain rfl := Except.ok.inj done
    exact fun u member => absurd member List.not_mem_nil
  | some entries =>
    rw [tree] at done
    obtain ⟨all, loop, done⟩ := bind_eq_ok.mp done
    obtain rfl := Except.ok.inj done
    intro u member
    obtain ⟨entry, -, part, parsed, inside⟩ :=
      of_mem_entriesUpdates loop ((List.mem_insertionSort _).mp member)
    exact shared_of_entryUpdates parsed u inside

/-- Records of one incident with the same ids have the same keys. -/
theorem same_keys {heading heading' : Heading} {older later : List IncidentUpdate}
    (mine : ∀ u ∈ older, u.provider = heading.provider ∧
      u.incidentId = String.ofList heading.incidentId)
    (theirs : ∀ u ∈ later, u.provider = heading'.provider ∧
      u.incidentId = String.ofList heading'.incidentId)
    (provider : heading'.provider = heading.provider)
    (incident : heading'.incidentId = heading.incidentId)
    (ids : older.map IncidentUpdate.updateId = later.map IncidentUpdate.updateId) :
    List.Forall₂ (fun u v => v.updateId = u.updateId ∧ v.dedupKey = u.dedupKey) older later := by
  have pairs : List.Forall₂ (fun u v => u.updateId = v.updateId) older later := by
    rw [← List.forall₂_eq_eq_eq, List.forall₂_map_left_iff, List.forall₂_map_right_iff] at ids
    exact ids
  induction pairs with
  | nil => exact .nil
  | @cons u v older later id pairs ih =>
    obtain ⟨here, mine⟩ := List.forall_mem_cons.mp mine
    obtain ⟨there, theirs⟩ := List.forall_mem_cons.mp theirs
    refine .cons ⟨id.symm, ?_⟩ (ih mine theirs (List.cons.inj ids).2)
    unfold IncidentUpdate.dedupKey
    rw [here.1, here.2, there.1, there.2, provider, incident, id]

/-- **Updates keep their identity when a newer one comes, and share none**: the updates of `before`
and those behind the first of `after` are of the same blocks, one by one, and have the same ids. -/
def KeepsIdentity (lib : Adapter) (provider : String) (before after : Entry) (blocks : List Block)
    (out out' : List IncidentUpdate) : Prop :=
  ∃ older first later, lib.entryUpdates provider before = .ok older ∧
    lib.entryUpdates provider after = .ok (first :: later) ∧
    (∀ u ∈ older, u ∈ out) ∧ (∀ u ∈ first :: later, u ∈ out') ∧
    List.Forall₂ (fun block u => u.text = String.ofList (plain block.body)) blocks older ∧
    List.Forall₂ (fun block u => u.text = String.ofList (plain block.body)) blocks later ∧
    List.Forall₂ (fun u v => v.updateId = u.updateId ∧ v.dedupKey = u.dedupKey) older later ∧
    (older.map IncidentUpdate.updateId).Nodup ∧
    ((first :: later).map IncidentUpdate.updateId).Nodup

/-- **Identities are kept exactly when no older update shows the newer one's time.** -/
theorem keepsIdentity_iff {feed feed' : List Char} {entries entries' : List Entry}
    {before after : Entry} {newer : Block} {blocks : List Block} {out out' : List IncidentUpdate}
    (declares : declaresDoctype feed = false) (tree : lib.fromString feed = some entries)
    (member : before ∈ entries) (done : lib.parseAtom provider feed = .ok out)
    (declares' : declaresDoctype feed' = false) (tree' : lib.fromString feed' = some entries')
    (member' : after ∈ entries') (done' : lib.parseAtom provider feed' = .ok out')
    (same : text after.id = text before.id) (made : MadeOf lib before blocks)
    (made' : MadeOf lib after (newer :: blocks))
    (free : lib.CollisionFree ((newer :: blocks).map Block.marker)) :
    lib.KeepsIdentity provider before after blocks out out' ↔
      newer.marker ∉ blocks.map Block.marker := by
  obtain ⟨incident, named⟩ := made.incident
  obtain ⟨older, parsed, within⟩ := mem_parseAtom declares tree member done
  obtain ⟨all, parsed', within'⟩ := mem_parseAtom declares' tree' member' done'
  obtain ⟨revised, records, ids⟩ := entryUpdates_madeOf made named parsed
  obtain ⟨revised', records', ids'⟩ := entryUpdates_madeOf made' (by rw [same, named]) parsed'
  obtain ⟨first, later, record, recorded, rfl⟩ := List.forall₂_cons_left_iff.mp records'
  have kept := @identities_kept_iff lib newer.marker (blocks.map Block.marker) free
  have tails : later.map IncidentUpdate.updateId =
      ((identities ((newer :: blocks).map Block.marker)).map lib.digest).tail := by
    rw [← ids', List.map_cons, List.tail_cons]
  rw [← kept]
  constructor
  · rintro ⟨older', first', later', same', same'', -, -, -, -, equal, -, -⟩
    rw [parsed] at same'
    rw [parsed'] at same''
    obtain rfl := Except.ok.inj same'
    obtain ⟨rfl, rfl⟩ := List.cons.inj (Except.ok.inj same'')
    show ((identities ((newer :: blocks).map Block.marker)).map lib.digest).tail = _
    rw [← tails, ← ids]
    rw [← List.forall₂_eq_eq_eq, List.forall₂_map_left_iff, List.forall₂_map_right_iff]
    exact List.Forall₂.flip (equal.imp fun u v both => both.1)
  · intro equal
    have texts : ∀ {heading : Heading} {updates : List IncidentUpdate},
        List.Forall₂ (lib.RecordOf heading) (blocks.map Block.found) updates →
          List.Forall₂ (fun block u => u.text = String.ofList (plain block.body)) blocks updates := by
      intro heading updates records
      rw [List.forall₂_map_left_iff] at records
      exact records.imp fun _ _ record => record.shared.2.2
    refine ⟨older, first, later, parsed, parsed', within, within', texts records, texts recorded,
      same_keys (shared_of_records records) (shared_of_records recorded) rfl rfl ?_, ?_, ?_⟩
    · rw [ids, tails]
      exact equal.symm
    · rw [ids]
      exact nodup_ids free.of_cons
    · rw [ids']
      exact nodup_ids free

end Adapter

/-! ### Two updates of one minute -/

/-- The first update of an incident. -/
def loginsFail : Block where
  time := "Aug 18, 12:00 UTC".toList
  status := "Investigating".toList
  body := "Logins fail.</p>".toList
  afterDash := [' ']
  timeEnds := by decide +kernel
  statusEnds := by decide +kernel
  bodyEnds := by decide +kernel
  spaces := fun gap member =>
    List.all_eq_true.mp ((@List.all_eq_true _ (fun gap => gap.all isSpace) _).mp rfl gap member)
  visible := by
    rintro c ⟨⟩
    rfl

/-- The second, within the same minute. -/
def fixIsOut : Block where
  time := "Aug 18, 12:00 UTC".toList
  status := "Monitoring".toList
  body := "A fix is out.</p><p>".toList
  afterDash := [' ']
  timeEnds := by decide +kernel
  statusEnds := by decide +kernel
  bodyEnds := by decide +kernel
  spaces := fun gap member =>
    List.all_eq_true.mp ((@List.all_eq_true _ (fun gap => gap.all isSpace) _).mp rfl gap member)
  visible := by
    rintro c ⟨⟩
    rfl

/-- The incident's entry when these are its updates. -/
def minuteEntry (blocks : List Block) : Entry where
  id := some "tag:status.openai.com,2005:Incident/7".toList
  updated := some "2026-08-18T12:00:00Z".toList
  title := some "Login".toList
  content := some ("<p>".toList ++ Block.render blocks)

theorem noon_fits : Fits 2026 8 18 12 0 0 0 := by decide

theorem noon_supported : (1 : Int) ≤ 2026 ∧ (2026 : Int) ≤ 9999 := by decide

/-- The feed with this entry alone. -/
def minuteFeed (blocks : List Block) : List Char :=
  "<feed xmlns='http://www.w3.org/2005/Atom'><entry>".toList ++
    ("<id>tag:status.openai.com,2005:Incident/7</id>".toList ++
      ("<updated>2026-08-18T12:00:00Z</updated><title>Login</title><content>".toList ++
        (("<p>".toList ++ Block.render blocks).flatMap (fun c =>
          if c = '<' then "&lt;".toList else if c = '>' then "&gt;".toList else [c]) ++
            "</content></entry></feed>".toList)))

def noon : DateTime where
  year := 2026
  month := 8
  day := 18
  hour := 12
  minute := 0
  second := 0
  microsecond := 0
  fits := noon_fits
  supported := noon_supported

/-- The libraries on the two feeds. -/
def minuteAdapter : Adapter where
  fromString feed :=
    if feed = minuteFeed [loginsFail] then some [minuteEntry [loginsFail]]
    else if feed = minuteFeed [fixIsOut, loginsFail] then some [minuteEntry [fixIsOut, loginsFail]]
    else none
  fromIsoFormat raw :=
    if raw = "2026-08-18T12:00:00+00:00".toList then some (noon.toClock, 0) else none
  isoformat _ := "2026-08-18T12:00:00+00:00".toList
  isWord c := c.isAlphanum || c == '_'
  lower text := text.map Char.toLower
  html5 _ := none
  intMaxStrDigits := 4300
  digest text :=
    if text = "Aug 18, 12:00 UTC#0".toList then "967aa107deda"
    else if text = "Aug 18, 12:00 UTC#1".toList then "2d48b61a7d92"
    else if text = "Logins fail.".toList then "74a76a4ddfe3"
    else if text = "A fix is out.".toList then "c0541cbb1330" else ""

/-- A record of the incident at noon. -/
def minuteUpdate (updateId status text bodyDigest : String) : IncidentUpdate where
  provider := "openai"
  incidentId := "7"
  updateId := updateId
  createdAt := noon.instant
  status := status
  text := text
  incidentName := "Login"
  bodyDigest := bodyDigest

def olderUpdate : IncidentUpdate :=
  minuteUpdate "967aa107deda" "investigating" "Logins fail." "74a76a4ddfe3"

def newerUpdate : IncidentUpdate :=
  minuteUpdate "967aa107deda" "monitoring" "A fix is out." "c0541cbb1330"

/-- The older update once the newer one is there. -/
def movedUpdate : IncidentUpdate :=
  minuteUpdate "2d48b61a7d92" "investigating" "Logins fail." "74a76a4ddfe3"

/-- What is evaluated of the two feeds. -/
theorem minute_evaluated :
    (minuteAdapter.entryUpdates "openai" (minuteEntry [loginsFail]) = .ok [olderUpdate] ∧
      minuteAdapter.entryUpdates "openai" (minuteEntry [fixIsOut, loginsFail]) =
        .ok [newerUpdate, movedUpdate]) ∧
    (Adapter.declaresDoctype (minuteFeed [loginsFail]) = false ∧
      Adapter.declaresDoctype (minuteFeed [fixIsOut, loginsFail]) = false) ∧
    minuteFeed [fixIsOut, loginsFail] ≠ minuteFeed [loginsFail] ∧
    (MadeOf minuteAdapter (minuteEntry [loginsFail]) [loginsFail] ∧
      MadeOf minuteAdapter (minuteEntry [fixIsOut, loginsFail]) [fixIsOut, loginsFail]) ∧
    [fixIsOut, loginsFail].map Block.marker =
      ["Aug 18, 12:00 UTC".toList, "Aug 18, 12:00 UTC".toList] ∧
    (Adapter.blockIdentity "Aug 18, 12:00 UTC".toList 0 = "Aug 18, 12:00 UTC#0".toList ∧
      Adapter.blockIdentity "Aug 18, 12:00 UTC".toList 1 = "Aug 18, 12:00 UTC#1".toList ∧
      minuteAdapter.digest "Aug 18, 12:00 UTC#0".toList ≠
        minuteAdapter.digest "Aug 18, 12:00 UTC#1".toList) ∧
    movedUpdate.dedupKey ≠ olderUpdate.dedupKey := by
  have incident : minuteAdapter.incidentId.search (text (minuteEntry []).id) =
      some ⟨"Incident/7".toList, [(1, "7".toList)]⟩ := by decide +kernel
  have dated : minuteAdapter.fromIsoFormat (Adapter.zoned (Adapter.stampText (minuteEntry []))) =
      some (noon.toClock, 0) := by decide +kernel
  have made : MadeOf minuteAdapter (minuteEntry [loginsFail]) [loginsFail] :=
    ⟨⟨_, incident⟩, ⟨_, _, dated⟩, ⟨"<p>".toList, by decide +kernel, by decide +kernel⟩, by simp⟩
  have made' : MadeOf minuteAdapter (minuteEntry [fixIsOut, loginsFail]) [fixIsOut, loginsFail] :=
    ⟨⟨_, incident⟩, ⟨_, _, dated⟩, ⟨"<p>".toList, by decide +kernel, by decide +kernel⟩, by simp⟩
  exact ⟨⟨by decide +kernel, by decide +kernel⟩,
    ⟨Adapter.declaresDoctype_of_clear (by decide +kernel),
      Adapter.declaresDoctype_of_clear (by decide +kernel)⟩,
    by decide +kernel, ⟨made, made'⟩, by decide +kernel,
    ⟨by decide +kernel, by decide +kernel, by decide +kernel⟩, by decide +kernel⟩

theorem minute_older : minuteAdapter.entryUpdates "openai" (minuteEntry [loginsFail]) =
    .ok [olderUpdate] :=
  minute_evaluated.1.1

theorem minute_all : minuteAdapter.entryUpdates "openai" (minuteEntry [fixIsOut, loginsFail]) =
    .ok [newerUpdate, movedUpdate] :=
  minute_evaluated.1.2

theorem minute_declares : Adapter.declaresDoctype (minuteFeed [loginsFail]) = false ∧
    Adapter.declaresDoctype (minuteFeed [fixIsOut, loginsFail]) = false :=
  minute_evaluated.2.1

theorem minute_trees :
    minuteAdapter.fromString (minuteFeed [loginsFail]) = some [minuteEntry [loginsFail]] ∧
    minuteAdapter.fromString (minuteFeed [fixIsOut, loginsFail]) =
      some [minuteEntry [fixIsOut, loginsFail]] := by
  obtain ⟨-, -, longer, -⟩ := minute_evaluated
  unfold minuteAdapter
  refine ⟨?_, ?_⟩
  · simp only [if_true]
  · simp only [longer, if_true, if_false]

theorem minute_parsed :
    minuteAdapter.parseAtom "openai" (minuteFeed [loginsFail]) = .ok [olderUpdate] ∧
    minuteAdapter.parseAtom "openai" (minuteFeed [fixIsOut, loginsFail]) =
      .ok [newerUpdate, movedUpdate] := by
  obtain ⟨clear, clear'⟩ := minute_declares
  obtain ⟨tree, tree'⟩ := minute_trees
  constructor
  · rw [Adapter.parseAtom_eq clear tree, Adapter.entriesUpdates, minute_older]
    rfl
  · rw [Adapter.parseAtom_eq clear' tree', Adapter.entriesUpdates, minute_all]
    rfl

theorem minute_free :
    minuteAdapter.CollisionFree ([fixIsOut, loginsFail].map Block.marker) := by
  obtain ⟨-, -, -, -, shown, ⟨zero, one', apart⟩, -⟩ := minute_evaluated
  rw [shown]
  have two : ∀ identity ∈ {identity | ∃ marker ∈ ["Aug 18, 12:00 UTC".toList,
      "Aug 18, 12:00 UTC".toList], ∃ ordinal < ["Aug 18, 12:00 UTC".toList,
        "Aug 18, 12:00 UTC".toList].length, identity = Adapter.blockIdentity marker ordinal},
      identity = "Aug 18, 12:00 UTC#0".toList ∨ identity = "Aug 18, 12:00 UTC#1".toList := by
    rintro identity ⟨marker, among, ordinal, below, rfl⟩
    have same : marker = "Aug 18, 12:00 UTC".toList := by simpa using among
    rw [same]
    have few : ordinal = 0 ∨ ordinal = 1 := by
      simp only [List.length_cons, List.length_nil] at below
      omega
    rcases few with rfl | rfl
    · exact Or.inl zero
    · exact Or.inr one'
  intro one first other second same
  rcases two one first with rfl | rfl <;> rcases two other second with rfl | rfl
  · rfl
  · exact absurd same apart
  · exact absurd same.symm apart
  · rfl

theorem keepsIdentity_iff_minute :
    minuteAdapter.KeepsIdentity "openai" (minuteEntry [loginsFail])
        (minuteEntry [fixIsOut, loginsFail]) [loginsFail] [olderUpdate] [newerUpdate, movedUpdate] ↔
      fixIsOut.marker ∉ [loginsFail].map Block.marker := by
  obtain ⟨clear, clear'⟩ := minute_declares
  obtain ⟨tree, tree'⟩ := minute_trees
  obtain ⟨parsed, parsed'⟩ := minute_parsed
  obtain ⟨-, -, -, ⟨made, made'⟩, -⟩ := minute_evaluated
  exact Adapter.keepsIdentity_iff clear tree (List.mem_singleton_self _) parsed clear' tree'
    (List.mem_singleton_self _) parsed' rfl made made' minute_free

/-- **An update of the same minute takes the older one's identity**, and the older one gets another. -/
theorem same_minute_moves_identity :
    minuteAdapter.parseAtom "openai" (minuteFeed [loginsFail]) = .ok [olderUpdate] ∧
    minuteAdapter.parseAtom "openai" (minuteFeed [fixIsOut, loginsFail]) =
      .ok [newerUpdate, movedUpdate] ∧
    newerUpdate.dedupKey = olderUpdate.dedupKey ∧ movedUpdate.dedupKey ≠ olderUpdate.dedupKey ∧
    ¬ minuteAdapter.KeepsIdentity "openai" (minuteEntry [loginsFail])
      (minuteEntry [fixIsOut, loginsFail]) [loginsFail] [olderUpdate]
        [newerUpdate, movedUpdate] := by
  obtain ⟨-, -, -, -, -, -, moved⟩ := minute_evaluated
  refine ⟨minute_parsed.1, minute_parsed.2, rfl, moved, ?_⟩
  rintro ⟨older, first, later, done, done', -, -, -, -, same, -, -⟩
  rw [minute_older] at done
  rw [minute_all] at done'
  obtain rfl := Except.ok.inj done
  obtain ⟨-, rfl⟩ := List.cons.inj (Except.ok.inj done')
  obtain ⟨id, -⟩ := (List.forall₂_cons.mp same).1
  exact absurd id (by decide)

end Freshet.Ingest
