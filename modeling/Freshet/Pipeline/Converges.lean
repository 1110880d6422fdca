/-
**The index against the feed.**

The stream job lets the first row of each wording of an update through, and the worker overwrites the
chunks of the update with each row that comes. So what stays in the index is the wording that was the
last to be new (`LastNew`), under the title that it had then. An edit that is taken back brings no new
wording, and neither does a new title.

* **`converges_iff`** — the last sweep's updates are stored as they read now exactly when the wording
  that was the last to be new gives the same chunks.
* **`reverted_edit_stays`** — an edit that is taken back stays in the index.
-/

import Freshet.Ingest.Identity
import Freshet.Pipeline.Keys
import Freshet.Pipeline.LastWrite

namespace Freshet.Pipeline

open Freshet.Lib Freshet.Ingest Freshet.Stream
open Freshet.Kafka (Exn)

/-! ### From the feed to the index -/

/-- The text of an update as it reads now: `incident_name + ': ' + body`. -/
def currentText (u : IncidentUpdate) : List Char := (u.incidentName ++ ": " ++ u.text).toList

/-- **The sweeps of a feed**, which is another each time; a sweep is what the adapter makes of it. -/
def FeedSweeps (lib : Adapter) (provider : String) (feeds : List (List Char))
    (sweeps : List (List IncidentUpdate)) : Prop :=
  List.Forall₂ (fun feed sweep => lib.parseAtom provider feed = .ok sweep) feeds sweeps

/-- A message of the poller, and when the stream job reads it. -/
structure Arrival where
  update : IncidentUpdate
  procTime : Int
deriving DecidableEq, Repr

def Arrival.row (library : Library) (readStamp : String → Option Int) (arrival : Arrival) :
    RawIncident :=
  received readStamp (toMessage library arrival.update) arrival.procTime

/-- **Every message arrives**, in order among those of its key. -/
def ArrivedInOrder (sweeps : List (List IncidentUpdate)) (arrivals : List Arrival) : Prop :=
  ∀ key, (arrivals.map Arrival.update).filter (fun u => u.partitionKey = key) =
    sweeps.flatten.filter fun u => u.partitionKey = key

/-- **The topic of the normalized updates.** A row goes to the partition of its incident, and the
worker reads the id and the text of the row. -/
structure SinkTopic (around : Surroundings) (place : Option String → Int)
    (encode : NormalizedUpdate → String) (rows : List NormalizedUpdate)
    (topic : Int → List String) : Prop where
  messages : ∀ p, topic p = (rows.filter fun row => place row.incidentId = p).map encode
  readBack : ∀ row ∈ rows, ∃ fields, around.validate (encode row) = .ok fields ∧
    fields.eventId = row.eventId ∧ some (String.ofList fields.text) = row.text

/-- The number and the text of each chunk. -/
def chunkRows (chunks : List (List Char)) : List (Option Nat × List Char) :=
  chunks.zipIdx.map fun (chunk, i) => (some i, chunk)

/-- **The chunks stored under the update's key are those of its text.** -/
def StoredAsShown (index : Index) (u : IncidentUpdate) : Prop :=
  ((index.contents u.dedupKey).map fun content => (content.1, content.2.1)).Perm
    (chunkRows (chunkText (currentText u)))

/-- **The wording that was the last to be new is the update's own**, as far as the chunks tell. -/
def LastNewIsShown (history : List IncidentUpdate) (u : IncidentUpdate) : Prop :=
  ∃ w, LastNew IncidentUpdate.bodyDigest (history.filter fun v => v.dedupKey = u.dedupKey) w ∧
    chunkText (currentText w) = chunkText (currentText u)

/-! ### Keys -/

section Keys

variable {lib : Adapter} {provider : String} {feeds : List (List Char)}
  {sweeps : List (List IncidentUpdate)}

theorem FeedSweeps.shared (swept : FeedSweeps lib provider feeds sweeps) :
    ∀ u ∈ sweeps.flatten, u.provider = provider ∧ Extracted lib u.incidentId := by
  induction swept with
  | nil => exact fun u member => absurd member List.not_mem_nil
  | cons parsed _ ih =>
    intro u member
    rw [List.flatten_cons] at member
    rcases List.mem_append.mp member with here | later
    · exact Adapter.shared_of_parseAtom parsed u here
    · exact ih u later

/-- **Updates of one key have one identity.** -/
theorem FeedSweeps.apart (swept : FeedSweeps lib provider feeds sweeps)
    (colon : lib.isWord ':' = false) {u v : IncidentUpdate} (first : u ∈ sweeps.flatten)
    (second : v ∈ sweeps.flatten) (same : u.dedupKey = v.dedupKey) :
    u.provider = v.provider ∧ u.incidentId = v.incidentId ∧ u.updateId = v.updateId := by
  obtain ⟨mine, found⟩ := swept.shared u first
  obtain ⟨theirs, found'⟩ := swept.shared v second
  have providers : u.provider = v.provider := mine.trans theirs.symm
  have letters := congrArg String.toList same
  unfold IncidentUpdate.dedupKey at letters
  simp only [String.toList_append, List.append_assoc, providers] at letters
  obtain ⟨incidents, ids⟩ := separator_append_inj (found.noColon colon) (found'.noColon colon)
    (List.append_cancel_left (List.append_cancel_left letters))
  exact ⟨providers, String.toList_injective incidents, String.toList_injective ids⟩

theorem FeedSweeps.partitionKey (swept : FeedSweeps lib provider feeds sweeps)
    (colon : lib.isWord ':' = false) {u v : IncidentUpdate} (first : u ∈ sweeps.flatten)
    (second : v ∈ sweeps.flatten) (same : u.dedupKey = v.dedupKey) :
    u.partitionKey = v.partitionKey := by
  obtain ⟨providers, incidents, -⟩ := swept.apart colon first second same
  unfold IncidentUpdate.partitionKey
  rw [providers, incidents]

end Keys

/-! ### Arrivals -/

section Arrivals

variable {lib : Adapter} {provider : String} {feeds : List (List Char)}
  {sweeps : List (List IncidentUpdate)} {arrivals : List Arrival}

theorem ArrivedInOrder.mem_iff (arrived : ArrivedInOrder sweeps arrivals) {u : IncidentUpdate} :
    u ∈ arrivals.map Arrival.update ↔ u ∈ sweeps.flatten := by
  have mine : ∀ {items : List IncidentUpdate},
      u ∈ items ↔ u ∈ items.filter fun v => v.partitionKey = u.partitionKey := by
    intro items
    rw [List.mem_filter]
    exact ⟨fun member => ⟨member, decide_eq_true rfl⟩, And.left⟩
  rw [mine, arrived u.partitionKey, ← mine]

/-- **The messages of one update arrive in order.** -/
theorem ArrivedInOrder.ofUpdate (arrived : ArrivedInOrder sweeps arrivals)
    (swept : FeedSweeps lib provider feeds sweeps) (colon : lib.isWord ':' = false)
    {u : IncidentUpdate} (member : u ∈ sweeps.flatten) :
    (arrivals.map Arrival.update).filter (fun v => v.dedupKey = u.dedupKey) =
      sweeps.flatten.filter fun v => v.dedupKey = u.dedupKey := by
  have within : ∀ items : List IncidentUpdate, (∀ v ∈ items, v ∈ sweeps.flatten) →
      items.filter (fun v => v.dedupKey = u.dedupKey) =
        (items.filter fun v => v.partitionKey = u.partitionKey).filter
          fun v => v.dedupKey = u.dedupKey := by
    intro items every
    rw [List.filter_filter]
    refine List.filter_congr fun v inside => ?_
    by_cases same : v.dedupKey = u.dedupKey
    · have together := swept.partitionKey colon (every v inside) member same
      simp only [same, together, decide_true, Bool.and_self]
    · simp only [same, decide_false, Bool.false_and]
  rw [within _ fun v inside => arrived.mem_iff.mp inside, within _ fun v inside => inside,
    arrived u.partitionKey]

variable (library : Library) (readStamp : String → Option Int)

/-- The arrivals that the job lets through. -/
def kept (arrivals : List Arrival) : List Arrival :=
  keepFirst (fun arrival => (arrival.row library readStamp).partition) [] arrivals

/-- What is written of an arrival. -/
def Arrival.normalized (arrival : Arrival) : NormalizedUpdate :=
  (arrival.row library readStamp).normalized

variable {library readStamp}

/-- The job writes what it lets through, if it can read the times. -/
theorem normalizedUpdates_arrivals (arrived : ArrivedInOrder sweeps arrivals)
    (stamped : ∀ u ∈ sweeps.flatten, (readStamp (library.isoformatZ u.createdAt)).isSome) :
    normalizedUpdates (arrivals.map (Arrival.row library readStamp)) =
      (kept library readStamp arrivals).map (Arrival.normalized library readStamp) := by
  have every : (arrivals.map (Arrival.row library readStamp)).filter (fun row =>
      row.createdAt.isSome) = arrivals.map (Arrival.row library readStamp) := by
    refine List.filter_eq_self.mpr fun row member => ?_
    obtain ⟨arrival, among, rfl⟩ := List.mem_map.mp member
    exact stamped arrival.update (arrived.mem_iff.mp (List.mem_map_of_mem among))
  unfold normalizedUpdates firsts
  rw [every, keepFirst_map, List.map_map]
  rfl

/-- **Of one update, the first arrival of each wording is let through.** -/
theorem kept_ofUpdate (arrived : ArrivedInOrder sweeps arrivals)
    (swept : FeedSweeps lib provider feeds sweeps) (colon : lib.isWord ':' = false)
    {u : IncidentUpdate} (member : u ∈ sweeps.flatten) :
    ((kept library readStamp arrivals).filter fun arrival =>
        arrival.update.dedupKey = u.dedupKey).map Arrival.update =
      keepFirst IncidentUpdate.bodyDigest []
        (sweeps.flatten.filter fun v => v.dedupKey = u.dedupKey) := by
  have decided : ∀ a b : Arrival,
      (a.row library readStamp).partition = (b.row library readStamp).partition →
        decide (a.update.dedupKey = u.dedupKey) = decide (b.update.dedupKey = u.dedupKey) := by
    intro a b same
    obtain ⟨providers, incidents, ids, -⟩ := RawIncident.Partition.mk.inj same
    have providers : a.update.provider = b.update.provider := Option.some.inj providers
    have incidents : a.update.incidentId = b.update.incidentId := Option.some.inj incidents
    have ids : a.update.updateId = b.update.updateId := Option.some.inj ids
    unfold IncidentUpdate.dedupKey
    rw [providers, incidents, ids]
  -- Within the update only the digest tells two arrivals apart.
  have digests : ∀ a ∈ [] ++ arrivals.filter (fun arrival => arrival.update.dedupKey = u.dedupKey),
      ∀ b ∈ [] ++ arrivals.filter (fun arrival => arrival.update.dedupKey = u.dedupKey),
        (a.row library readStamp).partition = (b.row library readStamp).partition ↔
          a.update.bodyDigest = b.update.bodyDigest := by
    intro a first b second
    obtain ⟨among, mine⟩ := List.mem_filter.mp first
    obtain ⟨among', theirs⟩ := List.mem_filter.mp second
    constructor
    · exact fun same => (RawIncident.Partition.mk.inj same).2.2.2
    · intro same
      obtain ⟨providers, incidents, ids⟩ := swept.apart colon
        (arrived.mem_iff.mp (List.mem_map_of_mem among))
        (arrived.mem_iff.mp (List.mem_map_of_mem among'))
        ((of_decide_eq_true mine).trans (of_decide_eq_true theirs).symm)
      unfold Arrival.row received RawIncident.partition toMessage
      rw [providers, incidents, ids, same]
  unfold kept
  rw [keepFirst_filter _ decided, ← arrived.ofUpdate swept colon member, List.filter_map,
    keepFirst_map]
  exact congrArg (List.map Arrival.update) (keepFirst_key_congr _ digests)

end Arrivals

/-! ### The topic -/

section Topic

variable {around : Surroundings} {place : Option String → Int} {encode : NormalizedUpdate → String}
  {topic : Int → List String} {library : Library} {readStamp : String → Option Int}
  {passed : List Arrival}

/-- What the worker reads of a message. -/
theorem SinkTopic.read
    (sink : SinkTopic around place encode (passed.map (Arrival.normalized library readStamp)) topic)
    {arrival : Arrival} (member : arrival ∈ passed) {ev : Event}
    (parsed : Parsed around (encode (arrival.normalized library readStamp)) ev) :
    ev.eventId = arrival.update.dedupKey ∧ ev.text = currentText arrival.update := by
  obtain ⟨fields, valid, named, text⟩ := sink.readBack _ (List.mem_map_of_mem member)
  obtain ⟨fields', newId, now, valid', rfl⟩ := parsed
  obtain rfl := Except.ok.inj (valid'.symm.trans valid)
  have named : fields'.eventId = some arrival.update.dedupKey := named
  have text : String.ofList fields'.text =
      arrival.update.incidentName ++ ": " ++ arrival.update.text := Option.some.inj text
  constructor
  · show fields'.eventId.getD newId = _
    rw [named]
    rfl
  · show fields'.text = _
    unfold currentText
    rw [← text, String.toList_ofList]

/-- A message is of an arrival, in the partition of its key. -/
theorem SinkTopic.ofVersion
    (sink : SinkTopic around place encode (passed.map (Arrival.normalized library readStamp)) topic)
    {p : Int} {k : Nat} {ev : Event} (version : Version around topic p k ev) :
    ∃ arrival ∈ passed, place (some arrival.update.partitionKey) = p ∧
      ev.eventId = arrival.update.dedupKey := by
  obtain ⟨value, here, parsed⟩ := version
  have member := List.mem_of_getElem? here
  rw [sink.messages] at member
  obtain ⟨row, among, rfl⟩ := List.mem_map.mp member
  obtain ⟨among, placed⟩ := List.mem_filter.mp among
  obtain ⟨arrival, inside, rfl⟩ := List.mem_map.mp among
  exact ⟨arrival, inside, of_decide_eq_true placed, (sink.read inside parsed).1⟩

/-- **It is a log of normalized events**, if the versions of an update are of one incident. -/
theorem SinkTopic.normalized
    (sink : SinkTopic around place encode (passed.map (Arrival.normalized library readStamp)) topic)
    (together : ∀ a ∈ passed, ∀ b ∈ passed, a.update.dedupKey = b.update.dedupKey →
      a.update.partitionKey = b.update.partitionKey) : Normalized around topic := by
  refine ⟨fun p value member => ?_, fun p p' k k' ev ev' version version' same => ?_⟩
  · rw [sink.messages] at member
    obtain ⟨row, among, rfl⟩ := List.mem_map.mp member
    obtain ⟨arrival, inside, rfl⟩ := List.mem_map.mp (List.mem_of_mem_filter among)
    obtain ⟨fields, valid, named, -⟩ := sink.readBack _ (List.mem_map_of_mem inside)
    have read := sink.read inside ⟨fields, "", 0, valid, rfl⟩
    have text : fields.text = currentText arrival.update := read.2
    refine ⟨fields, valid, by rw [named]; rfl, ?_⟩
    have colon : ':' ∈ currentText arrival.update := by
      unfold currentText
      rw [String.toList_append, String.toList_append]
      exact List.mem_append_left _ (List.mem_append_right _ List.mem_cons_self)
    rw [text]
    exact words_ne_nil_of_mem colon (by decide)
  · obtain ⟨a, first, placed, named⟩ := sink.ofVersion version
    obtain ⟨b, second, placed', named'⟩ := sink.ofVersion version'
    rw [← placed, ← placed', together a first b second (named.symm.trans (same.trans named'))]

/-- What is behind an arrival is behind its message. -/
theorem SinkTopic.split
    (sink : SinkTopic around place encode (passed.map (Arrival.normalized library readStamp)) topic)
    {before after : List Arrival} {arrival : Arrival} (split : passed = before ++ arrival :: after) :
    ∃ fronts backs, topic (place (some arrival.update.partitionKey)) =
        fronts ++ encode (arrival.normalized library readStamp) :: backs ∧
      ∀ value ∈ backs, ∃ later ∈ after, value = encode (later.normalized library readStamp) := by
  have own := @List.filter_cons_of_pos _ (fun row : NormalizedUpdate =>
      decide (place row.incidentId = place (some arrival.update.partitionKey)))
    (arrival.normalized library readStamp) (after.map (Arrival.normalized library readStamp))
    (decide_eq_true rfl)
  rw [sink.messages, split, List.map_append, List.map_cons, List.filter_append, own,
    List.map_append, List.map_cons]
  refine ⟨_, _, rfl, fun value member => ?_⟩
  obtain ⟨row, among, rfl⟩ := List.mem_map.mp member
  obtain ⟨later, inside, rfl⟩ := List.mem_map.mp (List.mem_of_mem_filter among)
  exact ⟨later, inside, rfl⟩

/-- **The last arrival of an update is its last version.** -/
theorem SinkTopic.lastVersion
    (sink : SinkTopic around place encode (passed.map (Arrival.normalized library readStamp)) topic)
    {before after : List Arrival} {arrival : Arrival} (split : passed = before ++ arrival :: after)
    (last : ∀ later ∈ after, later.update.dedupKey ≠ arrival.update.dedupKey) :
    ∃ p k ev, LastVersion around topic p k ev ∧ ev.eventId = arrival.update.dedupKey ∧
      ev.text = currentText arrival.update := by
  have member : arrival ∈ passed := by
    rw [split]
    exact List.mem_append_right _ List.mem_cons_self
  have behind : ∀ later ∈ after, later ∈ passed := fun later inside => by
    rw [split]
    exact List.mem_append_right _ (List.mem_cons_of_mem _ inside)
  obtain ⟨fields, valid, -⟩ := sink.readBack _ (List.mem_map_of_mem member)
  have parsed : Parsed around (encode (arrival.normalized library readStamp)) (fields.event "" 0) :=
    ⟨fields, "", 0, valid, rfl⟩
  have read := sink.read member parsed
  obtain ⟨fronts, backs, messages, later⟩ := sink.split split
  refine ⟨place (some arrival.update.partitionKey), fronts.length, _,
    ⟨⟨_, ?_, parsed⟩, fun k' ev' beyond version => ?_⟩, read⟩
  · rw [messages, List.getElem?_append_right (Nat.le_refl _), Nat.sub_self]
    rfl
  · obtain ⟨value, here, parsed'⟩ := version
    obtain ⟨more, rfl⟩ := Nat.exists_eq_add_of_lt beyond
    rw [messages, List.getElem?_append_right (by omega),
      show fronts.length + more + 1 - fronts.length = more + 1 by omega] at here
    obtain ⟨other, inside, rfl⟩ := later value (List.mem_of_getElem? here)
    rw [(sink.read (behind other inside) parsed').1, read.1]
    exact last other inside

end Topic

/-! ### What stays -/

theorem mem_chunkRows {chunks : List (List Char)} {i : Nat} {chunk : List Char} :
    (some i, chunk) ∈ chunkRows chunks ↔ chunks[i]? = some chunk := by
  unfold chunkRows
  constructor
  · intro member
    obtain ⟨⟨chunk', i'⟩, inside, same⟩ := List.mem_map.mp member
    obtain ⟨numbers, rfl⟩ := Prod.mk.inj same
    obtain rfl := Option.some.inj numbers
    exact List.mk_mem_zipIdx_iff_getElem?.mp inside
  · exact fun here => List.mem_map.mpr ⟨(chunk, i), List.mk_mem_zipIdx_iff_getElem?.mpr here, rfl⟩

/-- **The rows tell the chunks**, in any order. -/
theorem chunkRows_perm_iff {one two : List (List Char)} :
    (chunkRows one).Perm (chunkRows two) ↔ one = two := by
  refine ⟨fun perm => List.ext_getElem? fun i => Option.ext fun chunk => ?_, fun same => same ▸ .refl _⟩
  rw [← mem_chunkRows, ← mem_chunkRows]
  exact perm.mem_iff

section Stored

variable {lib : Adapter} {provider : String} {feeds : List (List Char)}
  {sweeps : List (List IncidentUpdate)} {arrivals : List Arrival} {library : Library}
  {readStamp : String → Option Int} {around : Surroundings} {place : Option String → Int}
  {encode : NormalizedUpdate → String} {topic : Int → List String} {config : HandlerConfig}
  {first s : Consumption}

/-- **The wording that was the last to be new is the last version** in the topic. -/
theorem exists_lastVersion (colon : lib.isWord ':' = false)
    (swept : FeedSweeps lib provider feeds sweeps) (arrived : ArrivedInOrder sweeps arrivals)
    (sink : SinkTopic around place encode
      ((kept library readStamp arrivals).map (Arrival.normalized library readStamp)) topic)
    {u : IncidentUpdate} (member : u ∈ sweeps.flatten) :
    ∃ w, LastNew IncidentUpdate.bodyDigest
        (sweeps.flatten.filter fun v => v.dedupKey = u.dedupKey) w ∧
      ∃ p k ev, LastVersion around topic p k ev ∧ ev.eventId = u.dedupKey ∧
        ev.text = currentText w := by
  have lets := @kept_ofUpdate lib provider feeds sweeps arrivals library readStamp arrived swept colon
    u member
  -- One wording has been let through, so there is a last one.
  have full : keepFirst IncidentUpdate.bodyDigest []
      (sweeps.flatten.filter fun v => v.dedupKey = u.dedupKey) ≠ [] := by
    have mine : u ∈ sweeps.flatten.filter fun v => v.dedupKey = u.dedupKey :=
      List.mem_filter.mpr ⟨member, decide_eq_true rfl⟩
    obtain ⟨w, -, -, once⟩ := keepFirst_once IncidentUpdate.bodyDigest mine
    intro none
    rw [none] at once
    cases once
  obtain ⟨front, w, ends⟩ := (List.eq_nil_or_concat' _).resolve_left full
  rw [ends] at lets
  obtain ⟨fronts, lasts, among, -, single⟩ := List.map_eq_append_iff.mp lets
  obtain ⟨arrival, rfl, rfl⟩ := List.map_eq_singleton_iff.mp single
  obtain ⟨before, after, split, own, later⟩ := exists_split_of_filter among
  have own : arrival.update.dedupKey = u.dedupKey := of_decide_eq_true own
  obtain ⟨p, k, ev, last, named, text⟩ := sink.lastVersion split fun other inside same =>
    later other inside (decide_eq_true (same.trans own))
  have newest := (congrArg List.getLast? ends).trans List.getLast?_concat
  exact ⟨arrival.update, (getLast_keepFirst_iff _).mp newest, p, k, ev, last, named.trans own, text⟩

/-- **The chunks of an update are those of the wording that was the last to be new.** -/
theorem storedAsShown_iff (colon : lib.isWord ':' = false)
    (swept : FeedSweeps lib provider feeds sweeps) (arrived : ArrivedInOrder sweeps arrivals)
    (stamped : ∀ u ∈ sweeps.flatten, (readStamp (library.isoformatZ u.createdAt)).isSome)
    (sink : SinkTopic around place encode
      (normalizedUpdates (arrivals.map (Arrival.row library readStamp))) topic)
    (encodes : ¬ around.Fails) (keyed : first.world.index.WellKeyed)
    (new : ∀ p, first.committed p = 0) (lives : Lives around config topic first s)
    (consumed : Consumed topic s) {u : IncidentUpdate} (member : u ∈ sweeps.flatten) :
    StoredAsShown s.world.index u ↔ LastNewIsShown sweeps.flatten u := by
  rw [normalizedUpdates_arrivals arrived stamped] at sink
  have inside : ∀ a ∈ kept library readStamp arrivals, a.update ∈ sweeps.flatten := fun a passed =>
    arrived.mem_iff.mp (List.mem_map_of_mem (mem_of_mem_keepFirst _ passed))
  have normalized := sink.normalized fun a among b among' same =>
    swept.partitionKey colon (inside a among) (inside b among') same
  obtain ⟨w, newest, p, k, ev, last, named, text⟩ :=
    exists_lastVersion colon swept arrived sink member
  have rows : ((s.world.index.contents u.dedupKey).map fun content => (content.1, content.2.1)).Perm
      (chunkRows (chunkText (currentText w))) := by
    have contents := (lives.contents normalized encodes keyed new consumed last).map
      fun content => (content.1, content.2.1)
    rw [named] at contents
    refine contents.trans (List.Perm.of_eq ?_)
    unfold Event.contents chunkRows
    rw [List.map_map, text]
    rfl
  unfold StoredAsShown LastNewIsShown
  rw [rows.congr_left, chunkRows_perm_iff]
  constructor
  · exact fun same => ⟨w, newest, same⟩
  · rintro ⟨w', newest', same⟩
    have once := (getLast_keepFirst_iff _).mpr newest
    rw [(getLast_keepFirst_iff _).mpr newest'] at once
    obtain rfl := Option.some.inj once
    exact same

/-- **The index shows the last sweep exactly when no update has gone back**: of each update, the
wording that was the last to be new, under the title it had then, gives the chunks that the feed's
current text gives. -/
theorem converges_iff {earlier : List (List IncidentUpdate)} {last : List IncidentUpdate}
    (colon : lib.isWord ':' = false) (swept : FeedSweeps lib provider feeds (earlier ++ [last]))
    (arrived : ArrivedInOrder (earlier ++ [last]) arrivals)
    (stamped : ∀ u ∈ (earlier ++ [last]).flatten,
      (readStamp (library.isoformatZ u.createdAt)).isSome)
    (sink : SinkTopic around place encode
      (normalizedUpdates (arrivals.map (Arrival.row library readStamp))) topic)
    (encodes : ¬ around.Fails) (keyed : first.world.index.WellKeyed)
    (new : ∀ p, first.committed p = 0) (lives : Lives around config topic first s)
    (consumed : Consumed topic s) :
    (∀ u ∈ last, StoredAsShown s.world.index u) ↔
      ∀ u ∈ last, LastNewIsShown (earlier ++ [last]).flatten u := by
  refine forall₂_congr fun u member => ?_
  refine storedAsShown_iff colon swept arrived stamped sink encodes keyed new lives consumed ?_
  rw [List.flatten_append]
  exact List.mem_append_right _ (List.mem_flatten.mpr ⟨last, List.mem_singleton_self _, member⟩)

end Stored

/-! ### An edit that is taken back -/

/-- The first update of the incident, edited. -/
def loginsAreSlow : Block :=
  { loginsFail with
    body := "Logins are slow.</p>".toList
    bodyEnds := by decide +kernel }

/-- The libraries on the feed and its edited version. -/
def editedAdapter : Adapter where
  fromString feed :=
    if feed = minuteFeed [loginsFail] then some [minuteEntry [loginsFail]]
    else if feed = minuteFeed [loginsAreSlow] then some [minuteEntry [loginsAreSlow]]
    else none
  fromIsoFormat := minuteAdapter.fromIsoFormat
  isoformat := minuteAdapter.isoformat
  isWord := minuteAdapter.isWord
  lower := minuteAdapter.lower
  html5 := minuteAdapter.html5
  intMaxStrDigits := minuteAdapter.intMaxStrDigits
  digest text :=
    if text = "Logins are slow.".toList then "a76bcd96dba9" else minuteAdapter.digest text

def editedUpdate : IncidentUpdate :=
  minuteUpdate "967aa107deda" "investigating" "Logins are slow." "a76bcd96dba9"

/-- The update is posted, edited, and as it was again. -/
def editedArrivals : List Arrival := [⟨olderUpdate, 0⟩, ⟨editedUpdate, 1⟩, ⟨olderUpdate, 2⟩]

def editedLibrary : Library where
  dumps _ := ""
  isoformatZ _ := "2026-08-18T12:00:00Z"
  hostOf url := url

def noonStamp (stamp : String) : Option Int :=
  if stamp = "2026-08-18T12:00:00Z" then some noon.instant else none

/-- What the sink writes of the update as it was posted. -/
def postedMessage : String :=
  "\x7b\"v\":1,\"event_id\":\"openai:7:967aa107deda\",\"ts\":\"2026-08-18T12:00:00Z\"," ++
    "\"ingested_at\":\"1970-01-01T00:00:00Z\",\"service\":\"openai\",\"source\":\"alert\"," ++
      "\"type\":\"status_update\",\"incident_id\":\"openai:7\"," ++
        "\"text\":\"Login: Logins fail.\",\"title\":\"Login\"\x7d"

def editedMessage : String :=
  "\x7b\"v\":1,\"event_id\":\"openai:7:967aa107deda\",\"ts\":\"2026-08-18T12:00:00Z\"," ++
    "\"ingested_at\":\"1970-01-01T00:00:00.000001Z\",\"service\":\"openai\",\"source\":\"alert\"," ++
      "\"type\":\"status_update\",\"incident_id\":\"openai:7\"," ++
        "\"text\":\"Login: Logins are slow.\",\"title\":\"Login\"\x7d"

def editedTopic (p : Int) : List String := if p = 0 then [postedMessage, editedMessage] else []

def editedEncode (row : NormalizedUpdate) : String :=
  if row.text = some "Login: Logins fail." then postedMessage else editedMessage

def loginFields (text : String) : Fields where
  eventId := some "openai:7:967aa107deda"
  v := 1
  ts := some 0
  service := "openai"
  source := .alert
  type := "status_update"
  severity := none
  incidentId := some "openai:7"
  title := some "Login"
  text := text.toList

def editedAround : Surroundings where
  validate value :=
    if value = postedMessage then .ok (loginFields "Login: Logins fail.")
    else if value = editedMessage then .ok (loginFields "Login: Logins are slow.")
    else .error "1 validation error for Event"
  encodes texts answer := answer = zeroVectors texts

def editedConsumed : Consumption :=
  ((embedder plainConfig (embedderLoop (some 2) none false 50) 3).run
    (calmReader editedAround.validate zeroVectors plainConfig editedTopic) newConsumption).2

/-- What is evaluated of the feed's versions, the sink's rows and the consumed index. -/
theorem edited_evaluated :
    (editedAdapter.entryUpdates "openai" (minuteEntry [loginsFail]) = .ok [olderUpdate] ∧
      editedAdapter.entryUpdates "openai" (minuteEntry [loginsAreSlow]) = .ok [editedUpdate]) ∧
    Adapter.declaresDoctype (minuteFeed [loginsAreSlow]) = false ∧
    minuteFeed [loginsAreSlow] ≠ minuteFeed [loginsFail] ∧
    normalizedUpdates (editedArrivals.map (Arrival.row editedLibrary noonStamp)) =
      [Arrival.normalized editedLibrary noonStamp ⟨olderUpdate, 0⟩,
        Arrival.normalized editedLibrary noonStamp ⟨editedUpdate, 1⟩] ∧
    editedConsumed.committed 0 = 2 :=
  ⟨⟨by decide +kernel, by decide +kernel⟩, Adapter.declaresDoctype_of_clear (by decide +kernel),
    by decide +kernel, by decide +kernel, by decide +kernel⟩

theorem edited_parsed :
    editedAdapter.parseAtom "openai" (minuteFeed [loginsFail]) = .ok [olderUpdate] ∧
    editedAdapter.parseAtom "openai" (minuteFeed [loginsAreSlow]) = .ok [editedUpdate] := by
  obtain ⟨⟨first, second⟩, clear, other, -⟩ := edited_evaluated
  have tree : editedAdapter.fromString (minuteFeed [loginsFail]) =
      some [minuteEntry [loginsFail]] := by
    unfold editedAdapter
    simp only [if_true]
  have tree' : editedAdapter.fromString (minuteFeed [loginsAreSlow]) =
      some [minuteEntry [loginsAreSlow]] := by
    unfold editedAdapter
    simp only [other, if_true, if_false]
  constructor
  · rw [Adapter.parseAtom_eq minute_declares.1 tree, Adapter.entriesUpdates, first]
    rfl
  · rw [Adapter.parseAtom_eq clear tree', Adapter.entriesUpdates, second]
    rfl

theorem edited_lives : Lives editedAround plainConfig editedTopic newConsumption editedConsumed := by
  have life := @Prog.steps_run embedderSig Exn (Option Nat) Consumption
    (embedderMachine editedAround plainConfig editedTopic fun _ => True)
    (calmReader editedAround.validate zeroVectors plainConfig editedTopic)
    (embedder plainConfig (embedderLoop (some 2) none false 50) 3) newConsumption
    (embedderStep_reader fun _ => rfl)
  exact .again .first ⟨rfl, rfl, rfl⟩ life

theorem edited_consumed : Consumed editedTopic editedConsumed := by
  obtain ⟨-, -, -, -, committed⟩ := edited_evaluated
  exact consumed_of_single (fun p other => if_neg other) committed.ge

theorem edited_swept : FeedSweeps editedAdapter "openai"
    [minuteFeed [loginsFail], minuteFeed [loginsAreSlow], minuteFeed [loginsFail]]
    ([[olderUpdate], [editedUpdate]] ++ [[olderUpdate]]) :=
  .cons edited_parsed.1 (.cons edited_parsed.2 (.cons edited_parsed.1 .nil))

theorem edited_sink : SinkTopic editedAround (fun _ => 0) editedEncode
    (normalizedUpdates (editedArrivals.map (Arrival.row editedLibrary noonStamp))) editedTopic := by
  obtain ⟨-, -, -, rows, -⟩ := edited_evaluated
  rw [rows]
  refine ⟨fun p => ?_, ?_⟩
  · by_cases zero : p = 0
    · subst zero
      decide +kernel
    · unfold editedTopic
      rw [if_neg zero, List.filter_eq_nil_iff.mpr fun row _ same => zero (of_decide_eq_true same).symm]
      rfl
  · refine List.forall_mem_cons.mpr ⟨⟨loginFields "Login: Logins fail.", ?_, rfl, ?_⟩,
      List.forall_mem_singleton.mpr ⟨loginFields "Login: Logins are slow.", ?_, rfl, ?_⟩⟩
    · decide +kernel
    · decide +kernel
    · decide +kernel
    · decide +kernel

theorem edited_stamped : ∀ u ∈ ([[olderUpdate], [editedUpdate]] ++ [[olderUpdate]]).flatten,
    (noonStamp (editedLibrary.isoformatZ u.createdAt)).isSome := by
  intro u _
  show (noonStamp "2026-08-18T12:00:00Z").isSome = true
  decide

theorem edited_encodes : ¬ editedAround.Fails := by
  rintro ⟨texts, exn, failed⟩
  cases failed

theorem converges_iff_edited :
    (∀ u ∈ [olderUpdate], StoredAsShown editedConsumed.world.index u) ↔
      ∀ u ∈ [olderUpdate],
        LastNewIsShown ([[olderUpdate], [editedUpdate]] ++ [[olderUpdate]]).flatten u :=
  converges_iff (by decide) edited_swept (fun _ => rfl) edited_stamped edited_sink edited_encodes
    keyed_empty (fun _ => rfl) edited_lives edited_consumed

/-- **An edit that is taken back stays in the index.** The third sweep brings no wording that is new,
so the chunks are those of the second. -/
theorem reverted_edit_stays :
    FeedSweeps editedAdapter "openai"
      [minuteFeed [loginsFail], minuteFeed [loginsAreSlow], minuteFeed [loginsFail]]
      ([[olderUpdate], [editedUpdate]] ++ [[olderUpdate]]) ∧
    ArrivedInOrder ([[olderUpdate], [editedUpdate]] ++ [[olderUpdate]]) editedArrivals ∧
    SinkTopic editedAround (fun _ => 0) editedEncode
      (normalizedUpdates (editedArrivals.map (Arrival.row editedLibrary noonStamp))) editedTopic ∧
    Lives editedAround plainConfig editedTopic newConsumption editedConsumed ∧
    Consumed editedTopic editedConsumed ∧
    ¬ ∀ u ∈ [olderUpdate], StoredAsShown editedConsumed.world.index u := by
  refine ⟨edited_swept, fun _ => rfl, edited_sink, edited_lives, edited_consumed, fun stored => ?_⟩
  have shown := (storedAsShown_iff (by decide) edited_swept (fun _ => rfl) edited_stamped edited_sink
    edited_encodes keyed_empty (fun _ => rfl) edited_lives edited_consumed
    (u := olderUpdate) (by decide)).mp (stored olderUpdate (List.mem_singleton_self _))
  obtain ⟨w, newest, same⟩ := shown
  have last := (getLast_keepFirst_iff IncidentUpdate.bodyDigest).mpr newest
  have edited : (keepFirst IncidentUpdate.bodyDigest []
      (([[olderUpdate], [editedUpdate]] ++ [[olderUpdate]]).flatten.filter
        fun v => v.dedupKey = olderUpdate.dedupKey)).getLast? = some editedUpdate := by decide +kernel
  obtain rfl := Option.some.inj (last.symm.trans edited)
  exact absurd same (by decide +kernel)

end Freshet.Pipeline
