/-
**Embedding is last-write-wins under at-least-once delivery.**

The worker is the consume loop with the handler in its place, on partitions that are read again from
the committed offsets in every life. `Follows` relates the history of the loop to the database:
where the last version of an event has been polled and handled, or was below the offset that the
life started from, the chunks of the event are those of that version (`Fit`). Whatever is handled
before it is overwritten, because it will be handled yet; so a commit, which needs everything polled
to be handled, is past no last version whose chunks are not there (`Safe`).
-/

import Freshet.Kafka.Deliveries
import Freshet.Pipeline.Rewriting

namespace Freshet.Pipeline

open Freshet.Lib Freshet.Kafka
open Freshet.Autopilot (Time)

/-! ### The chunks of a version -/

/-- What the rows of an event say, beside their vectors and times. -/
def Index.contents (index : Index) (eventId : String) :
    List (Option Nat × List Char × Option String × Option Severity × String) :=
  ((index.vectorRecords.entries.map Sigma.snd).filter fun row => row.eventId = eventId).map
    fun row => (row.chunkIndex, row.text, row.title, row.severity, row.type)

/-- What they are to say: the chunks of the text, with the title, severity and type. -/
def Event.contents (ev : Event) :
    List (Option Nat × List Char × Option String × Option Severity × String) :=
  (chunkText ev.text).zipIdx.map fun (chunk, i) =>
    (some i, chunk, ev.recordTitle, ev.severity, ev.type)

/-- The event's chunks are those of this version. -/
structure Fit (index : Index) (ev : Event) : Prop where
  beyond : ∀ i, (chunkText ev.text).length ≤ i → index.chunk ev.eventId i = none
  within : ∀ i chunk, (chunkText ev.text)[i]? = some chunk → ∃ row,
    index.chunk ev.eventId i = some row ∧ row.chunkIndex = some i ∧ row.text = chunk ∧
      row.title = ev.recordTitle ∧ row.severity = ev.severity ∧ row.type = ev.type

theorem Rewritten.fit {before index : Index} {ev : Event} (rewritten : Rewritten before ev index) :
    Fit index ev := by
  refine ⟨rewritten.beyond, fun i chunk here => ?_⟩
  obtain ⟨row, found, numbered, text, title, severity, type, -⟩ := rewritten.within i chunk here
  exact ⟨row, found, numbered, text, title, severity, type⟩

theorem Fit.congr {index index' : Index} {ev : Event} (fit : Fit index ev)
    (same : ∀ i, index'.chunk ev.eventId i = index.chunk ev.eventId i) : Fit index' ev := by
  refine ⟨fun i beyond => ?_, fun i chunk here => ?_⟩
  · rw [same]
    exact fit.beyond i beyond
  · rw [same]
    exact fit.within i chunk here

/-- A row of an event stands under one of the event's keys. -/
theorem mem_contents {index : Index} (keyed : index.WellKeyed) {eventId : String}
    {content : Option Nat × List Char × Option String × Option Severity × String} :
    content ∈ index.contents eventId ↔ ∃ i row, index.chunk eventId i = some row ∧
      content = (some i, row.text, row.title, row.severity, row.type) := by
  unfold Index.contents
  constructor
  · intro member
    obtain ⟨row, inside, rfl⟩ := List.mem_map.mp member
    obtain ⟨inside, same⟩ := List.mem_filter.mp inside
    obtain ⟨⟨key, held⟩, entry, rfl⟩ := List.mem_map.mp inside
    obtain rfl := of_decide_eq_true same
    obtain ⟨i, found⟩ := keyed.exists_chunk (Table.mem_entries_iff.mp entry)
    exact ⟨i, held, found, by rw [(keyed.columns found).2]⟩
  · rintro ⟨i, row, found, rfl⟩
    obtain ⟨event, numbered⟩ := keyed.columns found
    refine List.mem_map.mpr ⟨row, List.mem_filter.mpr ⟨?_, decide_eq_true event⟩, ?_⟩
    · exact List.mem_map.mpr ⟨⟨_, row⟩, Table.mem_entries_iff.mpr found, rfl⟩
    · rw [numbered]

theorem nodup_contents {index : Index} (keyed : index.WellKeyed) (eventId : String) :
    (index.contents eventId).Nodup := by
  unfold Index.contents
  rw [List.filter_map, List.map_map]
  refine List.Nodup.map_on ?_ (index.vectorRecords.nodupKeys.nodup.filter _)
  rintro ⟨key, row⟩ member ⟨key', row'⟩ member' same
  obtain ⟨entry, event⟩ := List.mem_filter.mp member
  obtain ⟨entry', event'⟩ := List.mem_filter.mp member'
  have found := Table.mem_entries_iff.mp entry
  have found' := Table.mem_entries_iff.mp entry'
  obtain ⟨i, numbered, rfl⟩ := keyed key row found
  obtain ⟨i', numbered', rfl⟩ := keyed key' row' found'
  have events : row.eventId = row'.eventId :=
    (of_decide_eq_true event).trans (of_decide_eq_true event').symm
  have numbers : i = i' :=
    Option.some.inj (numbered.symm.trans ((Prod.mk.inj same).1.trans numbered'))
  rw [events, numbers] at found ⊢
  obtain rfl := Option.some.inj (found.symm.trans found')
  rfl

/-- **The rows of an event that fits are exactly the chunks**, each once. -/
theorem Fit.contents {index : Index} {ev : Event} (fit : Fit index ev) (keyed : index.WellKeyed) :
    (index.contents ev.eventId).Perm ev.contents := by
  have chunks : ∀ {content}, content ∈ ev.contents ↔ ∃ i chunk, (chunkText ev.text)[i]? = some chunk ∧
      content = (some i, chunk, ev.recordTitle, ev.severity, ev.type) := by
    intro content
    unfold Event.contents
    constructor
    · intro member
      obtain ⟨⟨chunk, i⟩, inside, rfl⟩ := List.mem_map.mp member
      exact ⟨i, chunk, List.mk_mem_zipIdx_iff_getElem?.mp inside, rfl⟩
    · rintro ⟨i, chunk, here, rfl⟩
      exact List.mem_map.mpr ⟨(chunk, i), List.mk_mem_zipIdx_iff_getElem?.mpr here, rfl⟩
  have distinct : ev.contents.Nodup := by
    refine List.Nodup.of_map Prod.fst ?_
    unfold Event.contents
    rw [List.map_map]
    show ((chunkText ev.text).zipIdx.map (some ∘ Prod.snd)).Nodup
    rw [← List.map_map, List.zipIdx_map_snd]
    exact List.Nodup.map (Option.some_injective _) (List.nodup_range' (h := Nat.one_pos))
  refine (List.perm_ext_iff_of_nodup (nodup_contents keyed _) distinct).mpr fun content => ?_
  rw [mem_contents keyed, chunks]
  constructor
  · rintro ⟨i, row, found, rfl⟩
    have within : i < (chunkText ev.text).length := by
      by_contra outside
      rw [fit.beyond i (Nat.le_of_not_lt outside)] at found
      cases found
    obtain ⟨row', found', -, text, title, severity, type⟩ :=
      fit.within i _ (List.getElem?_eq_getElem within)
    obtain rfl := Option.some.inj (found.symm.trans found')
    exact ⟨i, _, List.getElem?_eq_getElem within, by rw [text, title, severity, type]⟩
  · rintro ⟨i, chunk, here, rfl⟩
    obtain ⟨row, found, -, text, title, severity, type⟩ := fit.within i chunk here
    exact ⟨i, row, found, by rw [text, title, severity, type]⟩

/-! ### The worker -/

/-- The calls of the worker: the consumer's and the handler's. -/
abbrev embedderSig : Sig := consumerSig.sum handlerSig

/-- What `run` passes to `consume_loop`. -/
def embedderLoop (maxMessages idleTimeout : Option Int) (stop : Bool) (commitEvery : Int) :
    LoopConfig where
  maxMessages := maxMessages
  autoCommit := false
  stop := stop
  idleTimeout := idleTimeout
  commitEvery := commitEvery
  preCommit := true
  idleHook := true

/-- What each operation of the loop runs: `handle`, `producer.flush` and `_beat`. -/
def callbacks (config : HandlerConfig) :
    (op : loopSig.Op) → Prog embedderSig Exn (loopSig.Ans op)
  | .inl op => @Prog.perform embedderSig Exn (.inl op)
  | .inr (.handler _ value) => (handler config value).inr
  | .inr .afterHandler => .ret ()
  | .inr .preCommit => (@Prog.perform handlerSig Exn (.inl .flush)).inr
  | .inr .idleHook => (worker .beat).inr

/-- **`run`**, from its first call to the end of `consume_loop`. -/
def embedder (config : HandlerConfig) (loop : LoopConfig) (fuel : Nat) :
    Prog embedderSig Exn (Option Nat) :=
  (consumeLoop loop fuel).interpret (callbacks config)

/-- The offsets of the consumer and of its group in each partition, and the handler's world. -/
structure Consumption where
  position : Int → Nat
  committed : Int → Nat
  world : World

section Machine

variable (around : Surroundings) (config : HandlerConfig) (topic : Int → List String)

/-- What one call answers and does. `poll` hands the messages of a partition out in their order; a
commit that raises may have taken effect. -/
def embedderStep : (op : embedderSig.Op) → Consumption → Except Exn (embedderSig.Ans op) →
    Consumption → Prop
  | .inl .poll, s, answer, after => match answer with
    | .ok (.message m) => ∃ value, (topic m.partition)[s.position m.partition]? = some value ∧
        m = ⟨config.topic, m.partition, s.position m.partition, some value⟩ ∧
        after = { s with
          position := Function.update s.position m.partition (s.position m.partition + 1) }
    | _ => after = s
  | .inl (.commit m), s, answer, after =>
    after = { s with committed := Function.update s.committed m.partition (m.offset + 1).toNat } ∨
      (answer ≠ .ok () ∧ after = s)
  | .inl _, s, _, after => after = s
  | .inr op, s, answer, after => handlerStep around op s.world answer after.world ∧
      after.position = s.position ∧ after.committed = s.committed

/-- The worker's machine, with an assertion to be kept at every call. -/
def embedderMachine (kept : Consumption → Prop) : Machine embedderSig Exn Consumption where
  safe _ s := kept s
  step := embedderStep around config topic

/-- A new life reads on from the committed offsets, with the database as it was left. -/
structure Restarted (s next : Consumption) : Prop where
  position : next.position = s.committed
  committed : next.committed = s.committed
  index : next.world.index = s.world.index

/-- **Any number of lives of the worker**, each stopped at any call, ended or raised. -/
inductive Lives (first : Consumption) : Consumption → Prop
  | first : Lives first first
  | again {s next last : Consumption} {maxMessages idleTimeout : Option Int} {stop : Bool}
      {commitEvery : Int} {fuel : Nat} {rest : Prog embedderSig Exn (Option Nat)}
      (before : Lives first s) (restarted : Restarted s next)
      (life : Prog.Steps (embedderMachine around config topic fun _ => True)
        (embedder config (embedderLoop maxMessages idleTimeout stop commitEvery) fuel) next rest
        last) :
      Lives first last

/-- Every message has been consumed and its offset committed. -/
def Consumed (s : Consumption) : Prop := ∀ p, (topic p).length ≤ s.committed p

end Machine

/-! ### Versions -/

section Versions

variable (around : Surroundings) (topic : Int → List String)

/-- The message with this partition and offset is this version of an event. -/
def Version (p : Int) (k : Nat) (ev : Event) : Prop :=
  ∃ value, (topic p)[k]? = some value ∧ Parsed around value ev

/-- It is the last one of its event. -/
def LastVersion (p : Int) (k : Nat) (ev : Event) : Prop :=
  Version around topic p k ev ∧
    ∀ k' ev', k < k' → Version around topic p k' ev' → ev'.eventId ≠ ev.eventId

/-- **A log of normalized events**: each message is an event that names itself and has a text, and
the versions of an event are in one partition. -/
structure Normalized : Prop where
  valid : ∀ p, ∀ value ∈ topic p, ∃ fields, around.validate value = .ok fields ∧
    fields.eventId.isSome ∧ words fields.text ≠ []
  keyed : ∀ p p' k k' ev ev', Version around topic p k ev → Version around topic p' k' ev' →
    ev.eventId = ev'.eventId → p = p'

/-- The last version of an event, if that is it, has its chunks in the index. -/
def Applied (index : Index) (p : Int) (k : Nat) : Prop :=
  ∀ ev, LastVersion around topic p k ev → Fit index ev

end Versions

variable {around : Surroundings} {config : HandlerConfig} {topic : Int → List String}

/-- What the factories make is not in the chunks. -/
theorem fit_of_parsed {value : String} {fields : Fields} {ev ev' : Event} {index : Index}
    (valid : around.validate value = .ok fields) (named : fields.eventId.isSome)
    (parsed : Parsed around value ev) (parsed' : Parsed around value ev') (fit : Fit index ev) :
    ev'.eventId = ev.eventId ∧ Fit index ev' := by
  obtain ⟨fields₁, newId, now, valid₁, rfl⟩ := parsed
  obtain ⟨fields₂, newId', now', valid₂, rfl⟩ := parsed'
  obtain rfl := Except.ok.inj (valid₁.symm.trans valid)
  obtain rfl := Except.ok.inj (valid₂.symm.trans valid)
  obtain ⟨id, named⟩ := Option.isSome_iff_exists.mp named
  have same : (fields₂.event newId' now').eventId = (fields₂.event newId now).eventId := by
    unfold Fields.event
    simp only [named, Option.getD_some]
  refine ⟨same, fun i beyond => ?_, fun i chunk here => ?_⟩
  · rw [same]
    exact fit.beyond i beyond
  · rw [same]
    exact fit.within i chunk here

/-! ### The handler -/

/-- What the handler has done, wherever it is. -/
def Touched (around : Surroundings) (value : String) (before : Index) (w : World) : Prop :=
  ∃ ev, Parsed around value ev ∧ Rewriting before ev w

/-- **The handler of a normalized event**: it rewrites the event's chunks, and when it returns they
are those of the version. -/
theorem handler_rewrites (encodes : ¬ around.Fails) {value : String} {fields : Fields}
    (valid : around.validate value = .ok fields) (full : words fields.text ≠ []) {w : World}
    (keyed : w.index.WellKeyed) :
    (handler config value).wp (handlerMachine around (Touched around value w.index))
      (Prog.Ends (Touched around value w.index) fun _ after => ∃ ev, Parsed around value ev ∧
        Rewriting w.index ev after ∧ Rewritten w.index ev after.index) w := by
  refine Prog.wp_seq (fun leaving after => leaving = .indexed ∧ ∃ ev, Parsed around value ev ∧
    Rewriting w.index ev after ∧ Rewritten w.index ev after.index) ?_ ?_
  · refine wp_handle (fun p => ⟨fields.event "" 0, ⟨fields, "", 0, valid, rfl⟩, ?_⟩) ?_ ?_
    · have start := Rewriting.start (fields.event "" 0) keyed
      exact ⟨start.keyed, start.others, start.stamps, start.still, start.orphans⟩
    · intro error p now invalid
      rw [valid] at invalid
      cases invalid
    · intro ev parsed
      have rewrites := @handleEvent_rewrites around config value ev w keyed
      have permits : ∀ w', Rewriting w.index ev w' → Touched around value w.index w' :=
        fun w' rewriting => ⟨ev, parsed, rewriting⟩
      refine Prog.wp_mono ?_ (Prog.wp_permit (m := handlerMachine around (Rewriting w.index ev))
        (fun _ w' => permits w') (fun _ _ _ _ step => step) rewrites)
      intro outcome after ends
      cases outcome with
      | error exn => exact permits after ends
      | ok leaving =>
        obtain ⟨rewriting, indexed, why, -⟩ := ends
        have text : ev.text = fields.text := by
          obtain ⟨fields', newId, now, valid', rfl⟩ := parsed
          obtain rfl := Except.ok.inj (valid'.symm.trans valid)
          rfl
        have left : leaving = .indexed := by
          by_contra other
          rcases why other with blank | failed
          · exact full (text ▸ blank)
          · exact encodes failed
        exact ⟨left, ev, parsed, rewriting, indexed left⟩
  · rintro leaving after ⟨rfl, done⟩
    exact done

/-! ### The invariant -/

/-- **What holds everywhere**: the last versions that are committed are applied. -/
structure Safe (around : Surroundings) (topic : Int → List String) (s : Consumption) : Prop where
  keyed : s.world.index.WellKeyed
  applied : ∀ p k, k < s.committed p → Applied around topic s.world.index p k

/-- **The history of the loop against the offsets and the database.** -/
structure Follows (around : Surroundings) (topic : Int → List String) (log : List Entry)
    (s : Consumption) : Prop where
  safe : Safe around topic s
  behind : ∀ p, s.committed p ≤ s.position p
  polled : ∀ m, .polled m ∈ log → ∃ k : Nat, m.offset = (k : Int) ∧ k < s.position m.partition ∧
    m.value = (topic m.partition)[k]?
  waiting : ∀ m, .polled m ∈ log → .handled m ∉ log →
    (s.committed m.partition : Int) ≤ m.offset
  top : ∀ m older, log = .polled m :: older → (s.position m.partition : Int) = m.offset + 1
  done : ∀ p k, k < s.position p → (∀ m, .polled m ∈ log → m.partition = p →
    m.offset = (k : Int) → .handled m ∈ log) → Applied around topic s.world.index p k

section Invariant

variable {s next : Consumption} {log : List Entry}

/-- A new life follows its empty history. -/
theorem Safe.follows (safe : Safe around topic s) (restarted : Restarted s next) :
    Follows around topic [] next := by
  refine ⟨⟨?_, fun p k => ?_⟩, fun p => ?_, fun m member => ?_, fun m member => ?_,
    fun m older same => ?_, fun p k below _ => ?_⟩
  · rw [restarted.index]
    exact safe.keyed
  · rw [restarted.committed, restarted.index]
    exact safe.applied p k
  · rw [restarted.committed, restarted.position]
  · exact absurd member List.not_mem_nil
  · exact absurd member List.not_mem_nil
  · exact absurd same.symm (List.cons_ne_nil _ _)
  · rw [restarted.position] at below
    rw [restarted.index]
    exact safe.applied p k below

/-- A call that touches neither the offsets nor the database. -/
theorem Follows.same (follows : Follows around topic log s) (position : next.position = s.position)
    (committed : next.committed = s.committed) (index : next.world.index = s.world.index) :
    Follows around topic log next := by
  obtain ⟨⟨keyed, applied⟩, behind, polled, waiting, top, done⟩ := follows
  constructor
  · exact ⟨by rw [index]; exact keyed, by rw [index, committed]; exact applied⟩
  · rw [position, committed]
    exact behind
  · rw [position]
    exact polled
  · rw [committed]
    exact waiting
  · rw [position]
    exact top
  · rw [position, index]
    exact done

/-- An entry that is about no message. -/
theorem Follows.cons (follows : Follows around topic log s) {entry : Entry}
    (other : ∀ m, entry ≠ .polled m ∧ entry ≠ .handled m) :
    Follows around topic (entry :: log) s := by
  have polled : ∀ {m}, .polled m ∈ entry :: log → .polled m ∈ log := fun {m} member =>
    (List.mem_cons.mp member).resolve_left fun same => (other m).1 same.symm
  have handled : ∀ {m}, .handled m ∈ entry :: log → .handled m ∈ log := fun {m} member =>
    (List.mem_cons.mp member).resolve_left fun same => (other m).2 same.symm
  refine ⟨follows.safe, follows.behind, fun m member => follows.polled m (polled member),
    fun m member missed => follows.waiting m (polled member) fun inside =>
      missed (List.mem_cons_of_mem _ inside), fun m older same => ?_, fun p k below all => ?_⟩
  · exact absurd (List.cons.inj same).1 (other m).1
  · exact follows.done p k below fun m member same offset =>
      handled (all m (List.mem_cons_of_mem _ member) same offset)

/-- The next message of a partition is polled when all before it are handled. -/
theorem Follows.poll (follows : Follows around topic log s) (all : AllHandled log) {m : Message}
    {value : String} (here : (topic m.partition)[s.position m.partition]? = some value)
    (offset : m.offset = (s.position m.partition : Int)) (decoded : m.value = some value)
    (moved : next = { s with
      position := Function.update s.position m.partition (s.position m.partition + 1) }) :
    Follows around topic (.polled m :: log) next := by
  subst moved
  have own : Function.update s.position m.partition (s.position m.partition + 1) m.partition =
      s.position m.partition + 1 := Function.update_self _ _ _
  have later : ∀ p, s.position p ≤
      Function.update s.position m.partition (s.position m.partition + 1) p := by
    intro p
    rw [Function.update_apply]
    split_ifs with same
    · rw [same]
      exact Nat.le_succ _
    · exact Nat.le_refl _
  refine ⟨⟨follows.safe.keyed, follows.safe.applied⟩, fun p => (follows.behind p).trans (later p), fun x member => ?_,
    fun x member missed => ?_, fun x older same => ?_, fun p k below handled => ?_⟩
  · rcases List.mem_cons.mp member with same | old
    · obtain rfl := Entry.polled.inj same
      exact ⟨s.position x.partition, offset, Nat.lt_of_lt_of_eq (Nat.lt_succ_self _) own.symm,
        decoded.trans here.symm⟩
    · obtain ⟨k, at', below, same⟩ := follows.polled x old
      exact ⟨k, at', Nat.lt_of_lt_of_le below (later _), same⟩
  · rcases List.mem_cons.mp member with same | old
    · obtain rfl := Entry.polled.inj same
      rw [offset]
      exact_mod_cast follows.behind x.partition
    · exact follows.waiting x old fun inside => missed (List.mem_cons_of_mem _ inside)
  · obtain rfl := Entry.polled.inj (List.cons.inj same).1
    rw [offset]
    exact_mod_cast own
  · have inside : ∀ {x}, .handled x ∈ Entry.polled m :: log → .handled x ∈ log := fun member =>
      (List.mem_cons.mp member).resolve_left (by simp)
    have below' : k < Function.update s.position m.partition (s.position m.partition + 1) p := below
    rw [Function.update_apply] at below'
    by_cases new : p = m.partition ∧ k = s.position m.partition
    · -- the message itself is not handled yet
      obtain ⟨rfl, rfl⟩ := new
      have before := (all m).mpr (inside (handled m List.mem_cons_self rfl offset))
      obtain ⟨k, at', under, -⟩ := follows.polled m before
      omega
    · refine follows.done p k ?_ fun x member same at' =>
        inside (handled x (List.mem_cons_of_mem _ member) same at')
      split_ifs at below' with same
      · rw [same]
        have : k ≠ s.position m.partition := fun eq => new ⟨same, eq⟩
        omega
      · exact below'

/-- **A commit** of a message that was polled, when all of them are handled. -/
theorem Follows.commit (follows : Follows around topic log s) (all : AllHandled log) {m : Message}
    (polled : .polled m ∈ log) (moved : next = { s with
      committed := Function.update s.committed m.partition (m.offset + 1).toNat }) :
    Follows around topic (.committed m :: log) next := by
  subst moved
  obtain ⟨k, at', below, -⟩ := follows.polled m polled
  have number : (m.offset + 1).toNat = k + 1 := by omega
  have behind : ∀ p, Function.update s.committed m.partition (m.offset + 1).toNat p ≤
      s.position p := by
    intro p
    rw [Function.update_apply]
    split_ifs with same
    · rw [same, number]
      exact below
    · exact follows.behind p
  have every : ∀ p k, k < s.position p → Applied around topic s.world.index p k :=
    fun p k below => follows.done p k below fun x member _ _ => (all x).mp member
  have applied : Follows around topic log { s with
      committed := Function.update s.committed m.partition (m.offset + 1).toNat } :=
    ⟨⟨follows.safe.keyed, fun p k under => every p k (Nat.lt_of_lt_of_le under (behind p))⟩, behind,
      follows.polled, fun x member missed => absurd ((all x).mp member) missed, follows.top,
      follows.done⟩
  exact applied.cons fun x => ⟨Entry.noConfusion, Entry.noConfusion⟩

end Invariant

/-! ### Every call of the worker -/

section Simulation

variable {s : Consumption} {log older : List Entry} {m : Message} {k : Nat} {ev : Event}

/-- A program of the handler leaves the offsets. -/
theorem wp_handling {α : Type} {program : Handling α} {kept : World → Prop}
    {kept' : Consumption → Prop} {post : Except Exn α → World → Prop}
    (permits : ∀ w, kept w → kept' { s with world := w })
    (holds : program.wp (handlerMachine around kept) post s.world) :
    (program.inr : Prog embedderSig Exn α).wp (embedderMachine around config topic kept')
      (fun outcome after => ∃ w, post outcome w ∧ after = { s with world := w }) s := by
  have simulates : ∀ op w (t : Consumption), t = { s with world := w } →
      (handlerMachine around kept).safe op w →
      (embedderMachine around config topic kept').safe (.inr op) t ∧ ∀ answer t',
        (embedderMachine around config topic kept').step (.inr op) t answer t' →
          ∃ w', (handlerMachine around kept).step op w answer w' ∧ t' = { s with world := w' } := by
    rintro op w t rfl safe
    refine ⟨permits w safe, ?_⟩
    rintro answer ⟨position, committed, world⟩ ⟨step, rfl, rfl⟩
    exact ⟨world, step, rfl⟩
  exact Prog.wp_inr simulates rfl holds

/-- **What a message being handled does to the other last versions**: nothing. -/
theorem applied_of_rewriting (normalized : Normalized around topic)
    (version : Version around topic m.partition k ev)
    (top : s.position m.partition = k + 1) {w : World} (rewriting : Rewriting s.world.index ev w)
    {p : Int} {k' : Nat} (below : k' < s.position p) (other : ¬ (p = m.partition ∧ k' = k))
    (applied : Applied around topic s.world.index p k') : Applied around topic w.index p k' := by
  intro ev' last
  by_cases same : ev'.eventId = ev.eventId
  · obtain rfl := normalized.keyed p m.partition k' k ev' ev last.1 version same
    have differs : k' ≠ k := fun eq => other ⟨rfl, eq⟩
    exact absurd same.symm (last.2 k ev (by omega) version)
  · exact (applied ev' last).congr fun i => rewriting.others ev'.eventId same i

/-- **The message polled last is handled.** -/
theorem simulates_handler (normalized : Normalized around topic) (encodes : ¬ around.Fails)
    {value : String} (follows : Follows around topic (.polled m :: older) s)
    (decoded : m.value = some value) (handled : AllHandled older) (new : .polled m ∉ older) :
    ((handler config value).inr : Prog embedderSig Exn Unit).wp
      (embedderMachine around config topic (Safe around topic))
      (fun answer after => ∃ log', loopStep (.inr (.handler m value)) (.polled m :: older) answer
        log' ∧ Follows around topic log' after) s := by
  obtain ⟨k, offset, below, here⟩ := follows.polled m List.mem_cons_self
  have at' : (topic m.partition)[k]? = some value := here.symm.trans decoded
  have top : s.position m.partition = k + 1 := by
    have top := follows.top m older rfl
    omega
  obtain ⟨fields, valid, named, full⟩ :=
    normalized.valid m.partition value (List.mem_of_getElem? at')
  have missed : .handled m ∉ Entry.polled m :: older := by
    intro inside
    rcases List.mem_cons.mp inside with same | inside
    · cases same
    · exact new ((handled m).mpr inside)
  have late : s.committed m.partition ≤ k := by
    have waiting := follows.waiting m List.mem_cons_self missed
    omega
  have during : ∀ w, Touched around value s.world.index w →
      Safe around topic { s with world := w } ∧ ∀ p k', k' < s.position p →
        ¬ (p = m.partition ∧ k' = k) → Applied around topic s.world.index p k' →
          Applied around topic w.index p k' := by
    rintro w ⟨ev, parsed, rewriting⟩
    have others : ∀ p k', k' < s.position p → ¬ (p = m.partition ∧ k' = k) →
        Applied around topic s.world.index p k' → Applied around topic w.index p k' :=
      fun p k' below other => applied_of_rewriting normalized ⟨value, at', parsed⟩ top rewriting
        below other
    refine ⟨⟨rewriting.keyed, fun p k' under => ?_⟩, others⟩
    refine others p k' (Nat.lt_of_lt_of_le under (follows.behind p)) ?_
      (follows.safe.applied p k' under)
    rintro ⟨rfl, rfl⟩
    exact absurd under (Nat.not_lt.mpr late)
  refine Prog.wp_mono ?_ (wp_handling (fun w touched => (during w touched).1)
    (handler_rewrites encodes valid full follows.safe.keyed))
  rintro outcome after ⟨w, ends, rfl⟩
  refine ⟨_, rfl, ?_⟩
  cases outcome with
  | error exn =>
    obtain ⟨safe, others⟩ := during w ends
    have failed : Follows around topic (.polled m :: older) { s with world := w } := by
      refine ⟨safe, follows.behind, follows.polled, follows.waiting, follows.top,
        fun p k' under all => others p k' under ?_ (follows.done p k' under all)⟩
      rintro ⟨rfl, rfl⟩
      exact missed (all m List.mem_cons_self rfl offset)
    exact failed.cons fun x => ⟨Entry.noConfusion, Entry.noConfusion⟩
  | ok _ =>
    obtain ⟨ev, parsed, rewriting, rewritten⟩ := ends
    obtain ⟨safe, others⟩ := during w ⟨ev, parsed, rewriting⟩
    have polled : ∀ {x}, .polled x ∈ Entry.handled m :: .polled m :: older →
        .polled x ∈ Entry.polled m :: older := fun member =>
      (List.mem_cons.mp member).resolve_left Entry.noConfusion
    refine ⟨safe, follows.behind, fun x member => follows.polled x (polled member),
      fun x member open_ => follows.waiting x (polled member) fun inside =>
        open_ (List.mem_cons_of_mem _ inside),
      fun x rest same => Entry.noConfusion (List.cons.inj same).1, fun p k' under all => ?_⟩
    by_cases own : p = m.partition ∧ k' = k
    · obtain ⟨rfl, rfl⟩ := own
      rintro ev' ⟨⟨value', here', parsed'⟩, -⟩
      obtain rfl := Option.some.inj (at'.symm.trans here')
      exact (fit_of_parsed valid named parsed parsed' rewritten.fit).2
    · refine others p k' under own (follows.done p k' under fun x member same place => ?_)
      rcases List.mem_cons.mp (all x (List.mem_cons_of_mem _ member) same place) with mine | inside
      · obtain rfl := Entry.handled.inj mine
        exact absurd ⟨same.symm, Int.ofNat_inj.mp (place.symm.trans offset)⟩ own
      · exact inside

/-- A callback that touches neither the offsets nor the database. -/
theorem simulates_quiet {program : Handling Unit} {op : CallbackOp}
    (other : ∀ m value, op ≠ .handler m value) (follows : Follows around topic log s)
    (quiet : program.wp (handlerMachine around fun w => w.index = s.world.index)
      (fun _ after => after.index = s.world.index) s.world) :
    (program.inr : Prog embedderSig Exn Unit).wp
      (embedderMachine around config topic (Safe around topic))
      (fun answer after => ∃ log', loopStep (.inr op) log answer log' ∧
        Follows around topic log' after) s := by
  have entry : ∀ answer : Except Exn Unit, ∀ m, op.outcome answer ≠ .polled m ∧
      op.outcome answer ≠ .handled m := by
    intro answer m
    cases answer with
    | error exn => exact ⟨Entry.noConfusion, Entry.noConfusion⟩
    | ok _ =>
      cases op with
      | handler m value => exact absurd rfl (other m value)
      | afterHandler => exact ⟨Entry.noConfusion, Entry.noConfusion⟩
      | preCommit => exact ⟨Entry.noConfusion, Entry.noConfusion⟩
      | idleHook => exact ⟨Entry.noConfusion, Entry.noConfusion⟩
  have kept : ∀ w, w.index = s.world.index → Follows around topic log { s with world := w } :=
    fun w same => follows.same rfl rfl same
  refine Prog.wp_mono ?_ (wp_handling (fun w same => (kept w same).safe) quiet)
  rintro outcome after ⟨w, same, rfl⟩
  exact ⟨_, rfl, (kept w same).cons (entry outcome)⟩

theorem simulates_consumer (op : ConsumerOp) (follows : Follows around topic log s)
    (safe : InTurn (.inl op) log) :
    (@Prog.perform embedderSig Exn (.inl op)).wp
      (embedderMachine around config topic (Safe around topic))
      (fun answer after => ∃ log', loopStep (.inl op) log answer log' ∧
        Follows around topic log' after) s := by
  refine (@Prog.wp_perform embedderSig Exn _ _ (.inl op) _ s).mpr ⟨follows.safe, ?_⟩
  intro answer after step
  cases op with
  | poll =>
    cases answer with
    | error exn => exact ⟨log, rfl, step ▸ follows⟩
    | ok polled =>
      cases polled with
      | nothing => exact ⟨log, rfl, step ▸ follows⟩
      | error text => exact ⟨log, rfl, step ▸ follows⟩
      | message m =>
        obtain ⟨value, here, made, moved⟩ := step
        have offset : m.offset = (s.position m.partition : Int) := congrArg Message.offset made
        refine ⟨_, ⟨rfl, fun earlier polled same => ?_⟩,
          follows.poll safe here offset (congrArg Message.value made) moved⟩
        obtain ⟨k, place, below, -⟩ := follows.polled earlier polled
        have partition : earlier.partition = m.partition := congrArg Prod.snd same
        rw [partition] at below
        omega
  | commit m =>
    rcases step with moved | ⟨raised, same⟩
    · exact ⟨_, Or.inl rfl, follows.commit safe.1 safe.2 moved⟩
    · exact ⟨_, Or.inr ⟨raised, rfl⟩, same ▸ follows⟩
  | makeConsumer => exact ⟨log, rfl, step ▸ follows⟩
  | stopIsSet => exact ⟨log, rfl, step ▸ follows⟩
  | monotonic => exact ⟨log, rfl, step ▸ follows⟩
  | close => exact ⟨log, rfl, step ▸ follows⟩

/-- **The worker refines the loop.** -/
theorem embedder_simulates (normalized : Normalized around topic) (encodes : ¬ around.Fails)
    (op : loopSig.Op) (log : List Entry) (s : Consumption) (follows : Follows around topic log s)
    (safe : turnMachine.safe op log) :
    (callbacks config op).wp (embedderMachine around config topic (Safe around topic))
      (fun answer after => ∃ log', turnMachine.step op log answer log' ∧
        Follows around topic log' after) s := by
  cases op with
  | inl op => exact simulates_consumer op follows safe
  | inr op =>
    cases op with
    | handler m value =>
      obtain ⟨decoded, older, rfl, handled, new⟩ := safe
      exact simulates_handler normalized encodes follows decoded handled new
    | afterHandler =>
      exact ⟨_, rfl, follows.cons fun m => ⟨Entry.noConfusion, Entry.noConfusion⟩⟩
    | preCommit =>
      refine simulates_quiet (by simp) follows ?_
      refine (@Prog.wp_perform handlerSig Exn World _ (.inl .flush) _ _).mpr ⟨rfl, ?_⟩
      rintro answer after ⟨-, same⟩
      rw [same]
    | idleHook =>
      refine simulates_quiet (by simp) follows ?_
      refine (@Prog.wp_perform handlerSig Exn World _ (.inr .beat) _ _).mpr ⟨rfl, ?_⟩
      intro answer after step
      rw [show after = s.world from step]

end Simulation

/-! ### The result -/

/-- **Every state that any lives reach is safe.** -/
theorem Lives.safe {first s : Consumption} (lives : Lives around config topic first s)
    (normalized : Normalized around topic) (encodes : ¬ around.Fails)
    (keyed : first.world.index.WellKeyed) (new : ∀ p, first.committed p = 0) :
    Safe around topic s := by
  induction lives with
  | first =>
    refine ⟨keyed, fun p k below => ?_⟩
    rw [new] at below
    exact absurd below (Nat.not_lt_zero k)
  | @again s next last maxMessages idleTimeout stop commitEvery fuel rest before restarted life ih =>
    have spec := Prog.wp_interpret (@embedder_simulates around config topic normalized encodes)
      (ih.follows restarted)
      (consumeLoop_inTurn (embedderLoop maxMessages idleTimeout stop commitEvery) fuel)
    refine Prog.kept_of_steps (fun _ _ safe => safe) ?_ spec
      (Prog.Steps.mono (m := embedderMachine around config topic fun _ => True)
        (fun _ _ _ _ step => step) life)
    rintro outcome after ⟨log, -, follows⟩
    exact follows.safe

/-- The rows of an event once the log has been consumed. -/
theorem Lives.contents {first s : Consumption} (lives : Lives around config topic first s)
    (normalized : Normalized around topic) (encodes : ¬ around.Fails)
    (keyed : first.world.index.WellKeyed) (new : ∀ p, first.committed p = 0)
    (consumed : Consumed topic s) {p : Int} {k : Nat} {ev : Event}
    (last : LastVersion around topic p k ev) :
    (s.world.index.contents ev.eventId).Perm ev.contents := by
  have safe := lives.safe normalized encodes keyed new
  obtain ⟨value, here, -⟩ := last.1
  have below : k < s.committed p :=
    Nat.lt_of_lt_of_le (List.getElem?_eq_some_iff.mp here).1 (consumed p)
  exact (safe.applied p k below ev last).contents safe.keyed

/-- **Once the log has been consumed, the rows of an event are exactly the chunks of its last
version**, and so they are whatever the lives were. -/
theorem last_write_wins (normalized : Normalized around topic) (encodes : ¬ around.Fails)
    {first s s' : Consumption} (keyed : first.world.index.WellKeyed)
    (new : ∀ p, first.committed p = 0) (lives : Lives around config topic first s)
    (consumed : Consumed topic s) (lives' : Lives around config topic first s')
    (consumed' : Consumed topic s') {p : Int} {k : Nat} {ev : Event}
    (last : LastVersion around topic p k ev) :
    (s.world.index.contents ev.eventId).Perm ev.contents ∧
      (s.world.index.contents ev.eventId).Perm (s'.world.index.contents ev.eventId) := by
  have rows := lives.contents normalized encodes keyed new consumed last
  have rows' := lives'.contents normalized encodes keyed new consumed' last
  exact ⟨rows, rows.trans rows'.symm⟩

/-! ### A run -/

/-- The messages of the first partition are handed out in turn, and nothing fails. -/
def calmReader (validate : String → Except String Fields)
    (encode : List (List Char) → Except Exn (List Embedding)) (config : HandlerConfig)
    (topic : Int → List String) :
    (op : embedderSig.Op) → Consumption → Except Exn (embedderSig.Ans op) × Consumption
  | .inl .poll, s => match (topic 0)[s.position 0]? with
    | some value =>
      (.ok (.message ⟨config.topic, 0, s.position 0, some value⟩),
        { s with position := Function.update s.position 0 (s.position 0 + 1) })
    | none => (.ok .nothing, s)
  | .inl (.commit m), s =>
    (.ok (), { s with committed := Function.update s.committed m.partition (m.offset + 1).toNat })
  | .inl .stopIsSet, s => (.ok false, s)
  | .inl .monotonic, s => (.ok (0 : Int), s)
  | .inl .makeConsumer, s => (.ok (), s)
  | .inl .close, s => (.ok (), s)
  | .inr op, s => ((calmHandler validate encode op s.world).1,
      { s with world := (calmHandler validate encode op s.world).2 })

theorem embedderStep_reader {around : Surroundings} {config : HandlerConfig}
    {topic : Int → List String} {encode : List (List Char) → Except Exn (List Embedding)}
    (encodes : ∀ texts, around.encodes texts (encode texts)) (op : embedderSig.Op)
    (s : Consumption) :
    embedderStep around config topic op s (calmReader around.validate encode config topic op s).1
      (calmReader around.validate encode config topic op s).2 := by
  cases op with
  | inr op => exact ⟨handlerStep_calm encodes op s.world, rfl, rfl⟩
  | inl op =>
    cases op with
    | poll =>
      cases here : (topic 0)[s.position 0]? with
      | none =>
        unfold calmReader
        simp only [here]
        exact rfl
      | some value =>
        unfold calmReader
        simp only [here]
        exact ⟨value, here, rfl, rfl⟩
    | commit m => exact Or.inl rfl
    | stopIsSet => exact rfl
    | monotonic => exact rfl
    | makeConsumer => exact rfl
    | close => exact rfl

section Single

variable {around : Surroundings} {topic : Int → List String} (single : ∀ p, p ≠ 0 → topic p = [])

include single

theorem partition_of_version {p : Int} {k : Nat} {ev : Event} (version : Version around topic p k ev) :
    p = 0 := by
  obtain ⟨value, here, -⟩ := version
  by_contra other
  rw [single p other] at here
  cases here

theorem consumed_of_single {s : Consumption} (read : (topic 0).length ≤ s.committed 0) :
    Consumed topic s := by
  intro p
  by_cases zero : p = 0
  · rw [zero]
    exact read
  · rw [single p zero]
    exact Nat.zero_le _

end Single

/-! One message of one partition. -/

def oneTopic (p : Int) : List String := if p = 0 then ["event"] else []

theorem oneTopic_single (p : Int) (other : p ≠ 0) : oneTopic p = [] := if_neg other

/-- The next message is handed out, and nothing fails. -/
def calmEmbedder : (op : embedderSig.Op) → Consumption →
    Except Exn (embedderSig.Ans op) × Consumption
  | .inl .poll, s => match (oneTopic 0)[s.position 0]? with
    | some value =>
      (.ok (.message ⟨plainConfig.topic, 0, s.position 0, some value⟩),
        { s with position := Function.update s.position 0 (s.position 0 + 1) })
    | none => (.ok .nothing, s)
  | .inl (.commit m), s =>
    (.ok (), { s with committed := Function.update s.committed m.partition (m.offset + 1).toNat })
  | .inl .stopIsSet, s => (.ok false, s)
  | .inl .monotonic, s => (.ok (0 : Int), s)
  | .inl .makeConsumer, s => (.ok (), s)
  | .inl .close, s => (.ok (), s)
  | .inr op, s => ((calmHandler textedAround.validate zeroVectors op s.world).1,
      { s with world := (calmHandler textedAround.validate zeroVectors op s.world).2 })

theorem embedderStep_calm (op : embedderSig.Op) (s : Consumption) :
    embedderStep textedAround plainConfig oneTopic op s (calmEmbedder op s).1
      (calmEmbedder op s).2 := by
  have reads : calmEmbedder op s =
      calmReader textedAround.validate zeroVectors plainConfig oneTopic op s := by
    cases op with
    | inl op => cases op <;> rfl
    | inr op => rfl
  rw [reads]
  exact embedderStep_reader (fun _ => rfl) op s

def newConsumption : Consumption := ⟨fun _ => 0, fun _ => 0, newWorld⟩

def oneConsumed : Consumption :=
  ((embedder plainConfig (embedderLoop (some 1) none false 50) 2).run calmEmbedder
    newConsumption).2

theorem normalized_oneTopic : Normalized textedAround oneTopic := by
  refine ⟨fun p value _ => ⟨_, rfl, rfl, by decide⟩, fun p p' k k' ev ev' version version' _ => ?_⟩
  rw [partition_of_version oneTopic_single version, partition_of_version oneTopic_single version']

def textedEvent : Event :=
  { blankFields with text := "Status: Monitoring".toList }.event "" 0

theorem last_write_wins_oneTopic :
    (oneConsumed.world.index.contents "openai:INC-1:a").Perm
      [(some 0, "Status: Monitoring".toList, some "Status", none, "status_update")] := by
  have life := @Prog.steps_run embedderSig Exn (Option Nat) Consumption
    (embedderMachine textedAround plainConfig oneTopic fun _ => True) calmEmbedder
    (embedder plainConfig (embedderLoop (some 1) none false 50) 2) newConsumption embedderStep_calm
  have lives : Lives textedAround plainConfig oneTopic newConsumption oneConsumed :=
    .again .first ⟨rfl, rfl, rfl⟩ life
  have committed : oneConsumed.committed 0 = 1 := by decide +kernel
  have consumed : Consumed oneTopic oneConsumed := consumed_of_single oneTopic_single committed.ge
  have encodes : ¬ textedAround.Fails := by
    rintro ⟨texts, exn, failed⟩
    cases failed
  have last : LastVersion textedAround oneTopic 0 0 textedEvent := by
    refine ⟨⟨"event", rfl, _, "", 0, rfl, rfl⟩, fun k' ev' later version => ?_⟩
    obtain ⟨value, here, -⟩ := version
    have bound : k' < 1 := (List.getElem?_eq_some_iff.mp here).1
    omega
  have contents : textedEvent.contents =
      [(some 0, "Status: Monitoring".toList, some "Status", none, "status_update")] := by decide +kernel
  rw [← contents]
  exact (last_write_wins normalized_oneTopic encodes keyed_empty (fun _ => rfl) lives consumed
    lives consumed last).1

end Freshet.Pipeline
