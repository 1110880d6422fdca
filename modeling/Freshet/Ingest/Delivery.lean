/-
**A stored validator never gets ahead of Kafka.**

* `Delivered` says that every update parsed from a response has been acknowledged; `Kept` that it
  holds of every validator in the cache file. Every call of the poller demands `Kept`, so it holds
  wherever the process is killed.
* `Ready` adds the validators in memory: each is delivered, or its response is one of those that
  this sweep still owes. The threads of a sweep follow a protocol on the responses they have
  remembered (`one_spec`), so what the sweep owes is among the updates it returns.
* `sweep_spec` pays: the updates are produced, the checked flush acknowledges them, and only then
  the file is written.
-/

import Freshet.Ingest.Poller
import Freshet.Lib.Restart

set_option linter.unusedSectionVars false

namespace Freshet.Ingest

open Freshet.Lib Freshet.Kafka

/-! ### What is delivered -/

/-- The broker has acknowledged the record, to this life's producer or an earlier one. -/
def Acked (w : World) (record : Record) : Prop :=
  record ∈ w.acknowledged ∨ ∃ delivery ∈ w.producer.acked, delivery.2 = record

/-- **Every update parsed from the response's body has been acknowledged.** -/
def Delivered (env : Env) (w : World) (source : Source) : Prop :=
  ∀ found, env.parseAtom source.provider source.body = .ok found →
    ∀ u ∈ found, Acked w (recordOf env.library u)

def CacheFile.validators (file : CacheFile) : List Validator :=
  file.etag.values ++ file.modified.values

/-- The validators in memory. -/
def World.validators (w : World) : List Validator := w.etag.values ++ w.modified.values

/-- **The validators in the cache file, and in its complete temporary sibling, are delivered.** -/
def Kept (env : Env) (w : World) : Prop :=
  ∀ file, w.disk = some file ∨ w.tmp = some file → ∀ v ∈ file.validators, Delivered env w v.source

/-- The files as they should be, and each validator in memory delivered or owed. -/
structure Ready (env : Env) (owed : Source → Prop) (w : World) : Prop where
  kept : Kept env w
  remembered : ∀ v ∈ w.validators, Delivered env w v.source ∨ owed v.source

/-- Nothing is owed. -/
def Nothing : Source → Prop := fun _ => False

/-- The poller's calls, made while the files are as they should be. -/
def pollerMachine (env : Env) : Machine pollerSig Exn World where
  safe _ w := Kept env w
  step := pollerStep env

/-- The calls of `run` itself. -/
def processMachine (env : Env) : Machine (runSig.sum clientSig) Exn World where
  safe _ w := Kept env w
  step := processStep

/-- The calls of the threads. -/
def fetchMachine (env : Env) : Machine pageSig.tagged Exn World where
  safe _ w := Kept env w
  step op w answer after := pageStep env op.2 w answer after

/-- Acknowledgements are never taken back. -/
def Grows (w after : World) : Prop := ∀ record, Acked w record → Acked after record

theorem Delivered.grows {env : Env} {w after : World} {source : Source} (grows : Grows w after)
    (delivered : Delivered env w source) : Delivered env after source :=
  fun found parsed u member => grows _ (delivered found parsed u member)

theorem grows_of_same {w after : World} (acknowledged : after.acknowledged = w.acknowledged)
    (producer : after.producer = w.producer) : Grows w after := by
  intro record acked
  unfold Acked
  rw [acknowledged, producer]
  exact acked

theorem grows_of_acked {w : World} {producer : Producer} (more : w.producer.acked ⊆ producer.acked) :
    Grows w { w with producer } :=
  fun _ acked => acked.imp_right fun ⟨delivery, member, same⟩ => ⟨delivery, more member, same⟩

theorem Kept.grows {env : Env} {w after : World} (grows : Grows w after)
    (disk : after.disk = w.disk) (tmp : after.tmp = w.tmp) (kept : Kept env w) : Kept env after := by
  intro file there v member
  rw [disk, tmp] at there
  exact (kept file there v member).grows grows

theorem Ready.grows {env : Env} {owed : Source → Prop} {w after : World} (grows : Grows w after)
    (disk : after.disk = w.disk) (tmp : after.tmp = w.tmp)
    (validators : after.validators = w.validators) (ready : Ready env owed w) :
    Ready env owed after where
  kept := ready.kept.grows grows disk tmp
  remembered v member := by
    rw [validators] at member
    exact (ready.remembered v member).imp_left (Delivered.grows grows)

theorem Ready.owes {env : Env} {owed more : Source → Prop} {w : World} (ready : Ready env owed w)
    (implies : ∀ source, owed source → Delivered env w source ∨ more source) : Ready env more w where
  kept := ready.kept
  remembered v member := (ready.remembered v member).elim .inl (implies v.source)

/-! ### The threads of a sweep -/

/-- What a call adds to the responses its thread has remembered. -/
def PageOp.remembers : PageOp → List Source
  | setEtag _ _ source => [source]
  | setModified _ _ source => [source]
  | _ => []

/-- A thread's protocol: the responses it has remembered so far. -/
def remembering : Machine pageSig Exn (List Source) where
  safe _ _ := True
  step op phase _ after := after = op.remembers ++ phase

/-- A thread that returns has parsed what it returns from every response it has remembered. -/
def Owes (env : Env) (outcome : Except Exn (List IncidentUpdate)) (phase : List Source) : Prop :=
  ∀ source ∈ phase, ∀ found, outcome = .ok found →
    env.parseAtom source.provider source.body = .ok found

/-- A call that remembers nothing. -/
theorem page_spec {op : PageOp} (none : op.remembers = []) {good : op.Ans → List Source → Prop}
    {phase : List Source} (holds : ∀ answer, good answer phase) :
    (page op).wp remembering (Prog.Ends (fun _ => True) good) phase := by
  refine (@Prog.wp_perform pageSig Exn _ remembering op _ phase).mpr ⟨trivial, ?_⟩
  rintro answer after rfl
  rw [none]
  cases answer with
  | ok value => exact holds value
  | error exn => trivial

/-- A call that remembers a response. -/
theorem remember_page_spec {op : PageOp} {source : Source} (one : op.remembers = [source])
    {phase : List Source} (only : ∀ s ∈ phase, s = source) :
    (page op).wp remembering (Prog.Ends (fun _ => True) fun _ after => ∀ s ∈ after, s = source)
      phase := by
  refine (@Prog.wp_perform pageSig Exn _ remembering op _ phase).mpr ⟨trivial, ?_⟩
  rintro answer after rfl
  cases answer with
  | error exn => trivial
  | ok value =>
    rw [one]
    intro s member
    exact (List.mem_cons.mp member).elim id (only s)

theorem whenTruthy_spec {value : Option String} {action : String → Fetching Unit}
    {good : Unit → List Source → Prop} {phase : List Source} (absent : good () phase)
    (present : ∀ value, (action value).wp remembering (Prog.Ends (fun _ => True) good) phase) :
    (whenTruthy value action).wp remembering (Prog.Ends (fun _ => True) good) phase := by
  unfold whenTruthy
  cases truthy value with
  | none => exact absent
  | some value => exact present value

theorem remember_spec (url : String) (headers : Dict String String) (source : Source) :
    (remember url headers source).wp remembering
      (Prog.Ends (fun _ => True) fun _ after => ∀ s ∈ after, s = source) [] := by
  have empty : ∀ s ∈ ([] : List Source), s = source := fun _ member => (nomatch member)
  exact Prog.wp_seq _ (whenTruthy_spec empty fun _ => remember_page_spec rfl empty)
    fun _ _ only => whenTruthy_spec only fun _ => remember_page_spec rfl only

/-- What a page's thread returns: all it has remembered parses to it. -/
def Parsed (env : Env) (found : List IncidentUpdate) (phase : List Source) : Prop :=
  ∀ source ∈ phase, env.parseAtom source.provider source.body = .ok found

theorem parsed_nil (env : Env) (found : List IncidentUpdate) : Parsed env found [] :=
  fun _ member => (nomatch member)

theorem accept_spec (env : Env) (pg : Page) (response : Response) :
    (accept env pg response).wp remembering (Prog.Ends (fun _ => True) (Parsed env)) [] := by
  unfold accept
  cases truthy response.body with
  | none => exact parsed_nil env _
  | some body =>
    dsimp only
    split
    · exact parsed_nil env _
    · cases parsed : env.parseAtom pg.provider body with
      | error exn => exact parsed_nil env _
      | ok found =>
        cases found with
        | nil => exact parsed_nil env _
        | cons first rest =>
          refine Prog.wp_seq _ (remember_spec pg.url response.headers ⟨pg.provider, body⟩) ?_
          intro _ phase only source member
          rw [only source member]
          exact parsed

/-- **A page's thread returns what it has remembered.** -/
theorem one_spec (env : Env) (pg : Page) :
    (one env pg).wp remembering (Prog.Ends (fun _ => True) (Parsed env)) [] := by
  refine Prog.wp_seq (fun _ phase => phase = []) (page_spec rfl fun _ => rfl) ?_
  rintro skipped phase rfl
  cases skipped with
  | true => exact parsed_nil env _
  | false =>
    have fetched : (fetchPage pg.url).wp remembering (fun _ phase => phase = []) [] := by
      have uses : (fetchPage pg.url).Uses fun op : PageOp => op.remembers = [] := by
        exact Prog.uses_bind (Prog.uses_bind (Prog.uses_perform rfl) fun etag =>
          Prog.uses_bind (Prog.uses_perform rfl) fun since => Prog.uses_ret _)
          fun _ => Prog.uses_perform rfl
      refine Prog.wp_of_uses uses rfl ?_
      rintro op none phase rfl
      refine ⟨trivial, ?_⟩
      rintro answer after rfl
      rw [none]
      rfl
    refine Prog.wp_seq (fun _ phase => phase = []) (Prog.wp_try (Prog.wp_mono ?_ fetched)) ?_
    · exact fun _ _ same => same
    · rintro outcome phase rfl
      cases outcome with
      | error exn =>
        exact Prog.wp_seq (fun _ phase => phase = []) (page_spec rfl fun _ => rfl)
          fun _ _ same => same ▸ parsed_nil env _
      | ok response =>
        exact Prog.wp_seq (fun _ phase => phase = []) (page_spec rfl fun _ => rfl)
          fun _ _ same => same ▸ accept_spec env pg response

/-! ### One sweep's fetching -/

/-- The world while threads run: each validator is delivered or some thread owes it. -/
def Sweeping (env : Env) (w : World) (phases : Nat → List Source) : Prop :=
  Ready env (fun source => ∃ i, source ∈ phases i) w ∧ w.producer.Accounted

/-- A call of a thread changes no file and nothing about the producer. -/
theorem pageStep_frame {env : Env} {op : PageOp} {w after : World} {answer : Except Exn op.Ans}
    (moved : pageStep env op w answer after) : after.disk = w.disk ∧ after.tmp = w.tmp ∧
      after.producer = w.producer ∧ after.acknowledged = w.acknowledged := by
  cases op with
  | skip url => rw [moved.1]; exact ⟨rfl, rfl, rfl, rfl⟩
  | fetch url headers => rw [moved]; exact ⟨rfl, rfl, rfl, rfl⟩
  | failed url seconds => obtain ⟨now, rfl⟩ := moved; exact ⟨rfl, rfl, rfl, rfl⟩
  | succeeded url => rw [moved]; exact ⟨rfl, rfl, rfl, rfl⟩
  | getEtag url => rw [moved.1]; exact ⟨rfl, rfl, rfl, rfl⟩
  | getModified url => rw [moved.1]; exact ⟨rfl, rfl, rfl, rfl⟩
  | setEtag url value source => rw [moved.2]; exact ⟨rfl, rfl, rfl, rfl⟩
  | setModified url value source => rw [moved.2]; exact ⟨rfl, rfl, rfl, rfl⟩

/-- A validator in memory after a call was there, or is of the response the call remembers. -/
theorem pageStep_validators {env : Env} {op : PageOp} {w after : World}
    {answer : Except Exn op.Ans} (moved : pageStep env op w answer after) :
    ∀ v ∈ after.validators, v ∈ w.validators ∨ v.source ∈ op.remembers := by
  intro v member
  cases op with
  | skip url => rw [moved.1] at member; exact .inl member
  | fetch url headers => rw [moved] at member; exact .inl member
  | failed url seconds => obtain ⟨now, rfl⟩ := moved; exact .inl member
  | succeeded url => rw [moved] at member; exact .inl member
  | getEtag url => rw [moved.1] at member; exact .inl member
  | getModified url => rw [moved.1] at member; exact .inl member
  | setEtag url value source =>
    rw [moved.2] at member
    rcases List.mem_append.mp member with member | member
    · rcases Dict.mem_values_set member with rfl | member
      · exact .inr (List.mem_singleton.mpr rfl)
      · exact .inl (List.mem_append_left _ member)
    · exact .inl (List.mem_append_right _ member)
  | setModified url value source =>
    rw [moved.2] at member
    rcases List.mem_append.mp member with member | member
    · exact .inl (List.mem_append_left _ member)
    · rcases Dict.mem_values_set member with rfl | member
      · exact .inr (List.mem_singleton.mpr rfl)
      · exact .inl (List.mem_append_right _ member)

/-- **Every call of every thread keeps the world as the protocol says.** -/
theorem sweeping_follows (env : Env) :
    Prog.Follows remembering (fetchMachine env) (Sweeping env) := by
  rintro i op w phases ⟨ready, accounted⟩ -
  refine ⟨ready.kept, fun answer after moved => ⟨_, rfl, ?_⟩⟩
  obtain ⟨disk, tmp, producer, acknowledged⟩ := pageStep_frame moved
  have grows : Grows w after := grows_of_same acknowledged producer
  have more : ∀ source, (∃ j, source ∈ phases j) →
      ∃ j, source ∈ Function.update phases i (op.remembers ++ phases i) j := by
    rintro source ⟨j, member⟩
    refine ⟨j, ?_⟩
    by_cases same : j = i
    · subst same
      rw [Function.update_self]
      exact List.mem_append_right _ member
    · rwa [Function.update_of_ne same]
  refine ⟨⟨ready.kept.grows grows disk tmp, fun v member => ?_⟩, producer ▸ accounted⟩
  rcases pageStep_validators moved v member with old | new
  · exact (ready.remembered v old).imp (Delivered.grows grows) (more v.source)
  · refine .inr ⟨i, ?_⟩
    rw [Function.update_self]
    exact List.mem_append_left _ new

/-- What a sweep's updates must hold of a response it owes: all that is parsed from it. -/
def Among (env : Env) (updates : List IncidentUpdate) (source : Source) : Prop :=
  ∀ found, env.parseAtom source.provider source.body = .ok found → ∀ u ∈ found, u ∈ updates

theorem mem_sortByCreated {updates : List IncidentUpdate} {u : IncidentUpdate} :
    u ∈ sortByCreated updates ↔ u ∈ updates :=
  (List.mergeSort_perm updates _).mem_iff

/-- **What a sweep remembers is among the updates it returns**, however its threads interleave. -/
theorem pollOnce_spec (env : Env) (pages : List Page) (schedule : List Nat) {w : World}
    (ready : Ready env Nothing w) (accounted : w.producer.Accounted) :
    (pollOnce env pages schedule).wp (fetchMachine env)
      (Prog.Ends (Kept env) fun updates after =>
        Ready env (Among env updates) after ∧ after.producer.Accounted) w := by
  have start : Sweeping env w fun _ => [] :=
    ⟨ready.owes fun _ nothing => nothing.elim, accounted⟩
  have threads : ∀ (i : Nat) (thread : Fetching (List IncidentUpdate)),
      (pages.map (one env))[i]? = some thread →
      thread.wp remembering (Prog.Ends (fun _ => True) (Parsed env)) [] := by
    intro i thread found
    rw [List.getElem?_map] at found
    obtain ⟨pg, -, rfl⟩ := Option.map_eq_some_iff.mp found
    exact one_spec env pg
  have joined := Prog.wp_interleave (sweeping_follows env) schedule start threads
  refine Prog.wp_bind.mpr (Prog.wp_mono ?_ joined)
  rintro _ after ⟨outcomes, phases, rfl, ⟨ready, accounted⟩, count, posts, outside⟩
  refine Prog.wp_bind.mpr (Prog.wp_collect ?_ ?_)
  · rintro found rfl
    refine ⟨ready.owes ?_, accounted⟩
    rintro source ⟨i, member⟩
    refine .inr fun parsed same u inside => mem_sortByCreated.mpr ?_
    -- Only the threads of this sweep have phases, and each has an outcome among those collected.
    rcases Nat.lt_or_ge i (found.map Except.ok : List (Except Exn _)).length with within | beyond
    · have within' : i < found.length := by rwa [List.length_map] at within
      have mine := posts i (.ok found[i]) (by simp [within'])
      have same' := mine source member
      rw [same, Except.ok.injEq] at same'
      exact List.mem_flatten.mpr ⟨found[i], List.getElem_mem within', same' ▸ inside⟩
    · rw [outside i (count ▸ beyond)] at member
      exact (nomatch member)
  · exact fun exn _ => ready.kept

/-! ### The calls of `run` -/

/-- A call that touches neither the files, nor the validators, nor the producer. -/
def RunOp.Plain : RunOp → Prop
  | pathExists => True
  | readCache => True
  | setSaved _ => True
  | newBackoff => True
  | restoreBackoff => True
  | monotonic => True
  | sleep => True
  | snapshotBackoff => True
  | makedirs => True
  | _ => False

/-- What a plain call leaves as it was. -/
structure Same (w after : World) : Prop where
  etag : after.etag = w.etag
  modified : after.modified = w.modified
  disk : after.disk = w.disk
  tmp : after.tmp = w.tmp
  producer : after.producer = w.producer
  acknowledged : after.acknowledged = w.acknowledged

theorem Same.rfl {w : World} : Same w w := ⟨.refl _, .refl _, .refl _, .refl _, .refl _, .refl _⟩

theorem Same.kept {env : Env} {w after : World} (same : Same w after) (kept : Kept env w) :
    Kept env after :=
  kept.grows (grows_of_same same.acknowledged same.producer) same.disk same.tmp

theorem Same.grows {w after : World} (same : Same w after) : Grows w after :=
  grows_of_same same.acknowledged same.producer

theorem Same.ready {env : Env} {owed : Source → Prop} {w after : World} (same : Same w after)
    (ready : Ready env owed w) : Ready env owed after :=
  ready.grows same.grows same.disk same.tmp (by
    rw [World.validators, World.validators, same.etag, same.modified])

theorem runStep_plain {op : RunOp} (plain : op.Plain) {w after : World}
    {answer : Except Exn op.Ans} (moved : runStep op w answer after) : Same w after := by
  cases op with
  | pathExists => exact moved ▸ .rfl
  | readCache => exact moved.1 ▸ .rfl
  | setSaved saved =>
    rcases moved with rfl | ⟨-, rfl⟩
    · exact ⟨.refl _, .refl _, .refl _, .refl _, .refl _, .refl _⟩
    · exact .rfl
  | newBackoff => rw [moved]; exact ⟨.refl _, .refl _, .refl _, .refl _, .refl _, .refl _⟩
  | restoreBackoff =>
    obtain ⟨now, wall, rfl⟩ := moved
    exact ⟨.refl _, .refl _, .refl _, .refl _, .refl _, .refl _⟩
  | monotonic => exact moved ▸ .rfl
  | sleep => exact moved ▸ .rfl
  | snapshotBackoff =>
    obtain ⟨now, wall, rfl⟩ := moved
    exact ⟨.refl _, .refl _, .refl _, .refl _, .refl _, .refl _⟩
  | makedirs => exact moved ▸ .rfl
  | newCache => exact plain.elim
  | setEtags items => exact plain.elim
  | setModifieds items => exact plain.elim
  | newProducer => exact plain.elim
  | openTmp => exact plain.elim
  | dumpTmp => exact plain.elim
  | replace => exact plain.elim

section Run

variable {env : Env}

/-- One call of `run`, by what it may do. -/
theorem step_spec {op : RunOp} {w : World} (kept : Kept env w) {post : Except Exn op.Ans → World → Prop}
    (holds : ∀ answer after, runStep op w answer after → post answer after) :
    (step op).wp (pollerMachine env) post w :=
  (@Prog.wp_perform pollerSig Exn _ (pollerMachine env) (.inr (.inl op)) _ w).mpr ⟨kept, holds⟩

/-- A plain call keeps whatever is ready. -/
theorem plain_spec (op : RunOp) (plain : op.Plain) {bad : World → Prop} {w : World}
    (kept : Kept env w) (raised : ∀ after, Same w after → bad after) :
    (step op).wp (pollerMachine env) (Prog.Ends bad fun _ after => Same w after) w := by
  refine step_spec kept fun answer after moved => ?_
  have same := runStep_plain plain moved
  cases answer with
  | ok value => exact same
  | error exn => exact raised after same

/-- A method of the producer runs as it runs alone; meanwhile acknowledgements only grow. -/
theorem producing_spec {α : Type} {program : Prog clientSig Exn α} {w : World} (kept : Kept env w)
    {post : Except Exn α → Producer → Prop}
    (holds : program.wp clientMachine post w.producer) :
    (producing program).wp (pollerMachine env) (fun outcome after =>
      post outcome after.producer ∧ after = { w with producer := after.producer } ∧
        Grows w after) w := by
  have simulates : ∀ op p (t : World),
      (t.producer = p ∧ t = { w with producer := t.producer } ∧ Grows w t ∧ Kept env t) →
      clientMachine.safe op p → (processMachine env).safe (.inr op) t ∧
      ∀ answer after, (processMachine env).step (.inr op) t answer after →
        ∃ p', clientMachine.step op p answer p' ∧ after.producer = p' ∧
          after = { w with producer := after.producer } ∧ Grows w after ∧ Kept env after := by
    rintro op p t ⟨rfl, same, grows, kept⟩ _
    refine ⟨kept, ?_⟩
    rintro answer _ ⟨p', moved, rfl⟩
    have more := grows_of_acked (w := t) (clientStep_grows moved).2
    exact ⟨p', moved, rfl, by rw [same], fun record acked => more record (grows record acked),
      kept.grows more rfl rfl⟩
  refine Prog.wp_mono ?_ (Prog.wp_inr_of (fun _ _ kept => kept) (fun _ _ _ _ moved => moved)
    (Prog.wp_inr simulates ⟨rfl, rfl, fun _ acked => acked, kept⟩ holds))
  rintro outcome after ⟨p, done, rfl, same, grows, -⟩
  exact ⟨done, same, grows⟩

/-! ### Loading the cache -/

/-- A new cache has no validators. -/
theorem newCache_spec {w : World} (kept : Kept env w) :
    (step .newCache).wp (pollerMachine env)
      (Prog.Ends (Kept env) fun _ => Ready env Nothing) w := by
  refine step_spec kept ?_
  rintro answer after rfl
  have kept' : Kept env { w with etag := [], modified := [], saved := {} } :=
    kept.grows (grows_of_same rfl rfl) rfl rfl
  cases answer with
  | ok value => exact ⟨kept', fun v member => (nomatch member)⟩
  | error exn => exact kept'

/-- While a file that was read is put in memory. -/
structure Loading (env : Env) (file : CacheFile) (w : World) : Prop where
  ready : Ready env Nothing w
  read : w.disk = some file

/-- Assigning one of the file's maps. -/
theorem restore_spec (op : RunOp) {file : CacheFile} {w next : World} (loading : Loading env file w)
    (moves : ∀ answer after, runStep op w answer after → after = next ∨ after = w)
    (grows : Grows w next) (disk : next.disk = w.disk) (tmp : next.tmp = w.tmp)
    (only : ∀ v ∈ next.validators, v ∈ file.validators ∨ v ∈ w.validators) :
    (step op).wp (pollerMachine env) (Prog.Ends (Ready env Nothing) fun _ => Loading env file) w := by
  have loaded : Loading env file next := by
    refine ⟨⟨loading.ready.kept.grows grows disk tmp, fun v member => ?_⟩, disk.trans loading.read⟩
    rcases only v member with inFile | inMemory
    · exact .inl ((loading.ready.kept file (.inl loading.read) v inFile).grows grows)
    · exact (loading.ready.remembered v inMemory).imp_left (Delivered.grows grows)
  refine step_spec loading.ready.kept fun answer after moved => ?_
  have either : Loading env file after := by
    rcases moves answer after moved with rfl | rfl
    · exact loaded
    · exact loading
  cases answer with
  | ok value => exact either
  | error exn => exact either.ready

/-- The file is read and its maps assigned; an exception leaves what was assigned before it. -/
theorem restoring_spec {w : World} (ready : Ready env Nothing w) :
    (restore : Polling Unit).wp (pollerMachine env)
      (Prog.Ends (Ready env Nothing) fun _ => Ready env Nothing) w := by
  refine Prog.wp_seq (Loading env) (step_spec ready.kept ?_) ?_
  · rintro answer after ⟨rfl, read⟩
    cases answer with
    | ok file => exact ⟨ready, read file rfl⟩
    | error exn => exact ready
  intro file w loading
  refine Prog.wp_seq (fun _ => Loading env file) (restore_spec (.setEtags file.etag) loading
    (fun _ _ moved => moved.imp_right And.right) (grows_of_same rfl rfl) rfl rfl ?_) ?_
  · exact fun v member => (List.mem_append.mp member).imp (List.mem_append_left _)
      (List.mem_append_right _)
  intro _ w loading
  refine Prog.wp_seq (fun _ => Loading env file) (restore_spec (.setModifieds file.modified) loading
    (fun _ _ moved => moved.imp_right And.right) (grows_of_same rfl rfl) rfl rfl ?_) ?_
  · exact fun v member => (List.mem_append.mp member).symm.imp (List.mem_append_right _)
      (List.mem_append_left _)
  intro _ w loading
  refine Prog.wp_mono ?_ (plain_spec (.setSaved file.backoff) trivial loading.ready.kept
    fun _ same => same.ready loading.ready)
  intro outcome after ends
  cases outcome with
  | ok value => exact Same.ready ends loading.ready
  | error exn => exact ends

theorem load_spec {w : World} (ready : Ready env Nothing w) :
    (load env).wp (pollerMachine env) (Prog.Ends (Kept env) fun _ => Ready env Nothing) w := by
  unfold load
  split
  · refine Prog.wp_seq _ (plain_spec .pathExists trivial ready.kept fun _ same =>
      same.kept ready.kept) ?_
    intro found w same
    replace ready := same.ready ready
    cases found with
    | false => exact ready
    | true =>
      refine Prog.wp_seq (fun _ => Ready env Nothing) (Prog.wp_try ?_) fun _ _ ready => ready
      refine Prog.wp_mono ?_ (restoring_spec ready)
      intro outcome after ends
      cases outcome <;> exact ends
  · exact ready

/-! ### One sweep -/

/-- Between two sweeps: nothing is owed, and the producer accounts for every message. -/
structure Idle (env : Env) (w : World) : Prop where
  ready : Ready env Nothing w
  accounted : w.producer.Accounted

/-- While a sweep's updates are produced: what it owes is among them, and `handed` of them are
with the client. -/
structure Producing (env : Env) (updates handed : List IncidentUpdate) (w : World) : Prop where
  ready : Ready env (Among env updates) w
  accounted : w.producer.Accounted
  sent : ∀ u ∈ handed, ∃ delivery ∈ w.producer.sent, delivery.2 = recordOf env.library u

/-- The `for` loop, by induction on the updates that are left. -/
theorem produceAll_spec {updates : List IncidentUpdate} (left : List IncidentUpdate)
    {handed : List IncidentUpdate} (split : handed ++ left = updates) {w : World}
    (producing : Producing env updates handed w) :
    (produceAll env.library left).wp (pollerMachine env)
      (Prog.Ends (Kept env) fun _ => Producing env updates updates) w := by
  induction left generalizing handed w with
  | nil =>
    rw [List.append_nil] at split
    exact split ▸ producing
  | cons update left ih =>
    refine Prog.wp_seq (fun _ => Producing env updates (handed ++ [update])) ?_ fun _ _ producing =>
      ih (by rw [List.append_assoc]; exact split) producing
    refine Prog.wp_mono ?_ (producing_spec producing.ready.kept
      (produce_spec (recordOf env.library update) producing.accounted))
    rintro outcome after ⟨done, same, grows⟩
    have ready : Ready env (Among env updates) after :=
      producing.ready.grows grows (by rw [same]) (by rw [same]) (by rw [same]; rfl)
    cases outcome with
    | error exn => exact ready.kept
    | ok value =>
      obtain ⟨accounted, older, taken⟩ := done
      refine ⟨ready, accounted, fun u member => ?_⟩
      rcases List.mem_append.mp member with before | last
      · obtain ⟨delivery, inside, record⟩ := producing.sent u before
        exact ⟨delivery, older inside, record⟩
      · exact List.mem_singleton.mp last ▸ taken

/-- **The checked flush pays what the sweep owes.** -/
theorem flush_spec {updates : List IncidentUpdate} {w : World}
    (produced : Producing env updates updates w) :
    (producing BufferedProducer.flushChecked).wp (pollerMachine env)
      (Prog.Ends (Kept env) fun _ => Idle env) w := by
  refine Prog.wp_mono ?_ (producing_spec produced.ready.kept (flushChecked_spec w.producer))
  rintro outcome after ⟨flushed, same, grows⟩
  have ready : Ready env (Among env updates) after :=
    produced.ready.grows grows (by rw [same]) (by rw [same]) (by rw [same]; rfl)
  cases outcome with
  | error exn => exact ready.kept
  | ok value =>
    obtain ⟨sent, accounts⟩ := flushed
    obtain ⟨accounted, acked⟩ := accounts produced.accounted
    refine ⟨ready.owes fun source among => .inl fun found parsed u member => ?_, accounted⟩
    obtain ⟨delivery, inside, record⟩ := produced.sent u (among found parsed u member)
    exact .inr ⟨delivery, acked delivery (sent ▸ inside), record⟩

/-- A step of writing the file, from what it does to the two files. -/
theorem persist_step (op : RunOp) {w : World} (idle : Idle env w)
    (moves : ∀ answer after, runStep op w answer after → after = w ∨ ∃ disk tmp,
      after = { w with disk, tmp } ∧
        ∀ file, disk = some file ∨ tmp = some file → w.disk = some file ∨ w.tmp = some file ∨
          file.validators = w.validators) :
    (step op).wp (pollerMachine env) (Prog.Ends (Idle env) fun _ => Idle env) w := by
  refine step_spec idle.ready.kept fun answer after moved => ?_
  have still : Idle env after := by
    rcases moves answer after moved with rfl | ⟨disk, tmp, rfl, files⟩
    · exact idle
    · have grows : Grows w { w with disk, tmp } := grows_of_same rfl rfl
      refine ⟨⟨fun file there v member => ?_, fun v member => ?_⟩, idle.accounted⟩
      · rcases files file there with onDisk | onTmp | inMemory
        · exact (idle.ready.kept file (.inl onDisk) v member).grows grows
        · exact (idle.ready.kept file (.inr onTmp) v member).grows grows
        · rw [inMemory] at member
          exact ((idle.ready.remembered v member).resolve_right id).grows grows
      · exact (idle.ready.remembered v member).imp_left (Delivered.grows grows)
  cases answer <;> exact still

/-- **The file is written when nothing is owed**, and each step of writing it may be the last. -/
theorem persist_spec {w : World} (idle : Idle env w) :
    (persist : Polling Unit).wp (pollerMachine env)
      (Prog.Ends (Idle env) fun _ => Idle env) w := by
  refine Prog.wp_seq (fun _ => Idle env) (persist_step .makedirs idle
    fun _ _ moved => .inl moved) fun _ w idle => ?_
  refine Prog.wp_seq (fun _ => Idle env) (persist_step .openTmp idle ?_) fun _ w idle => ?_
  · rintro answer after (rfl | ⟨-, rfl⟩)
    · exact .inr ⟨w.disk, none, rfl, fun file there => .inl (there.resolve_right (nomatch ·))⟩
    · exact .inl rfl
  refine Prog.wp_seq (fun _ => Idle env) (persist_step .dumpTmp idle ?_) fun _ w idle => ?_
  · rintro answer after (rfl | ⟨-, rfl⟩)
    · refine .inr ⟨w.disk, _, rfl, fun file there => there.imp_right fun dumped => .inr ?_⟩
      exact Option.some.inj dumped ▸ rfl
    · exact .inr ⟨w.disk, none, rfl, fun file there => .inl (there.resolve_right (nomatch ·))⟩
  refine persist_step .replace idle ?_
  rintro answer after (rfl | ⟨-, rfl⟩)
  · exact .inr ⟨w.tmp, none, rfl, fun file there => .inr (.inl (there.resolve_right (nomatch ·)))⟩
  · exact .inl rfl

theorem Idle.same {w after : World} (idle : Idle env w) (same : Same w after) : Idle env after :=
  ⟨same.ready idle.ready, same.producer ▸ idle.accounted⟩

/-- A plain call between sweeps. -/
theorem plain_idle (op : RunOp) (plain : op.Plain) {w : World} (idle : Idle env w) :
    (step op).wp (pollerMachine env) (Prog.Ends (Kept env) fun _ => Idle env) w := by
  refine Prog.wp_mono ?_ (plain_spec op plain idle.ready.kept
    fun after same => same.kept idle.ready.kept)
  intro outcome after ends
  cases outcome with
  | ok value => exact idle.same ends
  | error exn => exact ends

theorem save_spec {w : World} (idle : Idle env w) :
    (save env).wp (pollerMachine env) (Prog.Ends (Kept env) fun _ => Idle env) w := by
  unfold save
  split
  · refine Prog.wp_seq _ (plain_idle .snapshotBackoff trivial idle) fun _ w idle => ?_
    refine Prog.wp_seq (fun _ => Idle env) (Prog.wp_try ?_) fun _ _ idle => idle
    refine Prog.wp_mono ?_ (persist_spec idle)
    intro outcome after ends
    cases outcome <;> exact ends
  · exact idle

/-- **The step lemma**: a sweep that returns owes nothing. -/
theorem sweep_spec (pages : List Page) (schedule : List Nat) {w : World} (idle : Idle env w) :
    (sweep env pages schedule).wp (pollerMachine env)
      (Prog.Ends (Kept env) fun _ => Idle env) w := by
  refine Prog.wp_seq _ (plain_idle .monotonic trivial idle) fun _ w idle => ?_
  refine Prog.wp_seq (fun updates => Producing env updates []) ?_ fun updates w producing => ?_
  · refine Prog.wp_mono ?_ (Prog.wp_inl_of (fun _ _ kept => kept) (fun _ _ _ _ moved => moved)
      (pollOnce_spec env pages schedule idle.ready idle.accounted))
    intro outcome after ends
    cases outcome with
    | ok updates => exact ⟨ends.1, ends.2, fun _ member => (nomatch member)⟩
    | error exn => exact ends
  refine Prog.wp_seq _ (produceAll_spec updates (List.nil_append _) producing) fun _ w produced => ?_
  refine Prog.wp_seq _ (flush_spec produced) fun _ w idle => ?_
  refine Prog.wp_seq _ (save_spec idle) fun _ w idle => ?_
  exact Prog.wp_seq _ (plain_idle .monotonic trivial idle) fun _ w idle => idle

/-! ### The process -/

theorem sweepAll_spec (pages : List Page) (maxSweeps : Option Int) (schedules : Nat → List Nat)
    (fuel : Nat) {produced sweeps : Nat} {w : World} (idle : Idle env w) :
    (sweepAll env pages maxSweeps schedules fuel produced sweeps).wp (pollerMachine env)
      (Prog.Ends (Kept env) fun _ => Idle env) w := by
  induction fuel generalizing produced sweeps w with
  | zero => exact idle
  | succ fuel ih =>
    unfold sweepAll
    split
    · refine Prog.wp_seq _ (sweep_spec pages (schedules sweeps) idle) fun swept w idle => ?_
      refine Prog.wp_seq (fun _ => Idle env) ?_ fun _ w idle => ih idle
      unfold pause
      split
      · exact plain_idle .sleep trivial idle
      · exact idle
    · exact idle

/-- A producer of this life: nothing was produced yet, and earlier acknowledgements stay. -/
theorem newProducer_spec {w : World} (ready : Ready env Nothing w) :
    (step .newProducer).wp (pollerMachine env) (Prog.Ends (Kept env) fun _ => Idle env) w := by
  refine step_spec ready.kept ?_
  rintro answer after (rfl | ⟨raised, rfl⟩)
  · have grows : Grows w { w with
        producer := {}, acknowledged := w.producer.acked.map Prod.snd ++ w.acknowledged } := by
      rintro record (earlier | ⟨delivery, member, rfl⟩)
      · exact .inl (List.mem_append_right _ earlier)
      · exact .inl (List.mem_append_left _ (List.mem_map_of_mem member))
    have ready' := ready.grows grows rfl rfl rfl
    cases answer with
    | ok value => exact ⟨ready', Producer.accounted_new⟩
    | error exn => exact ready'.kept
  · cases answer with
    | ok value => exact absurd rfl raised
    | error exn => exact ready.kept

/-- **A life of the poller**, from the files that earlier lives left. -/
theorem run_spec (pages : List Page) (maxSweeps : Option Int) (schedules : Nat → List Nat)
    (fuel : Nat) {w : World} (kept : Kept env w) :
    (run env pages maxSweeps schedules fuel).wp (pollerMachine env)
      (Prog.Ends (Kept env) fun _ => Kept env) w := by
  have plain : ∀ op : RunOp, op.Plain → ∀ {w : World}, Ready env Nothing w →
      (step op).wp (pollerMachine env) (Prog.Ends (Kept env) fun _ => Ready env Nothing) w := by
    intro op plain w ready
    refine Prog.wp_mono ?_ (plain_spec op plain ready.kept fun _ same => same.kept ready.kept)
    intro outcome after ends
    cases outcome with
    | ok value => exact Same.ready ends ready
    | error exn => exact ends
  refine Prog.wp_seq _ (newCache_spec kept) fun _ w ready => ?_
  refine Prog.wp_seq _ (load_spec ready) fun _ w ready => ?_
  refine Prog.wp_seq _ (plain .newBackoff trivial ready) fun _ w ready => ?_
  refine Prog.wp_seq _ (plain .restoreBackoff trivial ready) fun _ w ready => ?_
  refine Prog.wp_seq _ (newProducer_spec ready) fun _ w idle => ?_
  refine Prog.wp_seq _ (plain_idle .sleep trivial idle) fun _ w idle => ?_
  refine Prog.wp_mono ?_ (sweepAll_spec pages maxSweeps schedules fuel idle)
  intro outcome after ends
  cases outcome with
  | ok value => exact ends.ready.kept
  | error exn => exact ends

end Run

/-- A life runs `run` on some pages, for some number of sweeps, with its threads interleaved in
some way. -/
def IsRun (env : Env) (program : Polling (Option Nat)) : Prop :=
  ∃ pages maxSweeps schedules fuel, program = run env pages maxSweeps schedules fuel

/-- **A stored validator never gets ahead of Kafka.** After any number of lives, each killed
anywhere or ended by itself, every update parsed from the response of a validator in the cache file
has been acknowledged. -/
theorem stored_validator_delivered (env : Env) (w : World)
    (lives : Restarts (pollerMachine env) (IsRun env) {} w) (file : CacheFile)
    (stored : w.disk = some file) (v : Validator) (member : v ∈ file.validators) :
    Delivered env w v.source := by
  have spec : ∀ program, IsRun env program → ∀ s, Kept env s →
      program.wp (pollerMachine env) (Prog.Ends (Kept env) fun _ => Kept env) s := by
    rintro program ⟨pages, maxSweeps, schedules, fuel, rfl⟩ s kept
    exact run_spec pages maxSweeps schedules fuel kept
  have kept : Kept env w := by
    refine kept_of_restarts lives ?_ spec (fun _ _ kept => kept) ?_
    · rintro file (there | there) <;> exact (nomatch there)
    · intro outcome s ends
      cases outcome <;> exact ends
  exact kept file (.inl stored) v member

/-! One sweep of one page, whose response carries an ETag. -/

def calmUpdate : IncidentUpdate := ⟨"p", "i", "u", 0, "open", "text", "name", "d"⟩

def calmEnv : Env where
  library := { dumps := fun m => m.text, isoformatZ := fun _ => "", hostOf := id }
  parseAtom _ _ := .ok [calmUpdate]

/-- Every call succeeds, and a fetch brings a body with an ETag. -/
def calmPage : (op : PageOp) → World → Except Exn op.Ans × World
  | .skip url, w => (.ok (w.backoff.skip calmEnv.library 0 url), w)
  | .fetch _ _, w => (.ok ⟨200, [("ETag", "e")], some "body"⟩, w)
  | .failed url seconds, w =>
    (.ok (), { w with backoff := (w.backoff.failed calmEnv.library 0 url seconds).2 })
  | .succeeded url, w => (.ok (), { w with backoff := w.backoff.succeeded calmEnv.library url })
  | .getEtag url, w => (.ok ((w.etag.get url).map Validator.value), w)
  | .getModified url, w => (.ok ((w.modified.get url).map Validator.value), w)
  | .setEtag url value source, w => (.ok (), { w with etag := w.etag.set url ⟨value, source⟩ })
  | .setModified url value source, w =>
    (.ok (), { w with modified := w.modified.set url ⟨value, source⟩ })

def calmRun : (op : RunOp) → World → Except Exn op.Ans × World
  | .newCache, w => (.ok (), { w with etag := [], modified := [], saved := {} })
  | .pathExists, w => (.ok w.disk.isSome, w)
  | .readCache, w => match w.disk with
    | some file => (.ok file, w)
    | none => (.error (.exception "no such file"), w)
  | .setEtags items, w => (.ok (), { w with etag := items })
  | .setModifieds items, w => (.ok (), { w with modified := items })
  | .setSaved saved, w => (.ok (), { w with saved })
  | .newBackoff, w => (.ok (), { w with backoff := {} })
  | .restoreBackoff, w => (.ok (), { w with backoff := w.backoff.restore 0 0 w.saved })
  | .newProducer, w => (.ok (), { w with
      producer := {}, acknowledged := w.producer.acked.map Prod.snd ++ w.acknowledged })
  | .monotonic, w => (.ok (0 : Rat), w)
  | .sleep, w => (.ok (), w)
  | .snapshotBackoff, w => (.ok (), { w with saved := w.backoff.snapshot 0 0 })
  | .makedirs, w => (.ok (), w)
  | .openTmp, w => (.ok (), { w with tmp := none })
  | .dumpTmp, w => (.ok (), { w with tmp := some ⟨w.etag, w.modified, w.saved⟩ })
  | .replace, w => (.ok (), { w with disk := w.tmp, tmp := none })

def calmPoller : (op : pollerSig.Op) → World → Except Exn (pollerSig.Ans op) × World
  | .inl op, w => calmPage op.2 w
  | .inr (.inl op), w => calmRun op w
  | .inr (.inr op), w =>
    ((calmClient op w.producer).1, { w with producer := (calmClient op w.producer).2 })

theorem pollerStep_calm (op : pollerSig.Op) (w : World) :
    pollerStep calmEnv op w (calmPoller op w).1 (calmPoller op w).2 := by
  rcases op with ⟨i, op⟩ | op | op
  · cases op with
    | skip url => exact ⟨rfl, fun skipped same => ⟨0, (Except.ok.inj same).symm⟩⟩
    | fetch url headers => exact rfl
    | failed url seconds => exact ⟨0, rfl⟩
    | succeeded url => exact rfl
    | getEtag url => exact ⟨rfl, rfl⟩
    | getModified url => exact ⟨rfl, rfl⟩
    | setEtag url value source => exact ⟨rfl, rfl⟩
    | setModified url value source => exact ⟨rfl, rfl⟩
  · cases op with
    | readCache =>
      rcases w with ⟨_, _, _, _, _, disk, _, _⟩
      cases disk with
      | none => exact ⟨rfl, fun file same => (nomatch same)⟩
      | some file => exact ⟨rfl, fun file same => congrArg some (Except.ok.inj same)⟩
    | setEtags items => exact .inl rfl
    | setModifieds items => exact .inl rfl
    | setSaved saved => exact .inl rfl
    | newProducer => exact .inl rfl
    | openTmp => exact .inl rfl
    | dumpTmp => exact .inl rfl
    | replace => exact .inl rfl
    | restoreBackoff => exact ⟨0, 0, rfl⟩
    | snapshotBackoff => exact ⟨0, 0, rfl⟩
    | newCache => exact rfl
    | pathExists => exact rfl
    | newBackoff => exact rfl
    | monotonic => exact rfl
    | sleep => exact rfl
    | makedirs => exact rfl
  · exact ⟨_, clientStep_calm op w.producer, rfl⟩

/-- The sweep, run to its end. -/
def calmLife : World :=
  ((run calmEnv [⟨"p", "url"⟩] (some 1) (fun _ => []) 2).run calmPoller {}).2

theorem stored_validator_delivered_onePage :
    calmLife.disk = some ⟨[("url", ⟨"e", "p", "body"⟩)], [], {}⟩ ∧
      Delivered calmEnv calmLife ⟨"p", "body"⟩ := by
  have stored : calmLife.disk = some ⟨[("url", ⟨"e", "p", "body"⟩)], [], {}⟩ := by decide +kernel
  refine ⟨stored, stored_validator_delivered calmEnv calmLife ?_ _ stored ⟨"e", "p", "body"⟩ ?_⟩
  · exact .again .never ⟨_, _, _, _, rfl⟩ (Prog.steps_run _ _ pollerStep_calm)
  · exact List.mem_singleton.mpr rfl

end Freshet.Ingest
