/-
**The centroid, and how old the one in use may be.**

`refresh_centroid` stores the mean of a model's vectors, mostly in a process of its own (`make
index-stats`); `get_centroid` keeps what it has read for `CENTROID_TTL_S`. So whatever other processes
store meanwhile, and whichever statements fail, what it answers was stored at most that long before
(`centroid_fresh`): a cache entry was read no earlier than its stamp (`Cached`), which every call keeps.
A refresh of the process's own empties its cache, and every later answer is of after it.
-/

import Freshet.Lib.Dict
import Freshet.Lib.Prog
import Freshet.Pipeline.Index

namespace Freshet.Pipeline.IndexStats

open Freshet.Lib
open Freshet.Autopilot (Time)

/-! ### The functions -/

/-- The columns of `index_stats` behind `model`. -/
structure Stats where
  centroid : String
  nChunks : ℕ
  computedAt : Time

inductive Op
  | monotonic
  | centroidSql (model : String)
  | upsertSql (model centroid : String) (n : ℕ)
  | readSql (model : String)

abbrev Op.Ans : Op → Type
  | monotonic => Int
  | centroidSql _ => Option String × ℕ
  | upsertSql _ _ _ => Unit
  | readSql _ => Option String

abbrev sig : Sig := ⟨Op, Op.Ans⟩

/-- What the driver raises. -/
structure Exn where
  text : String

abbrev Running (α : Type) := Prog sig Exn α

abbrev ask (op : Op) : Running op.Ans := @Prog.perform sig Exn op

/-- `_CACHE`: when the entry was stamped, and what was read. -/
abbrev Cache := Dict String (Int × Option String)

/-- `CENTROID_TTL_S`, in microseconds. -/
def centroidTtl : Int := 300000000

/-- `refresh_centroid`, and the cache. -/
def refreshCentroid (cache : Cache) (model : String) : Running (ℕ × Cache) := do
  let row ← ask (.centroidSql model)
  match row with
  | (none, _) => pure (0, cache)
  | (some centroid, n) => do
    ask (.upsertSql model centroid n)
    pure (n, [])

/-- What `get_centroid` does without a hit. -/
def readCentroid (cache : Cache) (model : String) (stamp : Int) : Running (Option String × Cache) := do
  let value ← ask (.readSql model)
  pure (value, cache.set model (stamp, value))

/-- `get_centroid`, and the cache. -/
def getCentroid (cache : Cache) (model : String) : Running (Option String × Cache) :=
  if model = "" then pure (none, cache)
  else do
    let stamp ← ask .monotonic
    match cache.get model with
    | some (stamped, value) =>
      if stamp - stamped < centroidTtl then pure (value, cache) else readCentroid cache model stamp
    | none => readCentroid cache model stamp

/-! ### The database -/

/-- `SELECT avg(embedding)::text, count(*) … WHERE model = …`. -/
def averageOf (average : List Column → String) (records : Table String Chunk) (model : String) :
    Option String × ℕ :=
  let rows := (records.entries.map Sigma.snd).filter fun row => row.model = some model
  (if rows = [] then none else some (average (rows.map Chunk.embedding)), rows.length)

/-- The clocks and the tables. `seen` is history: what `index_stats` was, and when. -/
structure World where
  now : Int
  dbNow : Time
  records : Table String Chunk
  stored : Table String Stats
  seen : List (Int × Table String Stats)

/-- Time passes, and other sessions write what they like. -/
def World.Moved (w after : World) : Prop :=
  w.now ≤ after.now ∧ after.seen = (after.now, after.stored) :: w.seen

/-- `_UPSERT_SQL`. -/
def World.upsert (w : World) (model centroid : String) (n : ℕ) : World :=
  let stored := w.stored.upsert model ⟨centroid, n, w.dbNow⟩ fun _ => ⟨centroid, n, w.dbNow⟩
  { w with
    stored := stored
    seen := (w.now, stored) :: w.seen }

/-- **What a call answers**, from the tables as they are when it is made. A statement may fail; a write
that fails may have taken effect. -/
def World.Answers (average : List Column → String) (w : World) :
    (op : Op) → Except Exn op.Ans → World → Prop
  | .monotonic, answer, after => answer = .ok w.now ∧ after = w
  | .centroidSql model, answer, after =>
    (answer = .ok (averageOf average w.records model) ∨ ∃ exn, answer = .error exn) ∧ after = w
  | .readSql model, answer, after =>
    (answer = .ok ((w.stored.lookup model).map Stats.centroid) ∨ ∃ exn, answer = .error exn) ∧ after = w
  | .upsertSql model centroid n, answer, after =>
    (answer = .ok () ∧ after = w.upsert model centroid n) ∨
      ((∃ exn, answer = .error exn) ∧ (after = w ∨ after = w.upsert model centroid n))

/-- One process, among others. -/
def machine (average : List Column → String) : Machine sig Exn World where
  safe _ _ := True
  step op w answer after := ∃ here, w.Moved here ∧ here.Answers average op answer after

/-! ### The cache -/

/-- **What was stored** for a model, at some moment not before `since`. -/
def StoredSince (since : Int) (model : String) (value : Option String) (w : World) : Prop :=
  ∃ t stored, (t, stored) ∈ w.seen ∧ since ≤ t ∧ value = (stored.lookup model).map Stats.centroid

/-- **The invariant**: an entry was read no earlier than its stamp, and not before `floor`, when the cache
was empty. -/
structure Cached (floor : Int) (cache : Cache) (w : World) : Prop where
  passed : floor ≤ w.now
  entries : ∀ model stamped value, cache.get model = some (stamped, value) →
    StoredSince (max floor stamped) model value w

/-- A later world of a run. -/
def Later (w after : World) : Prop := w.now ≤ after.now ∧ w.seen ⊆ after.seen

variable {average : List Column → String} {cache : Cache} {model : String} {w after : World}

theorem later_of_step {op : Op} {answer : Except Exn op.Ans}
    (step : (machine average).step op w answer after) : Later w after := by
  obtain ⟨here, ⟨passed, grown⟩, answered⟩ := step
  have moved : w.seen ⊆ here.seen := fun item member => grown ▸ List.mem_cons_of_mem _ member
  have stays : after = here → Later w after := by
    rintro rfl
    exact ⟨passed, moved⟩
  cases op with
  | monotonic => exact stays answered.2
  | centroidSql model => exact stays answered.2
  | readSql model => exact stays answered.2
  | upsertSql model centroid n =>
    have written : after = here.upsert model centroid n → Later w after := by
      rintro rfl
      exact ⟨passed, fun item member => List.mem_cons_of_mem _ (moved member)⟩
    rcases answered with ⟨-, done⟩ | ⟨-, same | done⟩
    · exact written done
    · exact stays same
    · exact written done

theorem StoredSince.since {since later : Int} {value : Option String}
    (holds : StoredSince later model value w) (order : since ≤ later) :
    StoredSince since model value w := by
  obtain ⟨t, stored, member, after, same⟩ := holds
  exact ⟨t, stored, member, order.trans after, same⟩

theorem StoredSince.later {since : Int} {value : Option String}
    (holds : StoredSince since model value w) (later : Later w after) :
    StoredSince since model value after := by
  obtain ⟨t, stored, member, order, same⟩ := holds
  exact ⟨t, stored, later.2 member, order, same⟩

theorem Cached.later {floor : Int} (cached : Cached floor cache w) (later : Later w after) :
    Cached floor cache after where
  passed := cached.passed.trans later.1
  entries model stamped value found := (cached.entries model stamped value found).later later

theorem cached_nil (w : World) : Cached w.now [] w where
  passed := le_rfl
  entries _ _ _ found := nomatch found

/-- **What a call of `get_centroid` gives**: an answer of not before `since`, and none to a blank
model. -/
def Gives (model : String) (since : Int) : Except Exn (Option String × Cache) → World → Prop
  | .ok (value, _), after => if model = "" then value = none else StoredSince since model value after
  | .error _, _ => True

theorem gives_of_stored {since : Int} {value : Option String} (named : model ≠ "")
    (stored : StoredSince since model value w) : Gives model since (.ok (value, cache)) w := by
  show if model = "" then value = none else StoredSince since model value w
  rw [if_neg named]
  exact stored

theorem Gives.since {since later : Int} {outcome : Except Exn (Option String × Cache)}
    (gives : Gives model later outcome w) (order : since ≤ later) : Gives model since outcome w := by
  match outcome with
  | .error exn => trivial
  | .ok (value, cache) =>
    by_cases blank : model = ""
    · subst blank
      exact gives
    · have stored : if model = "" then value = none else StoredSince later model value w := gives
      rw [if_neg blank] at stored
      exact gives_of_stored blank (stored.since order)

/-- What a call leaves in the cache; one that raises leaves it as it was. -/
def Leaves {α : Type} (floor : Int) (cache : Cache) : Except Exn (α × Cache) → World → Prop
  | .ok (_, cache'), after => Cached floor cache' after
  | .error _, after => Cached floor cache after

section Calls

variable {floor : Int}

/-- What is read is of not before the stamp. -/
theorem wp_readCentroid (named : model ≠ "") (cached : Cached floor cache w) {since stamp : Int}
    (stamped : stamp ≤ w.now) (order : since ≤ max floor stamp) :
    (readCentroid cache model stamp).wp (machine average)
      (fun outcome after => Gives model since outcome after ∧ Leaves floor cache outcome after) w := by
  refine Prog.wp_bind.mpr (Prog.wp_perform.mpr ⟨trivial, fun answer after step => ?_⟩)
  have kept := cached.later (later_of_step step)
  obtain ⟨here, ⟨passed, grown⟩, answered, same⟩ := step
  rcases answered with rfl | ⟨exn, rfl⟩
  · have read : StoredSince (max floor stamp) model ((here.stored.lookup model).map Stats.centroid)
        after := by
      refine ⟨here.now, here.stored, ?_, max_le (cached.passed.trans passed) (stamped.trans passed), rfl⟩
      rw [same, grown]
      exact List.mem_cons_self
    refine ⟨?_, kept.passed, fun model' stamped' value' found => ?_⟩
    · exact gives_of_stored named (read.since order)
    · rw [Dict.get_set] at found
      split_ifs at found with own
      · obtain ⟨rfl, rfl⟩ := Prod.mk.inj (Option.some.inj found)
        rw [own]
        exact read
      · exact kept.entries model' stamped' value' found
  · exact ⟨trivial, kept⟩

/-- **The step lemma**: what is answered was stored at most `CENTROID_TTL_S` before, and not before the
cache was empty. -/
theorem wp_getCentroid (cached : Cached floor cache w) :
    (getCentroid cache model).wp (machine average) (fun outcome after =>
      Gives model (max floor (w.now - centroidTtl)) outcome after ∧ Leaves floor cache outcome after)
      w := by
  unfold getCentroid
  split_ifs with blank
  · subst blank
    exact ⟨rfl, cached⟩
  refine Prog.wp_bind.mpr (Prog.wp_perform.mpr ⟨trivial, fun answer after step => ?_⟩)
  have kept := cached.later (later_of_step step)
  obtain ⟨here, ⟨passed, -⟩, rfl, rfl⟩ := step
  have aged : max floor (w.now - centroidTtl) ≤ max floor after.now := by
    unfold centroidTtl
    omega
  show (match cache.get model with
    | some (stamped, value) => if after.now - stamped < centroidTtl then pure (value, cache)
      else readCentroid cache model after.now
    | none => readCentroid cache model after.now : Running (Option String × Cache)).wp
      (machine average) _ after
  cases found : cache.get model with
  | none => exact wp_readCentroid blank kept le_rfl aged
  | some entry =>
    obtain ⟨stamped, value⟩ := entry
    show (if after.now - stamped < centroidTtl then pure (value, cache)
      else readCentroid cache model after.now : Running (Option String × Cache)).wp
        (machine average) _ after
    split_ifs with young
    · have recent : max floor (w.now - centroidTtl) ≤ max floor stamped := by omega
      exact ⟨gives_of_stored blank ((kept.entries model stamped value found).since recent), kept⟩
    · exact wp_readCentroid blank kept le_rfl aged

/-- A refresh that has stored something leaves the cache empty, else as it was. -/
theorem wp_refreshCentroid (cached : Cached floor cache w) :
    (refreshCentroid cache model).wp (machine average) (fun outcome after =>
      Leaves floor cache outcome after ∧
        ∀ n cache', outcome = .ok (n, cache') → n ≠ 0 → Cached after.now cache' after) w := by
  refine Prog.wp_bind.mpr (Prog.wp_perform.mpr ⟨trivial, fun answer middle step => ?_⟩)
  have kept := cached.later (later_of_step step)
  match answer with
  | .error exn => exact ⟨kept, fun _ _ impossible => nomatch impossible⟩
  | .ok (none, n) =>
    refine ⟨kept, fun n cache' same full => absurd ?_ full⟩
    exact (Prod.mk.inj (Except.ok.inj same)).1.symm
  | .ok (some centroid, n) =>
    refine Prog.wp_bind.mpr (Prog.wp_perform.mpr ⟨trivial, fun answer after step' => ?_⟩)
    have later := later_of_step step'
    match answer with
    | .error exn => exact ⟨kept.later later, fun _ _ impossible => nomatch impossible⟩
    | .ok () =>
      refine ⟨⟨(kept.later later).passed, fun _ _ _ found => nomatch found⟩, fun _ cache' same _ => ?_⟩
      obtain rfl : [] = cache' := (Prod.mk.inj (Except.ok.inj same)).2
      exact cached_nil after

end Calls

/-! ### A process -/

inductive Call
  | get (model : String)
  | refresh (model : String)

/-- What a call leaves in the cache. -/
def Call.run (cache : Cache) : Call → Running Cache
  | .get model => do
    let (_, cache) ← getCentroid cache model
    pure cache
  | .refresh model => do
    let (_, cache) ← refreshCentroid cache model
    pure cache

/-- Calls one after the other; what they raise is their callers' concern. -/
def serve : List Call → Cache → Running Cache
  | [], cache => pure cache
  | call :: later, cache => do
    match ← (call.run cache).attempt with
    | .ok cache => serve later cache
    | .error _ => serve later cache

theorem wp_serve {floor : Int} (calls : List Call) (cached : Cached floor cache w) :
    (serve calls cache).wp (machine average) (fun outcome after =>
      ∃ cache', outcome = .ok cache' ∧ Cached floor cache' after) w := by
  induction calls generalizing cache w with
  | nil => exact ⟨cache, rfl, cached⟩
  | cons call later ih =>
    have kept : (call.run cache).wp (machine average) (fun outcome after => match outcome with
        | .ok cache' => Cached floor cache' after
        | .error _ => Cached floor cache after) w := by
      cases call with
      | get model =>
        refine Prog.wp_bind.mpr (Prog.wp_mono ?_ (wp_getCentroid cached))
        rintro (exn | ⟨value, cache'⟩) after gives
        · exact gives.2
        · exact gives.2
      | refresh model =>
        refine Prog.wp_bind.mpr (Prog.wp_mono ?_ (wp_refreshCentroid cached))
        rintro (exn | ⟨n, cache'⟩) after leaves
        · exact leaves.1
        · exact leaves.1
    refine Prog.wp_bind.mpr (Prog.wp_attempt.mpr (Prog.wp_mono ?_ kept))
    rintro (exn | cache') after cached'
    · exact ih cached'
    · exact ih cached'

/-- **The centroid in use is at most `CENTROID_TTL_S` old**, after any calls of a process whatever the
others store; and after a refresh of its own it is of after the refresh, whatever is called between. -/
theorem centroid_fresh (average : List Column → String) (calls later : List Call) (w : World) :
    (serve calls []).wp (machine average) (fun outcome now => ∃ cache, outcome = .ok cache ∧
      (∀ model, (getCentroid cache model).wp (machine average)
        (Gives model (now.now - centroidTtl)) now) ∧
      ∀ other, (refreshCentroid cache other).wp (machine average) (fun refreshed after =>
        ∀ n cache', refreshed = .ok (n, cache') → n ≠ 0 →
          (serve later cache').wp (machine average) (fun outcome last => ∃ cache'', outcome = .ok cache'' ∧
            ∀ model, (getCentroid cache'' model).wp (machine average)
              (Gives model (max after.now (last.now - centroidTtl))) last) after) now) w := by
  refine Prog.wp_mono ?_ (wp_serve calls (cached_nil w))
  rintro _ now ⟨cache, rfl, cached⟩
  refine ⟨cache, rfl, fun model => Prog.wp_mono ?_ (wp_getCentroid cached), fun other => ?_⟩
  · exact fun outcome after gives => gives.1.since (le_max_right _ _)
  · refine Prog.wp_mono ?_ (wp_refreshCentroid cached)
    rintro _ after ⟨-, emptied⟩ n cache' rfl stored
    refine Prog.wp_mono ?_ (wp_serve later (emptied n cache' rfl stored))
    rintro _ last ⟨cache'', rfl, cached''⟩
    refine ⟨cache'', rfl, fun model => Prog.wp_mono ?_ (wp_getCentroid cached'')⟩
    exact fun outcome final gives => gives.1

/-! ### A run -/

/-- No other session writes, no time passes, and nothing fails. -/
def server (average : List Column → String) : (op : Op) → World → Except Exn op.Ans × World :=
  fun op w =>
    let here := { w with seen := (w.now, w.stored) :: w.seen }
    match op with
    | .monotonic => (.ok here.now, here)
    | .centroidSql model => (.ok (averageOf average here.records model), here)
    | .readSql model => (.ok ((here.stored.lookup model).map Stats.centroid), here)
    | .upsertSql model centroid n => (.ok (), here.upsert model centroid n)

theorem server_step (average : List Column → String) (op : Op) (w : World) :
    (machine average).step op w (server average op w).1 (server average op w).2 := by
  refine ⟨{ w with seen := (w.now, w.stored) :: w.seen }, ⟨le_rfl, rfl⟩, ?_⟩
  cases op with
  | monotonic => exact ⟨rfl, rfl⟩
  | centroidSql model => exact ⟨Or.inl rfl, rfl⟩
  | readSql model => exact ⟨Or.inl rfl, rfl⟩
  | upsertSql model centroid n => exact Or.inl ⟨rfl, rfl⟩

/-- One chunk, and no centroid yet. -/
def oneChunk : World where
  now := 0
  dbNow := 0
  records := (∅ : Table String Chunk).upsert "chk_evt_0"
    { chunkIndex := some 0, eventId := "evt", incidentId := none, service := "openai", ts := 0,
      indexedAt := 0, source := .alert, text := [], title := none, severity := none, type := "",
      model := some "stub", embedding := .replicate 768 0 } id
  stored := ∅
  seen := []

/-- The process has asked once, when there was no centroid. -/
def askedOnce : World := ((serve [.get "stub"] []).run (server fun _ => "[0]") oneChunk).2

def refreshedOnce : World :=
  ((refreshCentroid [("stub", (0, none))] "stub").run (server fun _ => "[0]") askedOnce).2

/-- Within `CENTROID_TTL_S` it gives the old answer; after its refresh it gives what was stored. -/
theorem centroid_fresh_refreshed :
    ((getCentroid [("stub", (0, none))] "stub").run (server fun _ => "[0]") askedOnce).1 =
      .ok (none, [("stub", (0, none))]) ∧
    ∃ last, (getCentroid [] "stub").run (server fun _ => "[0]") refreshedOnce =
        (.ok (some "[0]", [("stub", (0, some "[0]"))]), last) ∧
      StoredSince refreshedOnce.now "stub" (some "[0]") last := by
  refine ⟨rfl, _, rfl, ?_⟩
  obtain ⟨cache, asked, -, refreshed⟩ := Prog.wp_run (server_step fun _ => "[0]")
    (centroid_fresh (fun _ => "[0]") [.get "stub"] [] oneChunk)
  obtain rfl : [("stub", (0, none))] = cache := Except.ok.inj asked
  obtain ⟨cache', ended, gives⟩ := Prog.wp_run (server_step fun _ => "[0]")
    (Prog.wp_run (server_step fun _ => "[0]") (refreshed "stub") 1 [] rfl one_ne_zero)
  obtain rfl : [] = cache' := Except.ok.inj ended
  exact (Prog.wp_run (server_step fun _ => "[0]") (gives "stub") : Gives _ _ _ _)

end Freshet.Pipeline.IndexStats
