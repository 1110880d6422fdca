/-
**When the chunks of an event carry one timestamp.**

An upsert overwrites a chunk's text and leaves its `ts`, and a new chunk takes the `ts` of the version
that adds it. So the chunks of an event keep one stamp through every version that adds none or
carries the stamp they have (`Fitting`), and through no other: where every version is handled to its
end, each one that is indexed leaves one stamp exactly when it was fitting (`one_stamp_iff`).
-/

import Freshet.Pipeline.Rewriting

namespace Freshet.Pipeline

open Freshet.Lib Freshet.Kafka
open Freshet.Autopilot (Time)

/-! ### Stamps -/

/-- All rows of the event carry one `ts`. -/
def Index.OneStamp (index : Index) (eventId : String) : Prop :=
  ∀ key key' row row', index.vectorRecords.lookup key = some row →
    index.vectorRecords.lookup key' = some row' → row.eventId = eventId → row'.eventId = eventId →
      row.ts = row'.ts

/-- The chunks of every event are numbered without a gap. -/
def Index.Contiguous (index : Index) : Prop :=
  ∀ eventId i j, i ≤ j → (index.chunk eventId j).isSome → (index.chunk eventId i).isSome

/-- The index that a run starts from. -/
structure Index.Orderly (index : Index) : Prop where
  keyed : index.WellKeyed
  contiguous : index.Contiguous
  uniform : ∀ eventId, index.OneStamp eventId

/-- **A version that fits**: it adds no chunk, or its `ts` is that of the chunks there are. -/
def Fitting (index : Index) (ev : Event) : Prop :=
  (∀ i < (chunkText ev.text).length, (index.chunk ev.eventId i).isSome) ∨
    ∀ i row, index.chunk ev.eventId i = some row → row.ts = ev.ts

theorem oneStamp_iff {index : Index} (keyed : index.WellKeyed) {eventId : String} :
    index.OneStamp eventId ↔ ∀ i j row row', index.chunk eventId i = some row →
      index.chunk eventId j = some row' → row.ts = row'.ts := by
  constructor
  · intro uniform i j row row' found found'
    exact uniform _ _ row row' found found' (keyed.columns found).1 (keyed.columns found').1
  · rintro uniform key key' row row' found found' rfl same
    obtain ⟨i, here⟩ := keyed.exists_chunk found
    obtain ⟨j, here'⟩ := keyed.exists_chunk found'
    exact uniform i j row row' here (same ▸ here')

/-- Where the table is the same, so is all that is said of it. -/
theorem Index.chunk_of_same {index index' : Index}
    (same : index'.vectorRecords = index.vectorRecords) (eventId : String) (i : Nat) :
    index'.chunk eventId i = index.chunk eventId i := by
  unfold Index.chunk
  rw [same]

theorem oneStamp_congr {index index' : Index} (keyed : index.WellKeyed) (keyed' : index'.WellKeyed)
    {eventId : String} (same : ∀ i, index'.chunk eventId i = index.chunk eventId i) :
    index'.OneStamp eventId ↔ index.OneStamp eventId := by
  rw [oneStamp_iff keyed, oneStamp_iff keyed']
  simp only [same]

/-! ### One version -/

section Version

variable {before : Index} {ev : Event} {w : World}

/-- **A fitting version leaves one stamp**, wherever it is stopped. -/
theorem Rewriting.uniform (rewriting : Rewriting before ev w) (keyed : before.WellKeyed)
    (uniform : ∀ eventId, before.OneStamp eventId) (fits : Fitting before ev) (eventId : String) :
    w.index.OneStamp eventId := by
  by_cases other : eventId ≠ ev.eventId
  · exact (oneStamp_congr keyed rewriting.keyed (rewriting.others eventId other)).mpr
      (uniform eventId)
  obtain rfl := not_not.mp other
  have old := (oneStamp_iff keyed).mp (uniform ev.eventId)
  rw [oneStamp_iff rewriting.keyed]
  intro i j row row' found found'
  rw [rewriting.stamps i row found, rewriting.stamps j row' found']
  rcases fits with present | carried
  · -- no chunk is new
    have there : ∀ i row, w.index.chunk ev.eventId i = some row →
        ∃ held, before.chunk ev.eventId i = some held := by
      intro i row found
      refine Option.isSome_iff_exists.mp ?_
      by_cases within : i < (chunkText ev.text).length
      · exact present i within
      · exact rewriting.orphans i (Nat.le_of_not_lt within) (by rw [found]; rfl)
    obtain ⟨held, had⟩ := there i row found
    obtain ⟨held', had'⟩ := there j row' found'
    unfold stampAt
    rw [had, had']
    exact old i j held held' had had'
  · have own : ∀ i, stampAt before ev i = ev.ts := by
      intro i
      unfold stampAt
      cases had : before.chunk ev.eventId i with
      | none => rfl
      | some held => exact carried i held had
    rw [own, own]

/-- **A version that was indexed and left one stamp was fitting.** -/
theorem Rewritten.fitting (rewritten : Rewritten before ev w.index) (keyed : before.WellKeyed)
    (keyed' : w.index.WellKeyed) (contiguous : before.Contiguous)
    (old : before.OneStamp ev.eventId) (uniform : w.index.OneStamp ev.eventId) :
    Fitting before ev := by
  by_contra unfit
  obtain ⟨new, held⟩ := not_or.mp unfit
  push Not at new held
  obtain ⟨i, within, absent⟩ := new
  obtain ⟨j, row, had, differs⟩ := held
  -- the first chunk keeps the old stamp, and the new one has the version's
  have first : 0 < (chunkText ev.text).length := Nat.lt_of_le_of_lt (Nat.zero_le i) within
  obtain ⟨zero, hadZero⟩ := Option.isSome_iff_exists.mp
    (contiguous ev.eventId 0 j (Nat.zero_le j) (by rw [had]; rfl))
  obtain ⟨row₀, found₀, -, -, -, -, -, stamp₀⟩ :=
    rewritten.within 0 _ (List.getElem?_eq_getElem first)
  obtain ⟨rowᵢ, foundᵢ, -, -, -, -, -, stampᵢ⟩ :=
    rewritten.within i _ (List.getElem?_eq_getElem within)
  have same : row₀.ts = rowᵢ.ts := (oneStamp_iff keyed').mp uniform 0 i row₀ rowᵢ found₀ foundᵢ
  have kept : stampAt before ev 0 = zero.ts := by
    unfold stampAt
    rw [hadZero]
    rfl
  have given : stampAt before ev i = ev.ts := by
    unfold stampAt
    rw [Option.not_isSome_iff_eq_none.mp absent]
    rfl
  have uniform₀ : zero.ts = row.ts := (oneStamp_iff keyed).mp old 0 j zero row hadZero had
  exact differs (by rw [← uniform₀, ← kept, ← stamp₀, same, stampᵢ, given])

/-- A version that was indexed leaves no gap. -/
theorem Rewritten.contiguous (rewritten : Rewritten before ev w.index)
    (rewriting : Rewriting before ev w) (contiguous : before.Contiguous) :
    w.index.Contiguous := by
  intro eventId i j le present
  by_cases other : eventId ≠ ev.eventId
  · rw [rewriting.others eventId other] at present ⊢
    exact contiguous eventId i j le present
  obtain rfl := not_not.mp other
  by_cases within : j < (chunkText ev.text).length
  · obtain ⟨row, found, -⟩ :=
      rewritten.within i _ (List.getElem?_eq_getElem (Nat.lt_of_le_of_lt le within))
    rw [found]
    rfl
  · rw [rewritten.beyond j (Nat.le_of_not_lt within)] at present
    exact absurd present Bool.false_ne_true

end Version

/-! ### Histories -/

/-- One handling of a version. `left` is where the handler left, if it returned. -/
structure Edition where
  version : Event
  before : Index
  left : Option Leaving
  after : Index

/-- Where a program that has returned left. -/
def returned : Handling Leaving → Option Leaving
  | .ret leaving => some leaving
  | _ => none

/-- **The versions an embedder has handled**, newest first, of one event or of many. Each handling
is a run that may have been stopped at any call or raised. -/
inductive Editions (around : Surroundings) (config : HandlerConfig) (first : Index) :
    List Edition → Index → Prop
  | start : Editions around config first [] first
  | more {history : List Edition} {w after : World} {ev : Event} {value : String}
      {rest : Handling Leaving} (before : Editions around config first history w.index)
      (run : Prog.Steps (handlerMachine around fun _ => True) (handleEvent config ev value) w
        rest after) :
      Editions around config first (⟨ev, w.index, returned rest, after.index⟩ :: history)
        after.index

section Histories

variable {around : Surroundings} {config : HandlerConfig}

/-- What a run of `handleEvent` has done, wherever it is. -/
theorem rewriting_of_steps {ev : Event} {value : String} {w after : World}
    {rest : Handling Leaving} (keyed : w.index.WellKeyed)
    (run : Prog.Steps (handlerMachine around fun _ => True) (handleEvent config ev value) w
      rest after) :
    Rewriting w.index ev after ∧ (returned rest = some .indexed → Rewritten w.index ev after.index) ∧
      ((returned rest).isSome → returned rest ≠ some .indexed →
        after.index.vectorRecords = w.index.vectorRecords) := by
  have run' := Steps.demanding run (Rewriting w.index ev)
  have spec := @handleEvent_rewrites around config value ev w keyed
  refine ⟨Prog.kept_of_steps (fun _ _ safe => safe) ?_ spec run', ?_⟩
  · intro outcome s ends
    cases outcome with
    | error exn => exact ends
    | ok leaving => exact ends.1
  have here := Prog.wp_steps run' spec
  cases rest with
  | ret leaving =>
    obtain ⟨-, indexed, -, otherwise⟩ := here
    exact ⟨fun left => indexed (Option.some.inj left), fun _ other =>
      otherwise fun left => other (congrArg some left)⟩
  | raise exn => exact ⟨(fun left => absurd left (Option.some_ne_none _).symm), fun ended => absurd ended Bool.false_ne_true⟩
  | call op next => exact ⟨(fun left => absurd left (Option.some_ne_none _).symm), fun ended => absurd ended Bool.false_ne_true⟩

variable {first last : Index} {history : List Edition}

theorem Editions.keyed (editions : Editions around config first history last)
    (keyed : first.WellKeyed) : last.WellKeyed := by
  induction editions with
  | start => exact keyed
  | more before run ih => exact (rewriting_of_steps ih run).1.keyed

/-- **Fitting versions leave one stamp**, whether or not they were handled to their ends. -/
theorem Editions.uniform (editions : Editions around config first history last)
    (orderly : first.Orderly)
    (fits : ∀ edition ∈ history, Fitting edition.before edition.version) (eventId : String) :
    last.OneStamp eventId := by
  induction editions generalizing eventId with
  | start => exact orderly.uniform eventId
  | more before run ih =>
    obtain ⟨fit, fits⟩ := List.forall_mem_cons.mp fits
    have keyed := before.keyed orderly.keyed
    exact (rewriting_of_steps keyed run).1.uniform keyed (ih fits) fit eventId

/-- Versions handled to their ends leave no gap. -/
theorem Editions.contiguous (editions : Editions around config first history last)
    (orderly : first.Orderly) (whole : ∀ edition ∈ history, edition.left.isSome) :
    last.Contiguous := by
  induction editions with
  | start => exact orderly.contiguous
  | @more history w after ev value rest before run ih =>
    obtain ⟨left, whole⟩ := List.forall_mem_cons.mp whole
    obtain ⟨rewriting, indexed, otherwise⟩ :=
      rewriting_of_steps (before.keyed orderly.keyed) run
    by_cases was : returned rest = some .indexed
    · exact (indexed was).contiguous rewriting (ih whole)
    · intro eventId i j le
      rw [Index.chunk_of_same (otherwise left was), Index.chunk_of_same (otherwise left was)]
      exact ih whole eventId i j le

/-- **Where every version is handled to its end**, each that is indexed leaves one stamp exactly
when each was fitting. Either way every event has one stamp in between. -/
theorem Editions.uniform_iff (editions : Editions around config first history last)
    (orderly : first.Orderly) (whole : ∀ edition ∈ history, edition.left.isSome) :
    ((∀ edition ∈ history, edition.left = some .indexed →
        edition.after.OneStamp edition.version.eventId) ↔
      ∀ edition ∈ history, edition.left = some .indexed →
        Fitting edition.before edition.version) ∧
    ((∀ edition ∈ history, edition.left = some .indexed →
        Fitting edition.before edition.version) → ∀ eventId, last.OneStamp eventId) := by
  induction editions with
  | start =>
    have nothing : ∀ {p : Edition → Prop}, ∀ edition ∈ ([] : List Edition), p edition :=
      fun edition member => absurd member List.not_mem_nil
    exact ⟨⟨fun _ => nothing, fun _ => nothing⟩, fun _ => orderly.uniform⟩
  | @more history w after ev value rest before run ih =>
    obtain ⟨left, whole⟩ := List.forall_mem_cons.mp whole
    obtain ⟨earlier, uniform⟩ := ih whole
    have keyed := before.keyed orderly.keyed
    have contiguous := before.contiguous orderly whole
    obtain ⟨rewriting, indexed, otherwise⟩ := rewriting_of_steps keyed run
    have next : (∀ eventId, w.index.OneStamp eventId) →
        (returned rest = some .indexed → Fitting w.index ev) →
        ∀ eventId, after.index.OneStamp eventId := by
      intro uniform fits eventId
      by_cases was : returned rest = some .indexed
      · exact rewriting.uniform keyed uniform (fits was) eventId
      · exact (oneStamp_congr keyed rewriting.keyed
          (Index.chunk_of_same (otherwise left was) eventId)).mpr (uniform eventId)
    rw [List.forall_mem_cons, List.forall_mem_cons]
    refine ⟨⟨?_, ?_⟩, ?_⟩
    · rintro ⟨one, all⟩
      have fits := earlier.mp all
      exact ⟨fun was => (indexed was).fitting keyed rewriting.keyed contiguous
        (uniform fits ev.eventId) (one was), fits⟩
    · rintro ⟨fit, fits⟩
      exact ⟨fun was => next (uniform fits) fit ev.eventId, earlier.mpr fits⟩
    · rintro ⟨fit, fits⟩
      exact next (uniform fits) fit

/-- **The chunks of an event carry one stamp in every state, if every version handled is fitting**;
and of versions handled to their ends each one that is indexed leaves one stamp only if each was. -/
theorem one_stamp_iff (editions : Editions around config first history last)
    (orderly : first.Orderly) :
    ((∀ edition ∈ history, Fitting edition.before edition.version) →
      ∀ eventId, last.OneStamp eventId) ∧
    ((∀ edition ∈ history, edition.left.isSome) →
      ((∀ edition ∈ history, edition.left = some .indexed →
          edition.after.OneStamp edition.version.eventId) ↔
        ∀ edition ∈ history, edition.left = some .indexed →
          Fitting edition.before edition.version)) :=
  ⟨editions.uniform orderly, fun whole => (editions.uniform_iff orderly whole).1⟩

end Histories

/-! An update that is edited into a longer one. -/

def shortVersion : Event where
  eventId := "openai:INC-1:a"
  v := 1
  ts := 0
  service := "openai"
  source := .alert
  type := "status_update"
  severity := none
  incidentId := none
  title := none
  text := "Status: Monitoring".toList

/-- Its text has one more chunk, and its `ts` is another. -/
def longVersion : Event :=
  { shortVersion with ts := 1, text := "Status: Resolved ".toList ++ List.replicate 400 'a' }

def zeroAround : Surroundings :=
  ⟨fun _ => .error "Field required", fun texts answer => answer = zeroVectors texts⟩

@[irreducible] def handling (ev : Event) (w : World) : Except Exn Leaving × World :=
  (handleEvent plainConfig ev "event").run (calmHandler zeroAround.validate zeroVectors) w

def shortWorld : World := (handling shortVersion newWorld).2

def longWorld : World := (handling longVersion shortWorld).2

/-- The two handlings. -/
def editing : List Edition :=
  [⟨longVersion, shortWorld.index, some .indexed, longWorld.index⟩,
    ⟨shortVersion, .empty, some .indexed, shortWorld.index⟩]

theorem orderly_empty : Index.empty.Orderly := by
  refine ⟨keyed_empty, ?_, ?_⟩
  · intro eventId i j le present
    cases present
  · intro eventId key key' row row' found
    cases found

theorem editions_editing :
    Editions zeroAround plainConfig .empty editing longWorld.index := by
  have run : ∀ ev w, (handling ev w).1 = .ok .indexed →
      Prog.Steps (handlerMachine zeroAround fun _ => True) (handleEvent plainConfig ev "event") w
        (.ret .indexed) (handling ev w).2 := by
    intro ev w left
    have run := @Prog.steps_run handlerSig Exn Leaving World
      (handlerMachine zeroAround fun _ => True) (calmHandler zeroAround.validate zeroVectors)
      (handleEvent plainConfig ev "event") w (handlerStep_calm fun _ => rfl)
    unfold handling at left ⊢
    rw [left] at run
    exact run
  have one : (handling shortVersion newWorld).1 = .ok .indexed := by decide +kernel
  have two : (handling longVersion shortWorld).1 = .ok .indexed := by decide +kernel
  have first : Editions zeroAround plainConfig .empty
      [⟨shortVersion, .empty, returned (.ret .indexed), shortWorld.index⟩] shortWorld.index :=
    Editions.more (w := newWorld) .start (run shortVersion newWorld one)
  exact Editions.more (w := shortWorld) first (run longVersion shortWorld two)

theorem one_stamp_iff_editing :
    (∀ edition ∈ editing, edition.left = some .indexed →
        edition.after.OneStamp edition.version.eventId) ↔
      ∀ edition ∈ editing, edition.left = some .indexed →
        Fitting edition.before edition.version := by
  refine (one_stamp_iff editions_editing orderly_empty).2 ?_
  rintro edition member
  rcases List.mem_pair.mp member with rfl | rfl <;> rfl

theorem longer_edit_splits_stamps : ¬ ∀ history last,
    Editions zeroAround plainConfig .empty history last →
    ∀ edition ∈ history, edition.left = some .indexed →
      edition.after.OneStamp edition.version.eventId := by
  intro claim
  have uniform : longWorld.index.OneStamp longVersion.eventId :=
    claim editing _ editions_editing ⟨longVersion, shortWorld.index, some .indexed,
      longWorld.index⟩ List.mem_cons_self rfl
  have stamps : ((longWorld.index.chunk longVersion.eventId 0).map
        fun row => (row.eventId, row.ts)) = some (longVersion.eventId, 0) ∧
      ((longWorld.index.chunk longVersion.eventId 1).map
        fun row => (row.eventId, row.ts)) = some (longVersion.eventId, 1) := by decide +kernel
  obtain ⟨⟨row₀, found₀, eq₀⟩, ⟨row₁, found₁, eq₁⟩⟩ :=
    And.imp Option.map_eq_some_iff.mp Option.map_eq_some_iff.mp stamps
  obtain ⟨event₀, ts₀⟩ := Prod.mk.inj eq₀
  obtain ⟨event₁, ts₁⟩ := Prod.mk.inj eq₁
  have same := uniform _ _ row₀ row₁ found₀ found₁ event₀ event₁
  rw [ts₀, ts₁] at same
  exact absurd same (by decide)

end Freshet.Pipeline
