/-
**Every message is indexed or dead-lettered, never both and never neither.**

Each return of the handler has one of three outcomes (`Indexed`, `Blank`, `DeadLettered`), and they
exclude each other: the first two by the text of the event, the third by what was produced.
-/

import Freshet.Pipeline.Store

namespace Freshet.Pipeline

open Freshet.Lib Freshet.Kafka
open Freshet.Autopilot (Time)

section Outcomes

variable (around : Surroundings) (config : HandlerConfig) (value : String) (before after : World)

/-- The event has chunks; all of them were written, with as many vectors of the right dimension,
its orphans deleted and its receipt completed. Nothing was produced. -/
def Indexed : Prop :=
  ∃ ev stamp vectors, Parsed around value ev ∧ recordsForEvent ev stamp ≠ [] ∧
    vectors.length = (recordsForEvent ev stamp).length ∧
    (∀ v ∈ vectors, v.length = embeddingDim) ∧
    Stored config ev ((recordsForEvent ev stamp).zip vectors) after ∧
    after.producer = before.producer

/-- The event's text is blank, and its incident is there. Nothing was produced. -/
def Blank : Prop :=
  ∃ ev, Parsed around value ev ∧ words ev.text = [] ∧ Ensured ev after ∧
    after.producer = before.producer

/-- One envelope with the message was produced and acknowledged, and the database is as it was. -/
def DeadLettered : Prop :=
  ∃ error now, Synced (envelope config error value now) before.producer after.producer ∧
    after.index = before.index ∧ after.log = before.log

end Outcomes

variable {around : Surroundings} {config : HandlerConfig} {value : String} {before after : World}

theorem recordsForEvent_eq_nil {ev : Event} {stamp : Time} :
    recordsForEvent ev stamp = [] ↔ words ev.text = [] := by
  rw [← @chunkText_eq_nil ev.text none]
  unfold recordsForEvent
  rw [List.map_eq_nil_iff, List.zipIdx_eq_nil_iff]

/-- The text of an event does not depend on what its factories make. -/
theorem Parsed.text_eq {ev ev' : Event} (parsed : Parsed around value ev)
    (parsed' : Parsed around value ev') : ev.text = ev'.text := by
  obtain ⟨fields, newId, now, valid, rfl⟩ := parsed
  obtain ⟨fields', newId', now', valid', rfl⟩ := parsed'
  obtain rfl := Except.ok.inj (valid.symm.trans valid')
  rfl

theorem not_indexed_blank (indexed : Indexed around config value before after) :
    ¬ Blank around value before after := by
  rintro ⟨ev', parsed', blank, -⟩
  obtain ⟨ev, stamp, vectors, parsed, full, -⟩ := indexed
  refine full (recordsForEvent_eq_nil.mpr ?_)
  rw [parsed.text_eq parsed']
  exact blank

/-- A dead letter is one more message than before. -/
theorem DeadLettered.producer_ne (dead : DeadLettered config value before after) :
    after.producer ≠ before.producer := by
  obtain ⟨error, now, synced, -⟩ := dead
  intro same
  have sent := congrArg List.length synced.1
  rw [same, List.length_cons] at sent
  omega

/-- What each leaving means. -/
def Means (around : Surroundings) (config : HandlerConfig) (value : String) (before : World) :
    Leaving → World → Prop
  | .malformed, after => DeadLettered config value before after
  | .exhausted, after => DeadLettered config value before after
  | .blank, after => Blank around value before after
  | .indexed, after => Indexed around config value before after
  | .unhealthy _, _ => True

/-- **Every return of the handler means what it says.** -/
theorem handle_means (around : Surroundings) (config : HandlerConfig) (value : String)
    (w : World) :
    (handle config value).wp (handlerMachine around fun _ => True)
      (Prog.Ends (fun _ => True) (Means around config value w)) w := by
  refine wp_handle (fun _ => trivial)
    (fun error p now _ synced => ⟨_, now, synced, rfl, rfl⟩) fun ev parsed => ?_
  refine wp_handleEvent (fun _ _ => trivial) ?_ ?_ ?_
  · intro stamp none'
    refine Prog.wp_mono ?_ (@wp_ensureIncident _ _ _ _ (fun after => after.producer = w.producer)
      rfl (fun _ _ _ same _ _ => same) fun _ _ => trivial)
    intro outcome after ends
    cases outcome with
    | error exn => trivial
    | ok _ => exact ⟨ev, parsed, recordsForEvent_eq_nil.mp none', ends.2, ends.1⟩
  · intro stamp exn p now _ synced
    unfold leave
    split_ifs
    · trivial
    · exact ⟨_, now, synced, rfl, rfl⟩
  · intro stamp vectors full same dims
    refine Prog.wp_mono ?_ (@wp_store _ _ _ _ _ _ (fun after => after.producer = w.producer)
      (fun _ _ _ same _ _ _ => same) (fun _ _ => trivial) (distinct_records same) rfl)
    intro outcome after ends
    cases outcome with
    | error exn => trivial
    | ok _ =>
      obtain ⟨produced, stored⟩ := ends
      refine ⟨trivial, trivial, ev, stamp, vectors, parsed, full, same, dims, ?_, produced⟩
      exact ⟨stored.rows, stored.orphans, stored.incident, stored.receipt⟩

/-- **A handler that returns has had exactly one outcome.** -/
theorem handler_outcome (around : Surroundings) (config : HandlerConfig) (value : String)
    {before after : World}
    (run : Prog.Steps (handlerMachine around fun _ => True) (handler config value) before
      (.ret ()) after) :
    (Indexed around config value before after ∧ ¬ Blank around value before after ∧
        ¬ DeadLettered config value before after) ∨
      (Blank around value before after ∧ ¬ Indexed around config value before after ∧
        ¬ DeadLettered config value before after) ∨
      (DeadLettered config value before after ∧ ¬ Indexed around config value before after ∧
        ¬ Blank around value before after) := by
  have one : (handler config value).wp (handlerMachine around fun _ => True)
      (Prog.Ends (fun _ => True) fun _ after => Indexed around config value before after ∨
        Blank around value before after ∨ DeadLettered config value before after) before := by
    refine Prog.wp_seq _ (handle_means around config value before) ?_
    intro leaving after means
    cases leaving with
    | malformed => exact Or.inr (Or.inr means)
    | blank => exact Or.inr (Or.inl means)
    | exhausted => exact Or.inr (Or.inr means)
    | indexed => exact Or.inl means
    | unhealthy message => trivial
  rcases Prog.wp_steps run one with indexed | blank | dead
  · have kept : after.producer = before.producer := by
      obtain ⟨_, _, _, _, _, _, _, _, kept⟩ := indexed
      exact kept
    exact Or.inl ⟨indexed, not_indexed_blank indexed, fun dead => dead.producer_ne kept⟩
  · have kept : after.producer = before.producer := by
      obtain ⟨_, _, _, _, kept⟩ := blank
      exact kept
    exact Or.inr (Or.inl ⟨blank, fun indexed => not_indexed_blank indexed blank,
      fun dead => dead.producer_ne kept⟩)
  · refine Or.inr (Or.inr ⟨dead, ?_, ?_⟩)
    · rintro ⟨_, _, _, _, _, _, _, _, kept⟩
      exact dead.producer_ne kept
    · rintro ⟨_, _, _, _, kept⟩
      exact dead.producer_ne kept

/-! A blank message that names no incident. -/

def blankFields : Fields where
  eventId := some "openai:INC-1:a"
  v := 1
  ts := some 0
  service := "openai"
  source := .alert
  type := "status_update"
  severity := none
  incidentId := none
  title := none
  text := "  ".toList

def blankAround : Surroundings := ⟨fun _ => .ok blankFields, fun _ answer => answer = .ok []⟩

def plainConfig : HandlerConfig where
  name := some "stub"
  shownName := "'stub'"
  str _ := "down"
  isoformat _ := "2026-08-18T12:00:00+00:00"
  asVector _ := .ok (.replicate 768 0)

def newWorld : World where
  index := .empty
  clock := 0

/-- An encoder that works. -/
def zeroVectors (texts : List (List Char)) : Except Exn (List Embedding) :=
  .ok (texts.map fun _ => List.replicate embeddingDim 0)

def textedFields : Fields := { blankFields with text := "Status: Monitoring".toList }

/-- Every message is an event with a text. -/
def textedAround : Surroundings where
  validate _ := .ok textedFields
  encodes texts answer := answer = zeroVectors texts

/-- No message is an event. -/
def refusingAround : Surroundings := ⟨fun _ => .error "Field required", fun _ answer => answer = .ok []⟩

/-- The world after one message. -/
def handledOnce (around : Surroundings)
    (encode : List (List Char) → Except Exn (List Embedding)) : World :=
  ((handler plainConfig "event").run (calmHandler around.validate encode) newWorld).2

theorem handled_once {around : Surroundings}
    {encode : List (List Char) → Except Exn (List Embedding)}
    (encodes : ∀ texts, around.encodes texts (encode texts))
    (returns : ((handler plainConfig "event").run (calmHandler around.validate encode) newWorld).1 =
      .ok ()) :
    Prog.Steps (handlerMachine around fun _ => True) (handler plainConfig "event") newWorld
      (.ret ()) (handledOnce around encode) := by
  have run := @Prog.steps_run handlerSig Exn Unit World (handlerMachine around fun _ => True)
    (calmHandler around.validate encode) (handler plainConfig "event") newWorld
    (handlerStep_calm encodes)
  rw [returns] at run
  exact run

/-- One message of each kind. -/
theorem handler_outcome_each :
    Blank blankAround "event" newWorld (handledOnce blankAround fun _ => .ok []) ∧
    Indexed textedAround plainConfig "event" newWorld (handledOnce textedAround zeroVectors) ∧
    DeadLettered plainConfig "event" newWorld (handledOnce refusingAround fun _ => .ok []) := by
  refine ⟨?_, ?_, ?_⟩
  · rcases handler_outcome blankAround plainConfig "event"
      (@handled_once blankAround _ (fun _ => rfl) rfl) with ⟨indexed, -⟩ | ⟨blank, -⟩ | ⟨dead, -⟩
    · obtain ⟨ev, stamp, vectors, parsed, full, -⟩ := indexed
      obtain ⟨fields, newId, now, valid, rfl⟩ := parsed
      obtain rfl := Except.ok.inj valid
      exact absurd (recordsForEvent_eq_nil.mpr (show words blankFields.text = [] by decide)) full
    · exact blank
    · exact absurd rfl dead.producer_ne
  · rcases handler_outcome textedAround plainConfig "event"
      (@handled_once textedAround _ (fun _ => rfl) (by decide +kernel)) with ⟨indexed, -⟩ | ⟨blank, -⟩ | ⟨dead, -⟩
    · exact indexed
    · obtain ⟨ev, ⟨fields, newId, now, valid, rfl⟩, blank, -⟩ := blank
      obtain rfl := Except.ok.inj valid
      exact absurd blank (show words textedFields.text ≠ [] by decide)
    · exact absurd (by decide +kernel) dead.producer_ne
  · rcases handler_outcome refusingAround plainConfig "event"
      (@handled_once refusingAround _ (fun _ => rfl) rfl) with ⟨indexed, -⟩ | ⟨blank, -⟩ | ⟨dead, -⟩
    · obtain ⟨ev, stamp, vectors, ⟨fields, newId, now, valid, -⟩, -⟩ := indexed
      cases valid
    · obtain ⟨ev, ⟨fields, newId, now, valid, -⟩, -⟩ := blank
      cases valid
    · exact dead

end Freshet.Pipeline
