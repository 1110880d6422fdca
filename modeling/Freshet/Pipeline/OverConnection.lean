/-
**The embedding worker over its connection.**

The handler's machine lets a statement take effect any number of times before it is answered (`Tried`).
That is what `ResilientConnection` does to it: with every `conn.execute` of the handler replaced by the
wrapper's loop over the driver's calls, whatever was proved of the handler by its machine holds of it
over the driver (`holds_over_connection`).
-/

import Freshet.Common.ResilientConnection
import Freshet.Pipeline.EveryLife

namespace Freshet.Pipeline

open Freshet.Lib Freshet.Kafka Freshet.Common
open Freshet.Autopilot (Time)

/-- The worker's database: nobody else writes its tables. -/
def embedderServer (connectionError : Exn → Bool) : Server Exn where
  Query := Statement
  Ans := Statement.Ans
  Data := World
  run statement now w := (w.index.answer now statement, w.exec now statement)
  allowed w now := w.clock ≤ now
  others := Eq
  others_refl _ := rfl
  others_trans one two := one.trans two
  connectionError

variable (around : Surroundings) (connectionError : Exn → Bool)

/-- What the handler calls, and below it what the wrapper calls. -/
abbrev overSig : Sig := handlerSig.sum (embedderServer connectionError).sig

/-- Every statement is executed by the wrapper. -/
def overConnection : (op : handlerSig.Op) → Prog (overSig connectionError) Exn (handlerSig.Ans op)
  | .inr (.execute statement) => ((embedderServer connectionError).execute statement).inr
  | .inr op => @Prog.perform (overSig connectionError) Exn (.inl (.inr op))
  | .inl op => @Prog.perform (overSig connectionError) Exn (.inl (.inl op))

/-- The calls of the handler move the world, those of the wrapper the world and the connection. -/
def overMachine : Machine (overSig connectionError) Exn (Link World) where
  safe _ _ := True
  step
    | .inl op, link, answer, after =>
      handlerStep around op link.data answer after.data ∧ after = { link with data := after.data }
    | .inr op, link, answer, after => linkStep (embedderServer connectionError) op link answer after

variable {around connectionError}

theorem Tried.snoc {statement : Statement} {w middle : World} {now : Time}
    (tried : Tried statement w middle) (later : middle.clock ≤ now) :
    Tried statement w (middle.exec now statement) := by
  induction tried with
  | none w => exact .again later (.none _)
  | again later' rest ih => exact .again later' (ih later)

theorem tried_of_ran {statement : Statement} {n : Nat} {w last : World}
    (ran : Ran (embedderServer connectionError) statement n w last) : Tried statement w last := by
  refine @Ran.keeps _ _ _ _ _ _ (Tried statement w) ran (.none w) ?_ ?_
  · rintro data _ rfl tried
    exact tried
  · intro data now later tried
    exact tried.snoc later

/-- **The wrapper does what the machine allows a statement.** -/
theorem step_of_done {statement : Statement} {before after : Link World}
    {outcome : Except Exn statement.Ans}
    (done : @Done _ (embedderServer connectionError) statement before outcome after) :
    workerStep around (.execute statement) before.data outcome after.data := by
  obtain ⟨made, -, -, -, executes⟩ := done
  have known := executes.known
  cases outcome with
  | ok answer =>
    obtain ⟨n, data, now, ran, time, rfl, same⟩ := known
    exact ⟨data, now, tried_of_ran ran, time, rfl, same⟩
  | error exn =>
    obtain ⟨n, ran⟩ := known
    exact tried_of_ran ran

/-- **What holds of the handler holds of it over its connection**, whatever the driver does. -/
theorem holds_over_connection {α : Type} {kept : World → Prop} {program : Handling α}
    {post : Except Exn α → World → Prop} {link : Link World}
    (holds : program.wp (handlerMachine around kept) post link.data) :
    (program.interpret (overConnection connectionError)).wp (overMachine around connectionError)
      (fun outcome after => post outcome after.data) link := by
  refine Prog.wp_mono ?_ (@Prog.wp_interpret handlerSig (overSig connectionError) Exn α World
    (Link World) (overConnection connectionError) (handlerMachine around kept)
    (overMachine around connectionError) (fun w link => link.data = w) program post link.data link ?_
    rfl holds)
  · rintro outcome after ⟨w, done, rfl⟩
    exact done
  · rintro (op | op) w link rfl safe
    · refine Prog.wp_perform.mpr ⟨trivial, ?_⟩
      rintro answer after ⟨step, -⟩
      exact ⟨after.data, step, rfl⟩
    · cases op with
      | execute statement =>
        have executed := @Server.wp_execute _ (embedderServer connectionError) statement link
        refine Prog.wp_mono ?_ (@Prog.wp_inr_of _ _ _ _ _ (embedderServer connectionError).machine
          (overMachine around connectionError) _ _ _ (fun _ _ _ => trivial)
          (fun _ _ _ _ step => step) executed)
        intro outcome after done
        exact ⟨after.data, @step_of_done around _ _ _ _ _ done, rfl⟩
      | _ =>
        refine Prog.wp_perform.mpr ⟨trivial, ?_⟩
        rintro answer after ⟨step, -⟩
        exact ⟨after.data, step, rfl⟩

/-- The handler of one message, from an empty database: no foreign key dangles when it ends, and what
it returns from is settled. -/
theorem holds_over_connection_handler :
    ((handler plainConfig "event").interpret (overConnection fun _ => true)).wp
      (overMachine namedAround fun _ => true)
      (fun outcome after => Prog.Ends (fun w => Referenced w.index) (fun _ w => Referenced w.index ∧
        Settled namedAround plainConfig "event" w) outcome after.data)
      { data := newConsumption.world, isOpen := true } := by
  refine @holds_over_connection _ _ _ (fun w => Referenced w.index) _ _ _
    (wp_handler_kept ?_ ⟨?_, ?_⟩)
  · intro ev _ stamp vectors index now statement here _ _ backed
    exact here.exec backed now
  · intro incidentId service present
    cases present
  · intro incidentId eventId present
    cases present

end Freshet.Pipeline
