/-
**`ResilientConnection`**: a statement is tried again after a broken connection.

`execute` tries a statement up to three times, half a second and a second apart, and reconnects in
between; a reconnect that fails is dropped. An exception of the connection says nothing about the
statement: it may or may not have run. Every other exception is the statement's own, which then has
done nothing, and is raised at once.

* `Ran` — the tries of one statement that took effect, with whatever other sessions did in between.
* **`Server.wp_execute`** — an answer is that of the last of them; when nothing is answered, all three tries
  failed, or the statement itself did; and how long the caller has waited.
-/

import Freshet.Lib.Retry
import Mathlib.Tactic.Ring

namespace Freshet.Common

open Freshet.Lib

/-- What a database's statements answer and do, at a time of the server's clock. -/
structure Server (X : Type) where
  Query : Type
  Ans : Query → Type
  Data : Type
  run : (query : Query) → Int → Data → Ans query × Data
  /-- The times that the server's clock may show. -/
  allowed : Data → Int → Prop
  /-- What the other sessions may do between two calls of this one. -/
  others : Data → Data → Prop
  others_refl : ∀ data, others data data
  others_trans : ∀ {first second third}, others first second → others second third →
    others first third
  /-- `isinstance(exc, (OperationalError, InterfaceError))`. -/
  connectionError : X → Bool

variable {X : Type} (server : Server X)

/-- What the wrapper calls. `connect` makes a connection and puts it in the place of the one before. -/
inductive LinkOp (Query : Type)
  | execute (query : Query)
  | sleep (microseconds : Int)
  | close
  | connect

abbrev LinkOp.Ans {Query : Type} (ans : Query → Type) : LinkOp Query → Type
  | execute query => ans query
  | _ => Unit

abbrev Server.sig : Sig := ⟨LinkOp server.Query, LinkOp.Ans server.Ans⟩

abbrev Session (α : Type) := Prog server.sig X α

abbrev Server.call (op : LinkOp server.Query) : Session server (op.Ans server.Ans) :=
  @Prog.perform server.sig X op

/-! ### The wrapper -/

def retryAttempts : Nat := 3

/-- Half a second. -/
def retryBaseDelay : Int := 500000

/-- `_reconnect`. -/
def Server.reconnect : Session server Unit := do
  let _ ← (server.call .close).attempt
  server.call .connect

/-- Between two tries. -/
def Server.wait (delay : Int) : Session server Unit := do
  server.call (.sleep delay)
  let _ ← server.reconnect.attempt

/-- **`execute`.** -/
def Server.execute (query : server.Query) : Session server (server.Ans query) :=
  Prog.retry server.connectionError server.wait (fun delay => delay * 2)
    (server.call (.execute query)) (retryAttempts - 1) retryBaseDelay

/-! ### What the calls do -/

/-- The database, whether the connection is open, and history: the tries so far and the time slept. -/
structure Link (Data : Type) where
  data : Data
  isOpen : Bool
  tries : Nat := 0
  slept : Int := 0

/-- **What one call answers and does.** A connection that is closed executes nothing; one that has
failed may have been closed by that. -/
def linkStep : (op : LinkOp server.Query) → Link server.Data → Except X (op.Ans server.Ans) →
    Link server.Data → Prop
  | .execute query, link, answer, after => ∃ data, server.others link.data data ∧
    match answer with
    | .ok result => link.isOpen = true ∧ ∃ now, server.allowed data now ∧
        result = (server.run query now data).1 ∧
        after = { link with data := (server.run query now data).2, tries := link.tries + 1 }
    | .error exn => (after.isOpen = true → link.isOpen = true) ∧
        after.tries = link.tries + 1 ∧ after.slept = link.slept ∧
        (after.data = data ∨ server.connectionError exn = true ∧ link.isOpen = true ∧
          ∃ now, server.allowed data now ∧ after.data = (server.run query now data).2)
  | .sleep delay, link, answer, after =>
    answer = .ok () ∧ after = { link with slept := link.slept + delay }
  | .close, link, _, after => after = link ∨ after = { link with isOpen := false }
  | .connect, link, answer, after => match answer with
    | .ok _ => after = { link with isOpen := true }
    | .error _ => after = link

/-- The machine of a session. -/
def Server.machine : Machine server.sig X (Link server.Data) where
  safe _ _ := True
  step := linkStep server

/-! ### One statement -/

/-- **The tries of a statement that took effect**, one after the other, each after what other sessions
did. -/
inductive Ran (query : server.Query) : Nat → server.Data → server.Data → Prop
  | none {before after : server.Data} (moved : server.others before after) : Ran query 0 before after
  | again {before data last : server.Data} {n : Nat} {now : Int} (moved : server.others before data)
      (time : server.allowed data now) (rest : Ran query n (server.run query now data).2 last) :
      Ran query (n + 1) before last

variable {server}

theorem Ran.later {query : server.Query} {n : Nat} {before data after : server.Data}
    (ran : Ran server query n before data) (moved : server.others data after) :
    Ran server query n before after := by
  induction ran with
  | none earlier => exact .none (server.others_trans earlier moved)
  | again earlier time rest ih => exact .again earlier time (ih moved)

/-- One more of them. -/
theorem Ran.snoc {query : server.Query} {n : Nat} {before data : server.Data} {now : Int}
    (ran : Ran server query n before data) (time : server.allowed data now) :
    Ran server query (n + 1) before (server.run query now data).2 := by
  induction ran with
  | none earlier => exact .again earlier time (.none (server.others_refl _))
  | again earlier time' rest ih => exact .again earlier time' (ih time)

/-- **The rule for the tries**: what they and the other sessions keep. -/
theorem Ran.keeps {query : server.Query} {n : Nat} {before after : server.Data}
    {inv : server.Data → Prop} (ran : Ran server query n before after) (start : inv before)
    (moved : ∀ data data', server.others data data' → inv data → inv data')
    (again : ∀ data now, server.allowed data now → inv data → inv (server.run query now data).2) :
    inv after := by
  induction ran with
  | none move => exact moved _ _ move start
  | again move time rest ih => exact ih (again _ _ time (moved _ _ move start))

/-- **What becomes of a statement** of which `tries` were made. -/
inductive Executes (query : server.Query) (before : server.Data) :
    Except X (server.Ans query) → server.Data → (tries : Nat) → Prop
  | answered {n tries : Nat} {data : server.Data} {now : Int} (fewer : n < tries)
      (ran : Ran server query n before data) (time : server.allowed data now) :
      Executes query before (.ok (server.run query now data).1) (server.run query now data).2 tries
  | refused {n tries : Nat} {after : server.Data} {exn : X} (fewer : n < tries)
      (ran : Ran server query n before after) (own : server.connectionError exn = false) :
      Executes query before (.error exn) after tries
  | broken {n : Nat} {after : server.Data} {exn : X} (most : n ≤ retryAttempts)
      (ran : Ran server query n before after) (failed : server.connectionError exn = true) :
      Executes query before (.error exn) after retryAttempts

/-- What the statement's caller can know. -/
theorem Executes.known {query : server.Query} {before after : server.Data} {tries : Nat}
    {outcome : Except X (server.Ans query)} (executes : Executes query before outcome after tries) :
    match outcome with
    | .ok answer => ∃ n data now, Ran server query n before data ∧ server.allowed data now ∧
        answer = (server.run query now data).1 ∧ after = (server.run query now data).2
    | .error _ => ∃ n, Ran server query n before after := by
  cases executes with
  | answered fewer ran time => exact ⟨_, _, _, ran, time, rfl, rfl⟩
  | refused fewer ran own => exact ⟨_, ran⟩
  | broken most ran failed => exact ⟨_, ran⟩

/-- The time slept before a try, after `made` others: nothing, half a second, a second and a half. -/
def sleptBefore (made : Nat) : Int := retryBaseDelay * (2 ^ made - 1)

theorem sleptBefore_succ (made : Nat) :
    sleptBefore (made + 1) = sleptBefore made + retryBaseDelay * 2 ^ made := by
  unfold sleptBefore
  ring

/-- At most a second and a half. -/
theorem sleptBefore_le {made : Nat} (few : made < retryAttempts) :
    sleptBefore made ≤ retryBaseDelay * 3 := by
  have cases' : made = 0 ∨ made = 1 ∨ made = 2 := by
    have few' : made < 3 := few
    omega
  rcases cases' with rfl | rfl | rfl <;> decide

section Execute

variable {query : server.Query} {before : Link server.Data}

/-- Where a try begins, after `made` others and with `left` more to follow it. -/
structure Begun (query : server.Query) (before : Link server.Data) (made left : Nat) (delay : Int)
    (link : Link server.Data) : Prop where
  total : made + left + 1 = retryAttempts
  delay : delay = retryBaseDelay * 2 ^ made
  tries : link.tries = before.tries + made
  slept : link.slept = before.slept + sleptBefore made
  ran : ∃ n ≤ made, Ran server query n before.data link.data

/-- Where the pause after it begins. -/
structure Failed (query : server.Query) (before : Link server.Data) (made left : Nat) (delay : Int)
    (link : Link server.Data) : Prop where
  total : made + left + 2 = retryAttempts
  delay : delay = retryBaseDelay * 2 ^ made
  tries : link.tries = before.tries + made + 1
  slept : link.slept = before.slept + sleptBefore made
  ran : ∃ n ≤ made + 1, Ran server query n before.data link.data

/-- How the calls end, `made + 1` tries later. -/
def Done (query : server.Query) (before : Link server.Data) (outcome : Except X (server.Ans query))
    (link : Link server.Data) : Prop :=
  ∃ made < retryAttempts, link.tries = before.tries + made + 1 ∧
    link.slept = before.slept + sleptBefore made ∧
    Executes query before.data outcome link.data (made + 1)

theorem wp_try {made left : Nat} {delay : Int} {link : Link server.Data}
    (begun : Begun query before made left delay link) :
    (server.call (.execute query)).wp server.machine
      (Prog.Tries server.connectionError
        (fun rest link => ∃ made, Failed query before made rest delay link) (Done query before) left)
      link := by
  refine Prog.wp_perform.mpr ⟨trivial, ?_⟩
  rintro answer after ⟨data, moved, step⟩
  obtain ⟨n, most, ran⟩ := begun.ran
  have ran := ran.later moved
  have total := begun.total
  have few : made < retryAttempts := by omega
  cases answer with
  | ok result =>
    obtain ⟨-, now, time, rfl, rfl⟩ := step
    have done : Done query before (.ok (server.run query now data).1)
        { link with data := (server.run query now data).2, tries := link.tries + 1 } :=
      ⟨made, few, by show link.tries + 1 = _; rw [begun.tries], begun.slept,
        .answered (Nat.lt_succ_of_le most) ran time⟩
    cases left <;> exact done
  | error exn =>
    obtain ⟨-, tries, slept, effect⟩ := step
    have tries' : after.tries = before.tries + made + 1 := by rw [tries, begun.tries]
    have slept' : after.slept = before.slept + sleptBefore made := by rw [slept, begun.slept]
    by_cases connection : server.connectionError exn = true
    · have ran' : ∃ n ≤ made + 1, Ran server query n before.data after.data := by
        rcases effect with same | ⟨-, -, now, time, same⟩
        · exact ⟨n, Nat.le_succ_of_le most, same ▸ ran⟩
        · exact ⟨n + 1, Nat.succ_le_succ most, same ▸ ran.snoc time⟩
      cases left with
      | zero =>
        obtain ⟨k, bound, ran''⟩ := ran'
        have last : made + 1 = retryAttempts := by omega
        exact ⟨made, few, tries', slept', last ▸ .broken (by omega) ran'' connection⟩
      | succ left =>
        show if server.connectionError exn = true then _ else _
        rw [if_pos connection]
        exact ⟨made, by omega, begun.delay, tries', slept', ran'⟩
    · have own : server.connectionError exn = false := Bool.eq_false_iff.mpr connection
      have same : after.data = data := effect.resolve_right fun other => connection other.1
      have done : Done query before (.error exn) after :=
        ⟨made, few, tries', slept', .refused (Nat.lt_succ_of_le most) (same ▸ ran) own⟩
      cases left with
      | zero => exact done
      | succ left =>
        show if server.connectionError exn = true then _ else _
        rw [if_neg connection]
        exact done

/-- A reconnect, whether or not it comes off, leaves all but the connection. -/
theorem wp_reconnect {link : Link server.Data} {good : Link server.Data → Prop}
    (holds : ∀ isOpen, good { link with isOpen }) :
    server.reconnect.attempt.wp server.machine
      (Prog.Ends (fun _ => False) fun _ after => good after) link := by
  refine Prog.wp_attempt.mpr (Prog.wp_bind.mpr (Prog.wp_attempt.mpr (Prog.wp_perform.mpr
    ⟨trivial, ?_⟩)))
  intro answer after step
  refine Prog.wp_perform.mpr ⟨trivial, ?_⟩
  intro answer' last step'
  have closed : ∃ isOpen, after = { link with isOpen } := by
    rcases step with same | same
    · exact ⟨link.isOpen, same⟩
    · exact ⟨false, same⟩
  obtain ⟨isOpen, rfl⟩ := closed
  cases answer' with
  | ok _ =>
    have opened : last = { link with isOpen := true } := step'
    exact opened ▸ holds true
  | error exn =>
    have same : last = { link with isOpen } := step'
    exact same ▸ holds isOpen

theorem wp_wait {made left : Nat} {delay : Int} {link : Link server.Data}
    (failed : Failed query before made left delay link) :
    (server.wait delay).wp server.machine (fun outcome after => match outcome with
      | .ok _ => Begun query before (made + 1) left (delay * 2) after
      | .error exn => Done query before (.error exn) after) link := by
  refine Prog.wp_bind.mpr (Prog.wp_perform.mpr ⟨trivial, ?_⟩)
  rintro answer after ⟨rfl, rfl⟩
  have total := failed.total
  have begun : ∀ isOpen, Begun query before (made + 1) left (delay * 2)
      { link with slept := link.slept + delay, isOpen } := by
    intro isOpen
    refine ⟨by omega, ?_, ?_, ?_, failed.ran⟩
    · rw [failed.delay, pow_succ]
      ring
    · show link.tries = before.tries + (made + 1)
      rw [failed.tries]
      rfl
    · show link.slept + delay = before.slept + sleptBefore (made + 1)
      rw [failed.slept, failed.delay, sleptBefore_succ]
      ring
  refine Prog.wp_bind.mpr (Prog.wp_mono ?_ (wp_reconnect begun))
  intro outcome last ends
  cases outcome with
  | ok _ => exact ends
  | error exn => exact ends.elim

/-- **What `execute` does**, whatever the database and the connection do. -/
theorem Server.wp_execute (query : server.Query) (before : Link server.Data) :
    (server.execute query).wp server.machine (Done query before) before := by
  refine Prog.wp_retry (fun left delay link => ∃ made, Begun query before made left delay link)
    (fun left delay link => ∃ made, Failed query before made left delay link) ?_ ?_ ?_
  · rintro left delay link ⟨made, begun⟩
    exact wp_try begun
  · rintro left delay link ⟨made, failed⟩
    refine Prog.wp_mono ?_ (wp_wait failed)
    intro outcome after holds
    cases outcome with
    | ok _ => exact ⟨made + 1, holds⟩
    | error exn => exact holds
  · refine ⟨0, rfl, ?_, rfl, ?_, 0, Nat.le_refl 0, .none (server.others_refl _)⟩
    · rw [pow_zero, mul_one]
    · unfold sleptBefore
      ring

end Execute

end Freshet.Common
