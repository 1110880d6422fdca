/-
**A broken embedder and the dead-letter topic.**

The handler counts the failures to embed that follow one another (`streak_spec`), so after any
history the streak is the number of failures since the last message that reset it (`streakOf`), and
a message that was indexed is not the only one that does: a malformed one does too, though it is
dead-lettered as poison that never counts. The worker stops at its tenth failure exactly when none
of these came in between (`stops_iff`).
-/

import Freshet.Pipeline.OneOutcome

namespace Freshet.Pipeline

open Freshet.Lib Freshet.Kafka

/-! ### Histories -/

/-- The handler raised `EmbedderUnhealthy`. -/
def Stopping (leaving : Leaving) : Prop := ∃ message, leaving = .unhealthy message

/-- The message exhausted its attempts to embed. -/
def failing : Leaving → Bool
  | .exhausted => true
  | .unhealthy _ => true
  | _ => false

/-- **The messages one worker has handled**, newest first. It is gone when the handler raises. What
happens between two messages does not touch the streak. -/
inductive Handled (around : Surroundings) (config : HandlerConfig) (first : World) :
    List Leaving → World → Prop
  | start : Handled around config first [] first
  | more {history : List Leaving} {w next after : World} {value : String} {leaving : Leaving}
      (before : Handled around config first history w)
      (alive : ∀ earlier ∈ history, ¬ Stopping earlier) (same : next.streak = w.streak)
      (run : Prog.Steps (handlerMachine around fun _ => True) (handle config value) next
        (.ret leaving) after) :
      Handled around config first (leaving :: history) after

/-- Some of the newest messages: enough of them failed, and none of them was indexed. -/
def Drained (history : List Leaving) : Prop :=
  ∃ recent before, history = recent ++ before ∧ .indexed ∉ recent ∧
    maxConsecutiveDeadletters ≤ recent.countP failing

/-- The same, and none of them was malformed either. -/
def Unbroken (history : List Leaving) : Prop :=
  ∃ recent before, history = recent ++ before ∧ .indexed ∉ recent ∧ .malformed ∉ recent ∧
    maxConsecutiveDeadletters ≤ recent.countP failing

/-- **A broken embedder does not drain the topic**: whenever enough messages have failed and none
was indexed in between, the last of them has stopped the worker. -/
def Stops (history : List Leaving) : Prop :=
  ∀ leaving earlier, (leaving :: earlier) <:+ history → failing leaving = true →
    Drained (leaving :: earlier) → Stopping leaving

/-- Whenever enough messages have failed and none was indexed in between, none of as many was
malformed. -/
def Uninterrupted (history : List Leaving) : Prop :=
  ∀ leaving earlier, (leaving :: earlier) <:+ history → failing leaving = true →
    Drained (leaving :: earlier) → Unbroken (leaving :: earlier)

/-! ### The streak -/

/-- The failures since the last message that was indexed or malformed. -/
def streakOf : List Leaving → Nat
  | [] => 0
  | .indexed :: _ => 0
  | .malformed :: _ => 0
  | .blank :: earlier => streakOf earlier
  | .exhausted :: earlier => streakOf earlier + 1
  | .unhealthy _ :: earlier => streakOf earlier + 1

theorem le_streakOf {n : Nat} (positive : 0 < n) {history : List Leaving} :
    n ≤ streakOf history ↔ ∃ recent before, history = recent ++ before ∧ .indexed ∉ recent ∧
      .malformed ∉ recent ∧ n ≤ recent.countP failing := by
  induction history generalizing n with
  | nil =>
    constructor
    · intro le
      exact absurd le (by simp only [streakOf]; omega)
    · rintro ⟨recent, before, split, -, -, le⟩
      obtain ⟨rfl, -⟩ := List.append_eq_nil_iff.mp split.symm
      exact absurd le (by simp; omega)
  | cons leaving earlier ih =>
    -- a message that resets the streak is in none of the recent ones
    have resets : leaving = .indexed ∨ leaving = .malformed → ¬ ∃ recent before,
        leaving :: earlier = recent ++ before ∧ .indexed ∉ recent ∧ .malformed ∉ recent ∧
          n ≤ recent.countP failing := by
      rintro reset ⟨recent, before, split, clear, clear', le⟩
      cases recent with
      | nil => exact absurd le (by simp; omega)
      | cons head recent =>
        obtain ⟨rfl, -⟩ := List.cons.inj split
        rcases reset with rfl | rfl
        · exact clear List.mem_cons_self
        · exact clear' List.mem_cons_self
    -- any other is in front of the recent ones before it
    have longer : ∀ {m : Nat}, leaving ≠ .indexed → leaving ≠ .malformed →
        ((∃ recent before, earlier = recent ++ before ∧ .indexed ∉ recent ∧ .malformed ∉ recent ∧
          m ≤ recent.countP failing) ↔ ∃ recent before, leaving :: earlier = recent ++ before ∧
            .indexed ∉ recent ∧ .malformed ∉ recent ∧ recent ≠ [] ∧
              m + (if failing leaving then 1 else 0) ≤ recent.countP failing) := by
      intro m kept kept'
      constructor
      · rintro ⟨recent, before, rfl, clear, clear', le⟩
        refine ⟨leaving :: recent, before, rfl, ?_, ?_, List.cons_ne_nil _ _, ?_⟩
        · exact fun member => (List.mem_cons.mp member).elim (fun same => kept same.symm) clear
        · exact fun member => (List.mem_cons.mp member).elim (fun same => kept' same.symm) clear'
        · rw [List.countP_cons]
          omega
      · rintro ⟨recent, before, split, clear, clear', full, le⟩
        obtain ⟨head, recent, rfl⟩ := List.exists_cons_of_ne_nil full
        obtain ⟨rfl, rfl⟩ := List.cons.inj split
        refine ⟨recent, before, rfl, ?_, ?_, ?_⟩
        · exact fun member => clear (List.mem_cons_of_mem _ member)
        · exact fun member => clear' (List.mem_cons_of_mem _ member)
        · rw [List.countP_cons] at le
          omega
    have full : ∀ {recent : List Leaving}, n ≤ recent.countP failing → recent ≠ [] := by
      rintro recent le rfl
      exact absurd le (by simp; omega)
    have failed : leaving ≠ .indexed → leaving ≠ .malformed → failing leaving = true →
        (n ≤ streakOf earlier + 1 ↔ ∃ recent before, leaving :: earlier = recent ++ before ∧
          .indexed ∉ recent ∧ .malformed ∉ recent ∧ n ≤ recent.countP failing) := by
      intro kept kept' fails
      by_cases one : n = 1
      · subst one
        refine ⟨fun _ => ⟨[leaving], earlier, rfl, ?_, ?_, ?_⟩, fun _ => by omega⟩
        · exact fun member => kept (List.mem_singleton.mp member).symm
        · exact fun member => kept' (List.mem_singleton.mp member).symm
        · rw [List.countP_cons, fails]
          simp
      · have previous : n ≤ streakOf earlier + 1 ↔ n - 1 ≤ streakOf earlier := by omega
        rw [previous, ih (by omega), longer kept kept', fails]
        constructor
        · rintro ⟨recent, before, split, clear, clear', -, le⟩
          exact ⟨recent, before, split, clear, clear', by simp at le; omega⟩
        · rintro ⟨recent, before, split, clear, clear', le⟩
          exact ⟨recent, before, split, clear, clear', full le, by simp; omega⟩
    cases leaving with
    | indexed => exact ⟨fun le => absurd le (by simp only [streakOf]; omega),
        fun found => absurd found (resets (Or.inl rfl))⟩
    | malformed => exact ⟨fun le => absurd le (by simp only [streakOf]; omega),
        fun found => absurd found (resets (Or.inr rfl))⟩
    | blank =>
      show n ≤ streakOf earlier ↔ _
      rw [ih positive, longer (by simp) (by simp)]
      constructor
      · rintro ⟨recent, before, split, clear, clear', -, le⟩
        exact ⟨recent, before, split, clear, clear', by simpa [failing] using le⟩
      · rintro ⟨recent, before, split, clear, clear', le⟩
        exact ⟨recent, before, split, clear, clear', full le, by simpa [failing] using le⟩
    | exhausted => exact failed (by simp) (by simp) rfl
    | unhealthy message => exact failed (by simp) (by simp) rfl

theorem unbroken_iff {history : List Leaving} :
    Unbroken history ↔ maxConsecutiveDeadletters ≤ streakOf history :=
  (le_streakOf (by decide)).symm

/-- What a handling does to the streak. -/
def Counts (before : Nat) : Leaving → Nat → Prop
  | .malformed, after => after = 0
  | .blank, after => after = before
  | .exhausted, after => after = before + 1 ∧ after < maxConsecutiveDeadletters
  | .indexed, after => after = 0
  | .unhealthy _, after => after = before + 1 ∧ maxConsecutiveDeadletters ≤ after

/-- **The handler counts the failures.** -/
theorem streak_spec (around : Surroundings) (config : HandlerConfig) (value : String) (w : World) :
    (handle config value).wp (handlerMachine around fun _ => True)
      (Prog.Ends (fun _ => True) fun leaving after => Counts w.streak leaving after.streak) w := by
  refine wp_handle (fun _ => trivial) (fun _ _ _ _ _ => rfl) fun ev _ => ?_
  refine wp_handleEvent (fun _ _ => trivial) ?_ ?_ ?_
  · intro stamp _
    refine Prog.wp_mono ?_ (@wp_ensureIncident _ _ _ _ (fun after => after.streak = w.streak)
      rfl (fun _ _ _ same _ _ => same) fun _ _ => trivial)
    intro outcome after ends
    cases outcome with
    | error exn => trivial
    | ok _ => exact ends.1
  · intro stamp exn p now _ _
    unfold leave
    split_ifs with many
    · exact ⟨rfl, many⟩
    · exact ⟨rfl, Nat.lt_of_not_le many⟩
  · intro stamp vectors _ same _
    refine Prog.wp_mono ?_ (@wp_store _ _ _ _ _ _ (fun _ => True)
      (fun _ _ _ _ _ _ _ => trivial) (fun _ _ => trivial) (distinct_records same) trivial)
    intro outcome after ends
    cases outcome with
    | error exn => trivial
    | ok _ => exact ⟨trivial, trivial, rfl⟩

section Runs

variable {around : Surroundings} {config : HandlerConfig} {first w : World}
  {history : List Leaving}

/-- **After any history the streak is that of the history**, and the worker has stopped exactly
when it is long enough. -/
theorem Handled.streak (handled : Handled around config first history w)
    (new : first.streak = 0) : w.streak = streakOf history ∧
      ∀ leaving earlier, (leaving :: earlier) <:+ history → failing leaving = true →
        (Stopping leaving ↔ maxConsecutiveDeadletters ≤ streakOf (leaving :: earlier)) := by
  induction handled with
  | start =>
    refine ⟨new, fun leaving earlier suffix => ?_⟩
    exact absurd (List.suffix_nil.mp suffix) (List.cons_ne_nil _ _)
  | @more history w next after value leaving before alive same run ih =>
    have counts : Counts next.streak leaving after.streak :=
      Prog.wp_steps run (streak_spec around config value next)
    rw [same, ih.1] at counts
    have now : after.streak = streakOf (leaving :: history) ∧ (failing leaving = true →
        (Stopping leaving ↔ maxConsecutiveDeadletters ≤ streakOf (leaving :: history))) := by
      cases leaving with
      | malformed => exact ⟨counts, fun fails => absurd fails Bool.false_ne_true⟩
      | blank => exact ⟨counts, fun fails => absurd fails Bool.false_ne_true⟩
      | indexed => exact ⟨counts, fun fails => absurd fails Bool.false_ne_true⟩
      | exhausted =>
        obtain ⟨more, few⟩ := counts
        rw [more] at few
        refine ⟨more, fun _ => ⟨?_, fun many => absurd few (Nat.not_lt.mpr many)⟩⟩
        rintro ⟨message, impossible⟩
        cases impossible
      | unhealthy message =>
        obtain ⟨more, many⟩ := counts
        rw [more] at many
        exact ⟨more, fun _ => ⟨fun _ => many, fun _ => ⟨message, rfl⟩⟩⟩
    refine ⟨now.1, fun other earlier suffix fails => ?_⟩
    rcases List.suffix_cons_iff.mp suffix with whole | inside
    · obtain ⟨rfl, rfl⟩ := List.cons.inj whole
      exact now.2 fails
    · exact ih.2 other earlier inside fails

/-- **A worker is stopped by its tenth failure exactly when no malformed message came in
between.** -/
theorem stops_iff (handled : Handled around config first history w) (new : first.streak = 0) :
    Stops history ↔ Uninterrupted history := by
  have stopping := (handled.streak new).2
  have each : ∀ leaving earlier, (leaving :: earlier) <:+ history → failing leaving = true →
      (Stopping leaving ↔ Unbroken (leaving :: earlier)) := by
    intro leaving earlier suffix fails
    rw [stopping leaving earlier suffix fails, unbroken_iff]
  constructor
  · intro stops leaving earlier suffix fails drained
    exact (each leaving earlier suffix fails).mp (stops leaving earlier suffix fails drained)
  · intro unbroken leaving earlier suffix fails drained
    exact (each leaving earlier suffix fails).mpr
      (unbroken leaving earlier suffix fails drained)

end Runs

/-! An encoder that always fails. -/

def brokenFields : Fields := { blankFields with text := "x".toList }

/-- Every message but one is an event. -/
def brokenAround : Surroundings where
  validate value := if value = "poison" then .error "Field required" else .ok brokenFields
  encodes _ answer := answer = .error (.runtimeError "CUDA error")

def brokenHandler : (op : handlerSig.Op) → World → Except Exn (handlerSig.Ans op) × World :=
  calmHandler brokenAround.validate fun _ => .error (.runtimeError "CUDA error")

/-- The world after some messages. -/
def brokenWorld (values : List String) : World :=
  values.foldr (fun value w => ((handle plainConfig value).run brokenHandler w).2) newWorld

/-- One more message, and how it leaves. -/
theorem handled_broken {values : List String} {history : List Leaving} {value : String}
    {leaving : Leaving}
    (before : Handled brokenAround plainConfig newWorld history (brokenWorld values))
    (alive : ∀ earlier ∈ history, ¬ Stopping earlier)
    (left : ((handle plainConfig value).run brokenHandler (brokenWorld values)).1 = .ok leaving) :
    Handled brokenAround plainConfig newWorld (leaving :: history)
      (brokenWorld (value :: values)) := by
  have run := @Prog.steps_run handlerSig Exn Leaving World
    (handlerMachine brokenAround fun _ => True) brokenHandler (handle plainConfig value)
    (brokenWorld values) (handlerStep_calm fun _ => rfl)
  rw [left] at run
  exact .more before alive rfl run

theorem alive_exhausted (n : Nat) :
    ∀ earlier ∈ List.replicate n Leaving.exhausted, ¬ Stopping earlier := by
  rintro earlier member ⟨message, rfl⟩
  exact absurd (List.eq_of_mem_replicate member) (by simp)

theorem handled_nine : ∀ n ≤ 9, Handled brokenAround plainConfig newWorld
    (List.replicate n .exhausted) (brokenWorld (List.replicate n "event")) := by
  intro n
  induction n with
  | zero => exact fun _ => .start
  | succ n ih =>
    intro few
    have all : ∀ n < 9, ((handle plainConfig "event").run brokenHandler
        (brokenWorld (List.replicate n "event"))).1 = .ok .exhausted := by decide +kernel
    exact handled_broken (ih (by omega)) (alive_exhausted n) (all n (by omega))

/-- What the worker says at its tenth failure. -/
def tenthMessage : String :=
  "10 consecutive embed failures; last: embed failed after 3 attempts: down"

/-- Ten failures, and nothing else: the tenth stops the worker, and nothing interrupted the streak. -/
theorem stops_iff_ten :
    Stops (.unhealthy tenthMessage :: List.replicate 9 .exhausted) ∧
      Uninterrupted (.unhealthy tenthMessage :: List.replicate 9 .exhausted) := by
  have tenth := @handled_broken (List.replicate 9 "event") _ "event" (.unhealthy tenthMessage)
    (handled_nine 9 (Nat.le_refl 9)) (alive_exhausted 9) (by decide +kernel)
  have unbroken : Uninterrupted (.unhealthy tenthMessage :: List.replicate 9 .exhausted) := by
    intro leaving earlier suffix fails drained
    obtain ⟨recent, before, split, clear, many⟩ := drained
    refine ⟨recent, before, split, clear, fun malformed => ?_, many⟩
    have inside : Leaving.malformed ∈ leaving :: earlier := split ▸ List.mem_append_left _ malformed
    exact absurd (suffix.subset inside) (by decide)
  exact ⟨(stops_iff tenth rfl).mpr unbroken, unbroken⟩

theorem malformed_message_spares_worker : ¬ ∀ history w,
    Handled brokenAround plainConfig newWorld history w → Stops history := by
  intro claim
  have poison := @handled_broken (List.replicate 9 "event") _ "poison" .malformed
    (handled_nine 9 (Nat.le_refl 9)) (alive_exhausted 9) (by decide +kernel)
  have alive' : ∀ earlier ∈ Leaving.malformed :: List.replicate 9 .exhausted,
      ¬ Stopping earlier := by
    rintro earlier member ⟨message, rfl⟩
    rcases List.mem_cons.mp member with other | member
    · cases other
    · exact alive_exhausted 9 _ member ⟨message, rfl⟩
  have tenth := @handled_broken ("poison" :: List.replicate 9 "event") _ "event" .exhausted poison
    alive' (by decide +kernel)
  obtain ⟨message, impossible⟩ := claim _ _ tenth .exhausted _ List.suffix_rfl rfl
    ⟨_, [], (List.append_nil _).symm, by decide, by decide⟩
  cases impossible

end Freshet.Pipeline
