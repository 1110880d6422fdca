/-
**Programs whose operations are programs of a lower level.**

* `Sig.sum` puts two sets of operations side by side; `Prog.inl` and `Prog.inr` run a program of
  one of them in the sum.
* `Prog.interpret` replaces every operation by a program that implements it. An exception of the
  implementation is the operation's failure, so the program above may still handle it.
* **`wp_interpret`** — the simulation rule. When every implementation, started in a state related
  to an abstract one, ends as the abstract operation allows, a `wp` of the abstract program is a
  `wp` of the interpreted one.
* **`kept_of_steps`** — an assertion that `Machine.safe` demands at every call holds at every point
  of every run.
-/

import Freshet.Lib.Prog

namespace Freshet.Lib

/-- Two sets of operations side by side. -/
abbrev Sig.sum (σ τ : Sig) : Sig := ⟨σ.Op ⊕ τ.Op, Sum.elim σ.Ans τ.Ans⟩

namespace Prog

variable {σ τ : Sig} {X α β S T : Type}

/-- Run every operation by the program that implements it. -/
def interpret (impl : (op : σ.Op) → Prog τ X (σ.Ans op)) : Prog σ X α → Prog τ X α
  | .ret value => .ret value
  | .raise exn => .raise exn
  | .call op next => (impl op).attempt.bind fun answer => (next answer).interpret impl

/-- A program of the left operations, in the sum. -/
def inl (program : Prog σ X α) : Prog (σ.sum τ) X α :=
  program.interpret fun op => @perform (σ.sum τ) X (.inl op)

/-- A program of the right operations, in the sum. -/
def inr (program : Prog τ X α) : Prog (σ.sum τ) X α :=
  program.interpret fun op => @perform (σ.sum τ) X (.inr op)

section Interpret

variable {impl : (op : σ.Op) → Prog τ X (σ.Ans op)}

@[simp] theorem interpret_ret (value : α) :
    (Prog.ret value : Prog σ X α).interpret impl = .ret value := rfl

@[simp] theorem interpret_raise (exn : X) :
    (Prog.raise exn : Prog σ X α).interpret impl = .raise exn := rfl

/-- If every implementation only makes allowed calls, so does the interpreted program. -/
theorem uses_interpret {allowed : τ.Op → Prop} (uses : ∀ op, (impl op).Uses allowed)
    (program : Prog σ X α) : (program.interpret impl).Uses allowed := by
  induction program with
  | ret value => trivial
  | raise exn => trivial
  | call op next ih => exact uses_bind (uses_attempt (uses op)) ih

/-- **The simulation rule.** -/
theorem wp_interpret {high : Machine σ X S} {low : Machine τ X T} {rel : S → T → Prop}
    {program : Prog σ X α} {post : Except X α → S → Prop} {s : S} {t : T}
    (simulates : ∀ op s t, rel s t → high.safe op s → (impl op).wp low
      (fun answer t' => ∃ s', high.step op s answer s' ∧ rel s' t') t)
    (related : rel s t) (holds : program.wp high post s) :
    (program.interpret impl).wp low (fun outcome t' => ∃ s', post outcome s' ∧ rel s' t') t := by
  induction program generalizing s t with
  | ret value => exact ⟨s, holds, related⟩
  | raise exn => exact ⟨s, holds, related⟩
  | call op next ih =>
    obtain ⟨safe, rest⟩ := holds
    refine wp_bind_of (fun answer t' => ∃ s', high.step op s answer s' ∧ rel s' t')
      (wp_attempt.mpr (simulates op s t related safe)) ?_
    rintro answer t' ⟨s', moved, related'⟩
    exact ih answer related' (rest answer s' moved)

end Interpret

theorem uses_inl {allowed : (σ.sum τ).Op → Prop} {program : Prog σ X α}
    (uses : program.Uses fun op => allowed (.inl op)) :
    (program.inl : Prog (σ.sum τ) X α).Uses allowed := by
  induction program with
  | ret value => trivial
  | raise exn => trivial
  | call op next ih =>
    exact uses_bind (uses_attempt (@uses_perform (σ.sum τ) X allowed (.inl op) uses.1))
      fun answer => ih answer (uses.2 answer)

/-- **The rule for a left program**: the sum's machine moves a view of its state as the left
machine moves its own. -/
theorem wp_inl {m : Machine σ X S} {both : Machine (σ.sum τ) X T} {rel : S → T → Prop}
    {program : Prog σ X α} {post : Except X α → S → Prop} {s : S} {t : T}
    (simulates : ∀ op s t, rel s t → m.safe op s → both.safe (.inl op) t ∧
      ∀ answer t', both.step (.inl op) t answer t' → ∃ s', m.step op s answer s' ∧ rel s' t')
    (related : rel s t) (holds : program.wp m post s) :
    (program.inl : Prog (σ.sum τ) X α).wp both
      (fun outcome t' => ∃ s', post outcome s' ∧ rel s' t') t :=
  wp_interpret (fun op s t related safe =>
    (@wp_perform (σ.sum τ) X T both (.inl op) _ t).mpr (simulates op s t related safe))
    related holds

/-- The rule for a right program. -/
theorem wp_inr {m : Machine τ X S} {both : Machine (σ.sum τ) X T} {rel : S → T → Prop}
    {program : Prog τ X α} {post : Except X α → S → Prop} {s : S} {t : T}
    (simulates : ∀ op s t, rel s t → m.safe op s → both.safe (.inr op) t ∧
      ∀ answer t', both.step (.inr op) t answer t' → ∃ s', m.step op s answer s' ∧ rel s' t')
    (related : rel s t) (holds : program.wp m post s) :
    (program.inr : Prog (σ.sum τ) X α).wp both
      (fun outcome t' => ∃ s', post outcome s' ∧ rel s' t') t :=
  wp_interpret (fun op s t related safe =>
    (@wp_perform (σ.sum τ) X T both (.inr op) _ t).mpr (simulates op s t related safe))
    related holds

/-- A left program, on a machine for the sum that does with its calls what the left machine does. -/
theorem wp_inl_of {m : Machine σ X S} {both : Machine (σ.sum τ) X S} {program : Prog σ X α}
    {post : Except X α → S → Prop} {s : S}
    (safe : ∀ op s, m.safe op s → both.safe (.inl op) s)
    (step : ∀ op s answer after, both.step (.inl op) s answer after → m.step op s answer after)
    (holds : program.wp m post s) : (program.inl : Prog (σ.sum τ) X α).wp both post s := by
  have simulates : ∀ op (s t : S), s = t → m.safe op s → both.safe (.inl op) t ∧
      ∀ answer t', both.step (.inl op) t answer t' → ∃ s', m.step op s answer s' ∧ s' = t' := by
    rintro op s _ rfl permitted
    exact ⟨safe op s permitted, fun answer t' moved => ⟨t', step op s answer t' moved, rfl⟩⟩
  refine wp_mono ?_ (wp_inl simulates rfl holds)
  rintro outcome after ⟨s', done, rfl⟩
  exact done

/-- A right program, on a machine for the sum that does with its calls what the right machine does. -/
theorem wp_inr_of {m : Machine τ X S} {both : Machine (σ.sum τ) X S} {program : Prog τ X α}
    {post : Except X α → S → Prop} {s : S}
    (safe : ∀ op s, m.safe op s → both.safe (.inr op) s)
    (step : ∀ op s answer after, both.step (.inr op) s answer after → m.step op s answer after)
    (holds : program.wp m post s) : (program.inr : Prog (σ.sum τ) X α).wp both post s := by
  have simulates : ∀ op (s t : S), s = t → m.safe op s → both.safe (.inr op) t ∧
      ∀ answer t', both.step (.inr op) t answer t' → ∃ s', m.step op s answer s' ∧ s' = t' := by
    rintro op s _ rfl permitted
    exact ⟨safe op s permitted, fun answer t' moved => ⟨t', step op s answer t' moved, rfl⟩⟩
  refine wp_mono ?_ (wp_inr simulates rfl holds)
  rintro outcome after ⟨s', done, rfl⟩
  exact done

/-! ### Assertions demanded at every call -/

/-- What every call demands and the outcome ends in holds wherever a run has got to. -/
theorem kept_of_steps {m : Machine σ X S} {kept : S → Prop} {program last : Prog σ X α}
    {post : Except X α → S → Prop} {s after : S} (demanded : ∀ op s, m.safe op s → kept s)
    (ends : ∀ outcome s, post outcome s → kept s) (holds : program.wp m post s)
    (run : Steps m program s last after) : kept after := by
  have here := wp_steps run holds
  cases last with
  | ret value => exact ends _ _ here
  | raise exn => exact ends _ _ here
  | call op next => exact demanded op after here.1

end Prog

end Freshet.Lib
