/-
**Content made of update blocks**: how Statuspage writes the updates of an incident, newest first,
and that `_UPDATE` finds the blocks again.
-/

import Freshet.Ingest.Markup

namespace Freshet.Ingest

open Freshet.Lib

/-- **An update block**: `<small>when</small><br><strong>status</strong> - body`, with whitespace
between the parts. The body goes on to the next block and has the markup around it as well. -/
structure Block where
  time : List Char
  status : List Char
  body : List Char
  afterTime : List Char := []
  inBreak : List Char := []
  closed : Bool := false
  afterBreak : List Char := []
  afterStatus : List Char := []
  afterDash : List Char := []
  timeEnds : Lacks "</small>" time
  statusEnds : Lacks "</strong>" status
  bodyEnds : Lacks "<small>" body
  spaces : ∀ gap ∈ [afterTime, inBreak, afterBreak, afterStatus, afterDash], ∀ c ∈ gap,
    isSpace c = true
  visible : ∀ c ∈ body.head?, isSpace c = false

namespace Block

/-- The block from its dash on. -/
def fromDash (block : Block) (rest : List Char) : List Char :=
  block.afterStatus ++ ('-' :: (block.afterDash ++ (block.body ++ rest)))

/-- The block from its line break on. -/
def fromBreak (block : Block) (rest : List Char) : List Char :=
  block.afterTime ++ ("<br".toList ++ (block.inBreak ++ ((if block.closed then ['/'] else []) ++
    ('>' :: (block.afterBreak ++ ("<strong>".toList ++ (block.status ++ ("</strong>".toList ++
      block.fromDash rest))))))))

/-- The block, and what follows it. -/
def before (block : Block) (rest : List Char) : List Char :=
  "<small>".toList ++ (block.time ++ ("</small>".toList ++ block.fromBreak rest))

/-- The blocks, one after the other. -/
def render : List Block → List Char
  | [] => []
  | block :: later => block.before (render later)

/-- What the pattern finds of a block. -/
def found (block : Block) : Regex.Match Char :=
  ⟨block.before [], [(3, block.body), (2, block.status), (1, block.time)]⟩

/-- The marker of a block. -/
def marker (block : Block) : List Char := plain block.time

end Block

/-- What a block ends before: the end, or a `<small>` in any case. -/
def Ends (rest : List Char) : Prop :=
  rest = [] ∨ ∃ word more, rest = word ++ more ∧
    List.Forall₂ (fun letter c => caseless letter c = true) "<small>".toList word

theorem caseless_refl (c : Char) : caseless c c = true := beq_self_eq_true _

theorem ways_anyCase_self (word : String) (rest : List Char) (groups : List (Nat × List Char)) :
    (anyCase word).ways ⟨word.toList ++ rest, groups⟩ = [⟨rest, groups⟩] := by
  refine Regex.ways_word_append ?_ rest groups
  rw [List.forall₂_map_left_iff, List.forall₂_same]
  exact fun c _ => caseless_refl c

theorem ends_small (more : List Char) : Ends ("<small>".toList ++ more) :=
  Or.inr ⟨_, more, rfl, List.forall₂_same.mpr fun c _ => caseless_refl c⟩

theorem Ends.stop {rest : List Char} (ends : Ends rest) : ∀ d ∈ rest.head?, d = '<' := by
  rcases ends with rfl | ⟨word, more, rfl, fits⟩
  · simp
  · intro d here
    have letters : "<small>".toList = '<' :: "small>".toList := rfl
    rw [letters] at fits
    obtain ⟨c, word, isLess, -, rfl⟩ := List.forall₂_cons_left_iff.mp fits
    obtain rfl := Option.some.inj here
    exact eq_of_caseless (by decide) (by decide) isLess

theorem Ends.ahead {rest : List Char} (ends : Ends rest) (groups : List (Nat × List Char)) :
    (Regex.ahead (.alt (anyCase "<small>") .atEnd)).ways ⟨rest, groups⟩ = [⟨rest, groups⟩] := by
  rcases ends with rfl | ⟨word, more, rfl, fits⟩
  · rfl
  · have here : (anyCase "<small>").ways ⟨word ++ more, groups⟩ = [⟨more, groups⟩] :=
      Regex.ways_word_append (List.forall₂_map_left_iff.mpr fits) more groups
    simp only [Regex.ways, here]
    rfl

namespace Block

variable (block : Block) {rest : List Char}

/-- From the dash to the end of the body. -/
theorem leads_dash (ends : Ends rest) (groups : List (Nat × List Char)) :
    (Regex.all [.many isSpace, exactly "-", .many isSpace, .group 3 (.few anything),
      .ahead (.alt (anyCase "<small>") .atEnd)]).Leads ⟨block.fromDash rest, groups⟩
        ⟨rest, (3, block.body) :: groups⟩ := by
  unfold fromDash
  refine .many (block.spaces _ (by simp)) (by rintro c cs ⟨⟩; decide) ?_
  refine @Regex.Leads.only Char (exactly "-") _ _ ⟨block.afterDash ++ (block.body ++ rest), groups⟩
    _ rfl ?_
  refine .many (block.spaces _ (by simp)) ?_ ?_
  · intro c cs split
    cases text : block.body with
    | nil =>
      rw [text, List.nil_append] at split
      rw [ends.stop c (by rw [split]; rfl)]
      decide
    | cons d body =>
      rw [text] at split
      obtain ⟨rfl, -⟩ := List.cons.inj split
      exact block.visible d (by rw [text]; rfl)
  · refine .groupFew (fun _ _ => rfl) ?_ (.only (ends.ahead _) (Regex.leads_nothing _))
    intro before c after split
    have none : (anyCase "<small>").ways ⟨c :: after ++ rest, (3, before) :: groups⟩ = [] :=
      ways_anyCase_lacks '<' block.bodyEnds (by decide) split ends.stop
    show ((Regex.ahead (.alt (anyCase "<small>") .atEnd)).ways
      ⟨c :: after ++ rest, (3, before) :: groups⟩).flatMap _ = []
    simp only [Regex.ways, none]
    rfl

/-- From behind the time to the end of the body. -/
theorem leads_break (ends : Ends rest) (groups : List (Nat × List Char)) :
    (Regex.all [.many isSpace, anyCase "<br", .many isSpace, .opt (exactly "/"), exactly ">",
      .many isSpace, anyCase "<strong>", .group 2 (.few anything), anyCase "</strong>",
      .many isSpace, exactly "-", .many isSpace, .group 3 (.few anything),
      .ahead (.alt (anyCase "<small>") .atEnd)]).Leads ⟨block.fromBreak rest, groups⟩
        ⟨rest, (3, block.body) :: (2, block.status) :: groups⟩ := by
  unfold fromBreak
  refine .many (block.spaces _ (by simp)) (by rintro c cs ⟨⟩; decide) ?_
  refine .only (ways_anyCase_self "<br" _ _) ?_
  have slash : ∀ tail : List Char, (Regex.all [.opt (exactly "/"), exactly ">"]).Leads
      ⟨(if block.closed then ['/'] else []) ++ '>' :: tail, groups⟩ ⟨tail, groups⟩ := by
    intro tail
    cases block.closed <;> rfl
  have strong : ∀ tail : List Char, (Regex.all [.many isSpace, anyCase "<strong>",
      .group 2 (.few anything), anyCase "</strong>"]).Leads
        ⟨block.afterBreak ++ ("<strong>".toList ++ (block.status ++ ("</strong>".toList ++ tail))),
          groups⟩ ⟨tail, (2, block.status) :: groups⟩ := by
    intro tail
    refine .many (block.spaces _ (by simp)) (by rintro c cs ⟨⟩; decide) ?_
    refine .only (ways_anyCase_self "<strong>" _ _) ?_
    refine .groupFew (fun _ _ => rfl) ?_
      (.only (ways_anyCase_self "</strong>" _ _) (Regex.leads_nothing _))
    intro before c after split
    have none : (anyCase "</strong>").ways ⟨c :: after ++ ("</strong>".toList ++ tail),
        (2, before) :: groups⟩ = [] :=
      ways_anyCase_lacks '<' block.statusEnds (by decide) split (by rintro d ⟨⟩; rfl)
    show ((anyCase "</strong>").ways _).flatMap _ = []
    rw [none]
    rfl
  refine @Regex.Leads.append Char [.many isSpace, .opt (exactly "/"), exactly ">"] _ _ _ _
    (.many (block.spaces _ (by simp)) ?_ (slash _)) ?_
  · intro c cs split
    cases closed : block.closed with
    | false =>
      rw [closed] at split
      obtain ⟨rfl, -⟩ := List.cons.inj split
      decide
    | true =>
      rw [closed] at split
      obtain ⟨rfl, -⟩ := List.cons.inj split
      decide
  · exact @Regex.Leads.append Char [.many isSpace, anyCase "<strong>", .group 2 (.few anything),
      anyCase "</strong>"] _ _ _ _ (strong _) (block.leads_dash ends _)

theorem before_append (rest : List Char) : block.before rest = block.before [] ++ rest := by
  unfold before fromBreak fromDash
  simp only [List.append_assoc, List.cons_append, List.append_nil]

/-- **The pattern finds a block**, and ends where it does. -/
theorem first_before (ends : Ends rest) :
    update.first (block.before rest) = some (block.found, rest) := by
  have leads : update.Leads ⟨block.before rest, []⟩ ⟨rest, block.found.groups⟩ := by
    unfold before
    refine .only (ways_anyCase_self "<small>" _ _) ?_
    refine .groupFew (fun _ _ => rfl) ?_
      (.only (ways_anyCase_self "</small>" _ _) (block.leads_break ends _))
    intro before c after split
    have none : (anyCase "</small>").ways ⟨c :: after ++ ("</small>".toList ++ block.fromBreak rest),
        (1, before) :: []⟩ = [] :=
      ways_anyCase_lacks '<' block.timeEnds (by decide) split (by rintro d ⟨⟩; rfl)
    show ((anyCase "</small>").ways _).flatMap _ = []
    rw [none]
    rfl
  rw [before_append] at leads ⊢
  exact Regex.first_of_leads leads

theorem ends_render (blocks : List Block) : Ends (render blocks) := by
  cases blocks with
  | nil => exact Or.inl rfl
  | cons block later => exact ends_small _

/-- **All blocks are found, in their order**, and nothing in front of them. -/
theorem findAll_render {lead : List Char} (clear : Lacks "<small>" lead) (blocks : List Block) :
    update.findAll (lead ++ render blocks) = blocks.map found := by
  have skipped : update.findAll (lead ++ render blocks) = update.findAll (render blocks) := by
    refine Regex.findAll_append fun before c after split => Regex.first_eq_none.mpr ?_
    have none : (anyCase "<small>").ways ⟨c :: after ++ render blocks, []⟩ = [] :=
      ways_anyCase_lacks '<' clear (by decide) split (ends_render blocks).stop
    show ((anyCase "<small>").ways _).flatMap _ = []
    rw [none]
    rfl
  rw [skipped]
  clear skipped
  induction blocks with
  | nil => rfl
  | cons block later ih =>
    have full : block.found.text ≠ [] := by
      unfold found before
      exact List.cons_ne_nil _ _
    show update.findAll (block.before (render later)) = _
    rw [Regex.findAll_hit (block.first_before (ends_render later)) full, ih, List.map_cons]

end Block

end Freshet.Ingest
