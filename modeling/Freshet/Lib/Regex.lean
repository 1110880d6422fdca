/-
**Backtracking regular expressions.**

A pattern is run the way a backtracking engine runs it: `ways` lists everything a pattern can
consume at the head of the input, in the order in which the engine tries it, and the match is the
first of them. What is consumed comes with what the groups have captured.

* `search` finds the leftmost match, `scan` cuts the input into the matches that do not overlap and
  the characters between them, and `sub` and `findAll` read the scan.
* `mem_ways_…` says what a pattern can consume; `ways_…` rewrites the list itself, which is how one
  follows the engine on an input whose shape is known.
* `rests_flatMap` skips the candidates of a repetition that lead nowhere.
-/

import Mathlib.Data.List.Basic
import Mathlib.Data.List.Forall2

namespace Freshet.Lib

/-- Patterns over the alphabet `α`. `many` and `few` repeat one character any number of times, the
longest run first or the shortest. -/
inductive Regex (α : Type)
  | nothing
  | one (test : α → Bool)
  | many (test : α → Bool)
  | few (test : α → Bool)
  | seq (first second : Regex α)
  | alt (first second : Regex α)
  | group (index : Nat) (body : Regex α)
  | ahead (body : Regex α)
  | atEnd

/-- Where a run has got to: what is left of the input, and what the groups hold, newest first. -/
structure Way (α : Type) where
  rest : List α
  groups : List (Nat × List α) := []
deriving DecidableEq, Repr

/-- A way with older groups behind its own. -/
def Way.under {α : Type} (older : List (Nat × List α)) (w : Way α) : Way α :=
  { w with groups := w.groups ++ older }

/-- A way with more input behind it. -/
def Way.extend {α : Type} (more : List α) (w : Way α) : Way α := { w with rest := w.rest ++ more }

namespace Regex

variable {α : Type}

/-- What is left after a run of `test`, the shortest run first. -/
def rests (test : α → Bool) : List α → List (List α)
  | [] => [[]]
  | c :: cs => (c :: cs) :: if test c then rests test cs else []

/-- What has been consumed of `input` when `rest` is left. -/
def consumed (input rest : List α) : List α := input.take (input.length - rest.length)

/-- **Every way to match at the head of the input, in the order in which they are tried.** -/
def ways : Regex α → Way α → List (Way α)
  | nothing, w => [w]
  | one test, w => match w.rest with
    | [] => []
    | c :: cs => if test c then [{ w with rest := cs }] else []
  | many test, w => (rests test w.rest).reverse.map fun rest => { w with rest }
  | few test, w => (rests test w.rest).map fun rest => { w with rest }
  | seq first second, w => (first.ways w).flatMap second.ways
  | alt first second, w => first.ways w ++ second.ways w
  | group index body, w => (body.ways w).map fun v =>
      { v with groups := (index, consumed w.rest v.rest) :: v.groups }
  | ahead body, w => match body.ways w with
    | [] => []
    | v :: _ => [{ w with groups := v.groups }]
  | atEnd, w => if w.rest.isEmpty then [w] else []

/-! ### Derived patterns -/

/-- One character after the other. -/
def word : List (α → Bool) → Regex α
  | [] => nothing
  | test :: tests => seq (one test) (word tests)

/-- `all [a, b, c]` is `a`, then `b`, then `c`. -/
def all : List (Regex α) → Regex α
  | [] => nothing
  | first :: later => seq first (all later)

/-- `x+`. -/
def some (test : α → Bool) : Regex α := seq (one test) (many test)

/-- `x+?`. -/
def someFew (test : α → Bool) : Regex α := seq (one test) (few test)

/-- `(…)?`. -/
def opt (body : Regex α) : Regex α := alt body nothing

/-- `x{0,n}`. -/
def upTo (test : α → Bool) : Nat → Regex α
  | 0 => nothing
  | n + 1 => opt (seq (one test) (upTo test n))

/-! ### Matching -/

/-- A match: its text and the groups. -/
structure Match (α : Type) where
  text : List α
  groups : List (Nat × List α)
deriving DecidableEq, Repr

/-- What a group holds, if it took part. -/
def Match.group (m : Match α) (index : Nat) : Option (List α) := m.groups.lookup index

/-- The match at the head of the input, and what follows it. -/
def first (pattern : Regex α) (input : List α) : Option (Match α × List α) :=
  (pattern.ways { rest := input }).head?.map fun w => (⟨consumed input w.rest, w.groups⟩, w.rest)

/-- The leftmost match. -/
def search (pattern : Regex α) : List α → Option (Match α)
  | [] => (pattern.first []).map Prod.fst
  | c :: cs => match pattern.first (c :: cs) with
    | .some (m, _) => .some m
    | none => search pattern cs

/-- A piece of a scanned input. -/
inductive Piece (α : Type)
  | plain (c : α)
  | hit (m : Match α)

/-- **The matches that do not overlap, from the left, and the characters between them.** The first
`skip` characters belong to the match before. A match without text is none. -/
def scan (pattern : Regex α) : (skip : Nat) → List α → List (Piece α)
  | _, [] => []
  | skip + 1, _ :: cs => scan pattern skip cs
  | 0, c :: cs => match pattern.first (c :: cs) with
    | none => .plain c :: scan pattern 0 cs
    | .some (m, _) => match m.text with
      | [] => .plain c :: scan pattern 0 cs
      | _ :: later => .hit m :: scan pattern later.length cs

/-- What a piece becomes when matches are replaced. -/
def Piece.replaced (replace : Match α → List α) : Piece α → List α
  | plain c => [c]
  | hit m => replace m

/-- `sub`. -/
def sub (pattern : Regex α) (replace : Match α → List α) (input : List α) : List α :=
  (pattern.scan 0 input).flatMap (Piece.replaced replace)

def Piece.match? : Piece α → Option (Match α)
  | plain _ => none
  | hit m => .some m

/-- `finditer`. -/
def findAll (pattern : Regex α) (input : List α) : List (Match α) :=
  (pattern.scan 0 input).filterMap Piece.match?

/-! ### What a repetition leaves -/

@[simp] theorem consumed_append (text rest : List α) : consumed (text ++ rest) rest = text := by
  simp [consumed]

@[simp] theorem consumed_self (rest : List α) : consumed rest rest = [] := by
  simp [consumed]

theorem mem_rests {test : α → Bool} {input rest : List α} :
    rest ∈ rests test input ↔ ∃ text, input = text ++ rest ∧ ∀ c ∈ text, test c = true := by
  induction input with
  | nil =>
    constructor
    · intro member
      obtain rfl := List.mem_singleton.mp member
      exact ⟨[], rfl, by simp⟩
    · rintro ⟨text, split, -⟩
      obtain ⟨-, rfl⟩ := List.append_eq_nil_iff.mp split.symm
      exact List.mem_singleton_self _
  | cons c cs ih =>
    unfold rests
    rw [List.mem_cons]
    constructor
    · rintro (rfl | later)
      · exact ⟨[], rfl, by simp⟩
      · split_ifs at later with passes
        · obtain ⟨text, rfl, every⟩ := ih.mp later
          exact ⟨c :: text, rfl, List.forall_mem_cons.mpr ⟨passes, every⟩⟩
        · exact absurd later List.not_mem_nil
    · rintro ⟨text, split, every⟩
      cases text with
      | nil => exact Or.inl split.symm
      | cons d text =>
        obtain ⟨rfl, rfl⟩ := List.cons.inj split
        obtain ⟨passes, every⟩ := List.forall_mem_cons.mp every
        rw [if_pos passes]
        exact Or.inr (ih.mpr ⟨text, rfl, every⟩)

/-- The shortest run comes first. -/
theorem rests_eq_cons (test : α → Bool) (input : List α) :
    ∃ longer, rests test input = input :: longer := by
  cases input with
  | nil => exact ⟨[], rfl⟩
  | cons c cs => exact ⟨_, rfl⟩

/-- A run that cannot go on comes last. -/
theorem rests_append_stop {test : α → Bool} {text rest : List α}
    (every : ∀ c ∈ text, test c = true) (stop : ∀ c cs, rest = c :: cs → test c = false) :
    ∃ shorter, rests test (text ++ rest) = shorter ++ [rest] := by
  induction text with
  | nil =>
    cases rest with
    | nil => exact ⟨[], rfl⟩
    | cons c cs =>
      refine ⟨[], ?_⟩
      have stopped : test c = false := stop c cs rfl
      simp [rests, stopped]
  | cons c text ih =>
    obtain ⟨passes, every⟩ := List.forall_mem_cons.mp every
    obtain ⟨shorter, eq⟩ := ih every
    refine ⟨(c :: (text ++ rest)) :: shorter, ?_⟩
    rw [List.cons_append, rests, if_pos passes, eq, List.cons_append]

/-- **Runs from which nothing goes on are skipped.** -/
theorem rests_append_fails {β : Type} {test : α → Bool} {text rest : List α}
    {next : List α → List β} (every : ∀ c ∈ text, test c = true)
    (fails : ∀ before c after, text = before ++ c :: after → next (c :: after ++ rest) = []) :
    (rests test (text ++ rest)).flatMap next = (rests test rest).flatMap next := by
  induction text with
  | nil => rfl
  | cons c text ih =>
    obtain ⟨passes, every⟩ := List.forall_mem_cons.mp every
    have later := ih every fun before d after split => fails (c :: before) d after (by simp [split])
    rw [List.cons_append, rests, if_pos passes, List.flatMap_cons, later]
    have here : next (c :: (text ++ rest)) = [] := fails [] c text rfl
    rw [here, List.nil_append]

/-! ### What a pattern can consume -/

@[simp] theorem ways_nothing (w : Way α) : (nothing : Regex α).ways w = [w] := rfl

@[simp] theorem ways_one_nil (test : α → Bool) (groups : List (Nat × List α)) :
    (one test).ways ⟨[], groups⟩ = [] := rfl

@[simp] theorem ways_one_cons (test : α → Bool) (c : α) (cs : List α)
    (groups : List (Nat × List α)) :
    (one test).ways ⟨c :: cs, groups⟩ = if test c then [⟨cs, groups⟩] else [] := rfl

theorem mem_ways_seq {a b : Regex α} {w v : Way α} :
    v ∈ (seq a b).ways w ↔ ∃ u ∈ a.ways w, v ∈ b.ways u := List.mem_flatMap

/-- A sequence can be cut anywhere. -/
theorem mem_ways_all (count : Nat) {patterns : List (Regex α)} {w v : Way α}
    (member : v ∈ (all patterns).ways w) :
    ∃ u ∈ (all (patterns.take count)).ways w, v ∈ (all (patterns.drop count)).ways u := by
  induction count generalizing patterns w with
  | zero => exact ⟨w, List.mem_singleton_self _, member⟩
  | succ count ih =>
    cases patterns with
    | nil => exact ⟨w, List.mem_singleton_self _, member⟩
    | cons first later =>
      obtain ⟨u, head, tail⟩ := mem_ways_seq.mp member
      obtain ⟨x, here, there⟩ := ih tail
      exact ⟨x, mem_ways_seq.mpr ⟨u, head, here⟩, there⟩

theorem mem_ways_many {test : α → Bool} {w v : Way α} :
    v ∈ (many test).ways w ↔
      ∃ text, w.rest = text ++ v.rest ∧ (∀ c ∈ text, test c = true) ∧ v.groups = w.groups := by
  unfold ways
  rw [List.mem_map]
  constructor
  · rintro ⟨rest, member, rfl⟩
    obtain ⟨text, split, every⟩ := mem_rests.mp (List.mem_reverse.mp member)
    exact ⟨text, split, every, rfl⟩
  · rintro ⟨text, split, every, same⟩
    refine ⟨v.rest, List.mem_reverse.mpr (mem_rests.mpr ⟨text, split, every⟩), ?_⟩
    rw [← same]

theorem mem_ways_few {test : α → Bool} {w v : Way α} :
    v ∈ (few test).ways w ↔
      ∃ text, w.rest = text ++ v.rest ∧ (∀ c ∈ text, test c = true) ∧ v.groups = w.groups := by
  have same : v ∈ (few test).ways w ↔ v ∈ (many test).ways w := by
    simp only [ways, List.mem_map, List.mem_reverse]
  rw [same, mem_ways_many]

theorem mem_ways_one {test : α → Bool} {w v : Way α} :
    v ∈ (one test).ways w ↔
      ∃ c, w.rest = c :: v.rest ∧ test c = true ∧ v.groups = w.groups := by
  obtain ⟨rest, groups⟩ := w
  cases rest with
  | nil => simp
  | cons c cs =>
    rw [ways_one_cons]
    constructor
    · intro member
      split_ifs at member with passes
      · obtain rfl := List.mem_singleton.mp member
        exact ⟨c, rfl, passes, rfl⟩
      · exact absurd member List.not_mem_nil
    · rintro ⟨d, split, passes, same⟩
      obtain ⟨rfl, rfl⟩ := List.cons.inj split
      rw [if_pos passes, List.mem_singleton]
      exact congrArg (Way.mk v.rest) same

theorem mem_ways_group {body : Regex α} {index : Nat} {w v : Way α}
    (member : v ∈ (group index body).ways w) : ∃ u ∈ body.ways w, u.rest = v.rest := by
  obtain ⟨u, inner, rfl⟩ := List.mem_map.mp member
  exact ⟨u, inner, rfl⟩

/-- A group of one or more characters. -/
theorem mem_ways_group_some {test : α → Bool} {index : Nat} {w v : Way α} :
    v ∈ (group index (Regex.some test)).ways w ↔ ∃ text, text ≠ [] ∧
      (∀ c ∈ text, test c = true) ∧ w.rest = text ++ v.rest ∧ v.groups = (index, text) :: w.groups := by
  constructor
  · intro member
    obtain ⟨u, inner, rfl⟩ := List.mem_map.mp member
    obtain ⟨x, head, tail⟩ := mem_ways_seq.mp inner
    obtain ⟨c, first, passes, same⟩ := mem_ways_one.mp head
    obtain ⟨text, later, every, same'⟩ := mem_ways_many.mp tail
    have split : w.rest = (c :: text) ++ u.rest := by rw [first, later, List.cons_append]
    refine ⟨c :: text, List.cons_ne_nil _ _, fun d member => ?_, split, ?_⟩
    · rcases List.mem_cons.mp member with rfl | among
      · exact passes
      · exact every d among
    · show (index, consumed w.rest u.rest) :: u.groups = _
      rw [split, consumed_append, same', same]
  · rintro ⟨text, nonempty, every, split, groups⟩
    obtain ⟨c, text, rfl⟩ := List.exists_cons_of_ne_nil nonempty
    refine List.mem_map.mpr ⟨⟨v.rest, w.groups⟩, mem_ways_seq.mpr
      ⟨⟨text ++ v.rest, w.groups⟩, mem_ways_one.mpr ⟨c, split, every c List.mem_cons_self, rfl⟩,
        mem_ways_many.mpr
          ⟨text, rfl, fun d member => every d (List.mem_cons_of_mem _ member), rfl⟩⟩, ?_⟩
    rw [split, consumed_append, ← groups]

theorem mem_ways_word {tests : List (α → Bool)} {w v : Way α} :
    v ∈ (word tests).ways w ↔
      ∃ text, w.rest = text ++ v.rest ∧ List.Forall₂ (fun test c => test c = true) tests text ∧
        v.groups = w.groups := by
  induction tests generalizing w with
  | nil =>
    constructor
    · intro member
      obtain rfl := List.mem_singleton.mp member
      exact ⟨[], rfl, .nil, rfl⟩
    · rintro ⟨text, split, fits, same⟩
      cases fits
      obtain ⟨rest, groups⟩ := w
      obtain rfl : rest = v.rest := split
      obtain rfl : v.groups = groups := same
      exact List.mem_singleton_self _
  | cons test tests ih =>
    rw [word, mem_ways_seq]
    constructor
    · rintro ⟨u, head, tail⟩
      obtain ⟨c, split, passes, same⟩ := mem_ways_one.mp head
      obtain ⟨text, later, fits, same'⟩ := ih.mp tail
      exact ⟨c :: text, by rw [split, later, List.cons_append], .cons passes fits,
        same'.trans same⟩
    · rintro ⟨text, split, fits, same⟩
      cases fits with
      | cons passes fits =>
        rename_i c text
        exact ⟨⟨text ++ v.rest, w.groups⟩, mem_ways_one.mpr ⟨c, split, passes, rfl⟩,
          ih.mpr ⟨text, rfl, fits, same⟩⟩

/-- A look ahead consumes nothing. -/
theorem rest_of_ahead {body : Regex α} {w v : Way α} (member : v ∈ (ahead body).ways w) :
    v.rest = w.rest := by
  unfold ways at member
  split at member
  · exact absurd member List.not_mem_nil
  · obtain rfl := List.mem_singleton.mp member
    rfl

/-- A bounded run. -/
theorem mem_ways_upTo {test : α → Bool} {most : Nat} {w v : Way α}
    (member : v ∈ (upTo test most).ways w) : ∃ text, w.rest = text ++ v.rest ∧ text.length ≤ most ∧
      (∀ c ∈ text, test c = true) ∧ v.groups = w.groups := by
  induction most generalizing w with
  | zero =>
    obtain rfl := List.mem_singleton.mp member
    exact ⟨[], rfl, Nat.le_refl 0, by simp, rfl⟩
  | succ most ih =>
    rcases List.mem_append.mp member with more | none
    · obtain ⟨u, first, later⟩ := mem_ways_seq.mp more
      obtain ⟨c, split, passes, same⟩ := mem_ways_one.mp first
      obtain ⟨text, split', short, every, same'⟩ := ih later
      exact ⟨c :: text, by rw [split, split', List.cons_append], Nat.succ_le_succ short,
        List.forall_mem_cons.mpr ⟨passes, every⟩, same'.trans same⟩
    · obtain rfl := List.mem_singleton.mp none
      exact ⟨[], rfl, Nat.zero_le _, by simp, rfl⟩

/-- What is left is a suffix. -/
theorem ways_suffix {pattern : Regex α} {w v : Way α} (member : v ∈ pattern.ways w) :
    ∃ text, w.rest = text ++ v.rest := by
  induction pattern generalizing w v with
  | nothing =>
    obtain rfl := List.mem_singleton.mp member
    exact ⟨[], rfl⟩
  | one test =>
    obtain ⟨c, split, -⟩ := mem_ways_one.mp member
    exact ⟨[c], split⟩
  | many test =>
    obtain ⟨text, split, -⟩ := mem_ways_many.mp member
    exact ⟨text, split⟩
  | few test =>
    obtain ⟨text, split, -⟩ := mem_ways_few.mp member
    exact ⟨text, split⟩
  | seq a b head tail =>
    obtain ⟨u, one, two⟩ := mem_ways_seq.mp member
    obtain ⟨text, split⟩ := head one
    obtain ⟨more, split'⟩ := tail two
    exact ⟨text ++ more, by rw [split, split', List.append_assoc]⟩
  | alt a b left right =>
    rcases List.mem_append.mp member with here | there
    · exact left here
    · exact right there
  | group index body ih =>
    obtain ⟨u, inner, same⟩ := mem_ways_group member
    obtain ⟨text, split⟩ := ih inner
    exact ⟨text, by rw [split, same]⟩
  | ahead body ih =>
    simp only [ways] at member
    split at member
    · exact absurd member List.not_mem_nil
    · obtain rfl := List.mem_singleton.mp member
      exact ⟨[], rfl⟩
  | atEnd =>
    simp only [ways] at member
    split_ifs at member
    · obtain rfl := List.mem_singleton.mp member
      exact ⟨[], rfl⟩
    · exact absurd member List.not_mem_nil

theorem length_ways {pattern : Regex α} {w v : Way α} (member : v ∈ pattern.ways w) :
    v.rest.length ≤ w.rest.length := by
  obtain ⟨text, split⟩ := ways_suffix member
  rw [split, List.length_append]
  exact Nat.le_add_left _ _

/-- A group holds no more than there was ahead. -/
theorem length_groups {pattern : Regex α} {w v : Way α} (member : v ∈ pattern.ways w) :
    ∀ held ∈ v.groups, held ∈ w.groups ∨ held.2.length ≤ w.rest.length := by
  induction pattern generalizing w v with
  | nothing =>
    obtain rfl := List.mem_singleton.mp member
    exact fun held inside => .inl inside
  | one test =>
    obtain ⟨c, -, -, same⟩ := mem_ways_one.mp member
    exact fun held inside => .inl (same ▸ inside)
  | many test =>
    obtain ⟨text, -, -, same⟩ := mem_ways_many.mp member
    exact fun held inside => .inl (same ▸ inside)
  | few test =>
    obtain ⟨text, -, -, same⟩ := mem_ways_few.mp member
    exact fun held inside => .inl (same ▸ inside)
  | seq a b head tail =>
    obtain ⟨u, one, two⟩ := mem_ways_seq.mp member
    intro held inside
    rcases tail two held inside with older | short
    · exact head one held older
    · exact .inr (Nat.le_trans short (length_ways one))
  | alt a b left right =>
    rcases List.mem_append.mp member with here | there
    · exact left here
    · exact right there
  | group index body ih =>
    obtain ⟨u, inner, rfl⟩ := List.mem_map.mp member
    intro held inside
    rcases List.mem_cons.mp inside with rfl | older
    · exact .inr (List.length_take_le' _ _)
    · exact ih inner held older
  | ahead body ih =>
    simp only [ways] at member
    split at member
    · exact absurd member List.not_mem_nil
    · rename_i u others tried
      obtain rfl := List.mem_singleton.mp member
      have inside : u ∈ body.ways w := by rw [tried]; exact List.mem_cons_self
      exact fun held within => ih inside held within
  | atEnd =>
    simp only [ways] at member
    split_ifs at member
    · obtain rfl := List.mem_singleton.mp member
      exact fun held inside => .inl inside
    · exact absurd member List.not_mem_nil

/-! ### The first way -/

/-- **The engine ends in `v`**: of all ways it is the first. -/
def Leads (pattern : Regex α) (w v : Way α) : Prop := (pattern.ways w).head? = .some v

/-- The engine tries a way and goes on, when what it tried before came to nothing. -/
theorem Leads.seq {a b : Regex α} {w u v : Way α} {tried later : List (Way α)}
    (eq : a.ways w = tried ++ u :: later) (fails : ∀ t ∈ tried, b.ways t = [])
    (next : b.Leads u v) : (seq a b).Leads w v := by
  have empty : tried.flatMap b.ways = [] := List.flatMap_eq_nil_iff.mpr fails
  unfold Leads ways
  rw [eq, List.flatMap_append, empty, List.nil_append, List.flatMap_cons, List.head?_append]
  rw [show (b.ways u).head? = .some v from next]
  rfl

/-- The only way. -/
theorem Leads.only {a b : Regex α} {w u v : Way α} (eq : a.ways w = [u]) (next : b.Leads u v) :
    (Regex.seq a b).Leads w v :=
  @Leads.seq _ a b w u v [] [] eq (by simp) next

/-- What the engine ends in for `a` is where it goes on with `b`. -/
theorem Leads.step {a b : Regex α} {w u v : Way α} (here : a.Leads w u) (next : b.Leads u v) :
    (Regex.seq a b).Leads w v := by
  obtain ⟨later, eq⟩ := List.head?_eq_some_iff.mp here
  exact @Leads.seq _ a b w u v [] later eq (by simp) next

theorem Leads.assoc {a b c : Regex α} {w v : Way α}
    (nested : (Regex.seq a (Regex.seq b c)).Leads w v) :
    (Regex.seq (Regex.seq a b) c).Leads w v := by
  unfold Leads at nested ⊢
  rw [← nested]
  simp only [ways, List.flatMap_assoc]

/-- A group around a pattern that leaves the groups alone. -/
theorem Leads.group {body : Regex α} {index : Nat} {text rest : List α}
    {groups : List (Nat × List α)} (inner : body.Leads ⟨text ++ rest, groups⟩ ⟨rest, groups⟩) :
    (Regex.group index body).Leads ⟨text ++ rest, groups⟩ ⟨rest, (index, text) :: groups⟩ := by
  obtain ⟨later, eq⟩ := List.head?_eq_some_iff.mp inner
  unfold Leads ways
  rw [eq, List.map_cons, List.head?_cons, consumed_append]

/-- The second of two alternatives, when the first has no way. -/
theorem Leads.right {a b : Regex α} {w v : Way α} (none' : a.ways w = []) (leads : b.Leads w v) :
    (Regex.alt a b).Leads w v := by
  unfold Leads ways
  rw [none', List.nil_append]
  exact leads

theorem Leads.left {a b : Regex α} {w v : Way α} (leads : a.Leads w v) :
    (Regex.alt a b).Leads w v := by
  unfold Leads ways
  rw [List.head?_append, show (a.ways w).head? = .some v from leads]
  rfl

theorem leads_nothing (w : Way α) : (nothing : Regex α).Leads w w := rfl

/-- A bounded greedy run is taken whole, when it is as long as it may be or cannot go on. -/
theorem leads_upTo {test : α → Bool} {most : Nat} {text rest : List α}
    {groups : List (Nat × List α)} (every : ∀ c ∈ text, test c = true) (short : text.length ≤ most)
    (stop : text.length = most ∨ ∀ c cs, rest = c :: cs → test c = false) :
    (upTo test most).Leads ⟨text ++ rest, groups⟩ ⟨rest, groups⟩ := by
  induction most generalizing text with
  | zero =>
    obtain rfl := List.eq_nil_of_length_eq_zero (Nat.le_zero.mp short)
    rfl
  | succ most ih =>
    cases text with
    | nil =>
      rcases stop with full | stop
      · exact absurd full (by simp)
      · cases rest with
        | nil => rfl
        | cons c cs =>
          have stopped : test c = false := stop c cs rfl
          simp [Leads, upTo, opt, ways, stopped]
    | cons c text =>
      obtain ⟨passes, every⟩ := List.forall_mem_cons.mp every
      have later := ih every (Nat.le_of_succ_le_succ short)
        (stop.imp_left fun full => Nat.succ.inj full)
      obtain ⟨others, eq⟩ := List.head?_eq_some_iff.mp later
      simp [Leads, upTo, opt, ways, passes, eq]

theorem ways_word_append {tests : List (α → Bool)} {text : List α}
    (fits : List.Forall₂ (fun test c => test c = true) tests text) (rest : List α)
    (groups : List (Nat × List α)) : (word tests).ways ⟨text ++ rest, groups⟩ = [⟨rest, groups⟩] := by
  induction fits with
  | nil => rfl
  | cons passes fits ih =>
    unfold word ways
    rw [List.cons_append, ways_one_cons, if_pos passes, List.flatMap_singleton, ih]

/-- A group around a pattern that leaves one way. -/
theorem ways_group_append {body : Regex α} {index : Nat} {text rest : List α}
    {groups : List (Nat × List α)} (eq : body.ways ⟨text ++ rest, groups⟩ = [⟨rest, groups⟩]) :
    (group index body).ways ⟨text ++ rest, groups⟩ = [⟨rest, (index, text) :: groups⟩] := by
  unfold ways
  rw [eq]
  simp

/-- A greedy run is taken whole. -/
theorem Leads.many {test : α → Bool} {b : Regex α} {text rest : List α}
    {groups : List (Nat × List α)} {v : Way α} (every : ∀ c ∈ text, test c = true)
    (stop : ∀ c cs, rest = c :: cs → test c = false) (next : b.Leads ⟨rest, groups⟩ v) :
    (Regex.seq (Regex.many test) b).Leads ⟨text ++ rest, groups⟩ v := by
  obtain ⟨shorter, eq⟩ := rests_append_stop every stop
  have listed : (Regex.many test).ways ⟨text ++ rest, groups⟩ =
      [] ++ ⟨rest, groups⟩ :: (shorter.reverse.map fun rest => ⟨rest, groups⟩) := by
    simp [ways, eq]
  exact Leads.seq listed (by simp) next

/-- A greedy run under a group. -/
theorem Leads.groupMany {test : α → Bool} {b : Regex α} {index : Nat} {text rest : List α}
    {groups : List (Nat × List α)} {v : Way α} (every : ∀ c ∈ text, test c = true)
    (stop : ∀ c cs, rest = c :: cs → test c = false)
    (next : b.Leads ⟨rest, (index, text) :: groups⟩ v) :
    (Regex.seq (Regex.group index (Regex.many test)) b).Leads ⟨text ++ rest, groups⟩ v := by
  obtain ⟨shorter, eq⟩ := rests_append_stop every stop
  have listed : (Regex.group index (Regex.many test)).ways ⟨text ++ rest, groups⟩ =
      [] ++ ⟨rest, (index, text) :: groups⟩ :: (shorter.reverse.map fun rest' =>
        ⟨rest', (index, consumed (text ++ rest) rest') :: groups⟩) := by
    simp [ways, eq]
  exact Leads.seq listed (by simp) next

/-- A lazy run under a group ends where the rest of the pattern first goes on. -/
theorem Leads.groupFew {test : α → Bool} {b : Regex α} {index : Nat} {text rest : List α}
    {groups : List (Nat × List α)} {v : Way α} (every : ∀ c ∈ text, test c = true)
    (fails : ∀ before c after, text = before ++ c :: after →
      b.ways ⟨c :: after ++ rest, (index, before) :: groups⟩ = [])
    (next : b.Leads ⟨rest, (index, text) :: groups⟩ v) :
    (Regex.seq (Regex.group index (Regex.few test)) b).Leads ⟨text ++ rest, groups⟩ v := by
  have eq : (Regex.seq (Regex.group index (Regex.few test)) b).ways ⟨text ++ rest, groups⟩ =
      (rests test (text ++ rest)).flatMap fun rest' =>
        b.ways ⟨rest', (index, consumed (text ++ rest) rest') :: groups⟩ := by
    simp only [ways, List.map_map, List.flatMap_map, Function.comp_def]
  have skipped := @rests_append_fails α _ test text rest
    (fun rest' => b.ways ⟨rest', (index, consumed (text ++ rest) rest') :: groups⟩) every
    (by
      intro before c after split
      have taken : consumed (text ++ rest) (c :: after ++ rest) = before := by
        rw [split, List.append_assoc, consumed_append]
      rw [taken]
      exact fails before c after split)
  obtain ⟨longer, first⟩ := rests_eq_cons test rest
  unfold Leads
  rw [eq, skipped, first, List.flatMap_cons, consumed_append, List.head?_append]
  rw [show (b.ways ⟨rest, (index, text) :: groups⟩).head? = .some v from next]
  rfl

/-- When `b` goes on from wherever `a` ends, the engine never comes back to `a`. -/
theorem head_flatMap {a b : Regex α} {w : Way α} {next : Way α → Way α}
    (leads : ∀ u ∈ a.ways w, b.Leads u (next u)) :
    ((a.ways w).flatMap b.ways).head? = (a.ways w).head?.map next := by
  cases eq : a.ways w with
  | nil => rfl
  | cons u later =>
    have here : (b.ways u).head? = .some (next u) := leads u (by simp [eq])
    rw [List.flatMap_cons, List.head?_append, here]
    rfl

/-- A lazy run of one or more under a group. -/
theorem Leads.groupSomeFew {test : α → Bool} {b : Regex α} {index : Nat} {c : α}
    {text rest : List α} {groups : List (Nat × List α)} {v : Way α}
    (every : ∀ d ∈ c :: text, test d = true)
    (fails : ∀ before d after, text = before ++ d :: after →
      b.ways ⟨d :: after ++ rest, (index, c :: before) :: groups⟩ = [])
    (next : b.Leads ⟨rest, (index, c :: text) :: groups⟩ v) :
    (Regex.seq (Regex.group index (Regex.someFew test)) b).Leads ⟨c :: text ++ rest, groups⟩ v := by
  obtain ⟨passes, every⟩ := List.forall_mem_cons.mp every
  have eq : (Regex.seq (Regex.group index (Regex.someFew test)) b).ways
      ⟨c :: text ++ rest, groups⟩ = (rests test (text ++ rest)).flatMap fun rest' =>
        b.ways ⟨rest', (index, consumed (c :: text ++ rest) rest') :: groups⟩ := by
    simp only [ways, Regex.someFew, List.cons_append, passes, if_true, List.flatMap_singleton,
      List.map_map, List.flatMap_map, Function.comp_def]
  have skipped := @rests_append_fails α _ test text rest
    (fun rest' => b.ways ⟨rest', (index, consumed (c :: text ++ rest) rest') :: groups⟩) every
    (by
      intro before d after split
      have taken : consumed (c :: text ++ rest) (d :: after ++ rest) = c :: before := by
        rw [split, ← List.cons_append, List.append_assoc, consumed_append]
      rw [taken]
      exact fails before d after split)
  obtain ⟨longer, first⟩ := rests_eq_cons test rest
  unfold Leads
  rw [eq, skipped, first, List.flatMap_cons, consumed_append, List.head?_append]
  rw [show (b.ways ⟨rest, (index, c :: text) :: groups⟩).head? = .some v from next]
  rfl

/-! ### Matches -/

theorem first_of_leads {pattern : Regex α} {text rest : List α} {groups : List (Nat × List α)}
    (leads : pattern.Leads ⟨text ++ rest, []⟩ ⟨rest, groups⟩) :
    pattern.first (text ++ rest) = .some (⟨text, groups⟩, rest) := by
  unfold first
  rw [show (pattern.ways ⟨text ++ rest, []⟩).head? = .some ⟨rest, groups⟩ from leads]
  simp

theorem first_eq_none {pattern : Regex α} {input : List α} :
    pattern.first input = none ↔ pattern.ways ⟨input, []⟩ = [] := by
  unfold first
  rw [Option.map_eq_none_iff, List.head?_eq_none_iff]

theorem mem_ways_of_first {pattern : Regex α} {input rest : List α} {m : Match α}
    (found : pattern.first input = .some (m, rest)) :
    ⟨rest, m.groups⟩ ∈ pattern.ways ⟨input, []⟩ := by
  obtain ⟨w, leads, eq⟩ := Option.map_eq_some_iff.mp found
  obtain ⟨rfl, rfl⟩ := Prod.mk.inj eq
  exact List.mem_of_head? leads

/-- A match is what stands at the head of the input. -/
theorem first_split {pattern : Regex α} {input rest : List α} {m : Match α}
    (found : pattern.first input = .some (m, rest)) : input = m.text ++ rest := by
  obtain ⟨w, leads, eq⟩ := Option.map_eq_some_iff.mp found
  obtain ⟨rfl, rfl⟩ := Prod.mk.inj eq
  obtain ⟨text, split⟩ := ways_suffix (List.mem_of_head? leads)
  obtain rfl : input = text ++ w.rest := split
  simp

/-- Nothing matches in `skipped`, so the search goes past it. -/
theorem search_append {pattern : Regex α} {skipped input : List α}
    (fails : ∀ before c after, skipped = before ++ c :: after →
      pattern.first (c :: after ++ input) = none) :
    pattern.search (skipped ++ input) = pattern.search input := by
  induction skipped with
  | nil => rfl
  | cons c skipped ih =>
    have here : pattern.first (c :: (skipped ++ input)) = none := fails [] c skipped rfl
    rw [List.cons_append, search, here]
    exact ih fun before d after split => fails (c :: before) d after (by simp [split])

theorem search_of_first {pattern : Regex α} {input rest : List α} {m : Match α}
    (found : pattern.first input = .some (m, rest)) : pattern.search input = .some m := by
  cases input with
  | nil =>
    unfold search
    rw [found]
    rfl
  | cons c cs => rw [search, found]

/-- What a search finds is the match at the head of some of the input. -/
theorem first_of_search {pattern : Regex α} {input : List α} {m : Match α}
    (found : pattern.search input = .some m) :
    ∃ before after rest, input = before ++ after ∧ pattern.first after = .some (m, rest) := by
  induction input with
  | nil =>
    unfold search at found
    obtain ⟨⟨m', rest⟩, here, rfl⟩ := Option.map_eq_some_iff.mp found
    exact ⟨[], [], rest, rfl, here⟩
  | cons c cs ih =>
    unfold search at found
    split at found
    · rename_i m' rest here
      obtain rfl := Option.some.inj found
      exact ⟨[], c :: cs, rest, rfl, here⟩
    · obtain ⟨before, after, rest, rfl, here⟩ := ih found
      exact ⟨c :: before, after, rest, rfl, here⟩

/-- A group of what a search finds is no longer than the input. -/
theorem length_group_of_search {pattern : Regex α} {input : List α} {m : Match α}
    (found : pattern.search input = .some m) {index : Nat} {text : List α}
    (held : m.group index = .some text) : text.length ≤ input.length := by
  obtain ⟨before, after, rest, rfl, here⟩ := first_of_search found
  obtain ⟨older, newer, split, -⟩ := List.lookup_eq_some_iff.mp held
  have inside : (index, text) ∈ m.groups := by
    rw [split]
    exact List.mem_append_right _ List.mem_cons_self
  rcases length_groups (mem_ways_of_first here) _ inside with none' | short
  · exact absurd none' List.not_mem_nil
  · rw [List.length_append]
    exact Nat.le_trans short (Nat.le_add_left _ _)

theorem search_eq_none {pattern : Regex α} {input : List α}
    (fails : ∀ before after, input = before ++ after → pattern.first after = none) :
    pattern.search input = none := by
  induction input with
  | nil =>
    unfold search
    rw [fails [] [] rfl]
    rfl
  | cons c cs ih =>
    rw [search, fails [] (c :: cs) rfl]
    exact ih fun before after split => fails (c :: before) after (by simp [split])

theorem first_of_search_none {pattern : Regex α} {before after : List α}
    (none' : pattern.search (before ++ after) = none) : pattern.first after = none := by
  induction before with
  | nil =>
    cases after with
    | nil =>
      unfold search at none'
      exact Option.map_eq_none_iff.mp none'
    | cons c cs =>
      cases found : pattern.first (c :: cs) with
      | none => rfl
      | some result =>
        obtain ⟨m, rest⟩ := result
        rw [List.nil_append, search_of_first found] at none'
        exact absurd none' (Option.some_ne_none m)
  | cons d before ih =>
    refine ih ?_
    rw [List.cons_append, search] at none'
    cases found : pattern.first (d :: (before ++ after)) with
    | none =>
      rw [found] at none'
      exact none'
    | some result =>
      rw [found] at none'
      exact absurd none' (Option.some_ne_none _)

/-! ### Scanning -/

@[simp] theorem scan_nil (pattern : Regex α) (skip : Nat) : pattern.scan skip [] = [] := by
  cases skip <;> rfl

theorem scan_skip (pattern : Regex α) (text rest : List α) :
    pattern.scan text.length (text ++ rest) = pattern.scan 0 rest := by
  induction text with
  | nil => rfl
  | cons c text ih => exact ih

theorem scan_hit {pattern : Regex α} {input rest : List α} {m : Match α}
    (found : pattern.first input = .some (m, rest)) (full : m.text ≠ []) :
    pattern.scan 0 input = .hit m :: pattern.scan 0 rest := by
  have split := first_split found
  cases input with
  | nil =>
    have empty := List.append_eq_nil_iff.mp split.symm
    exact absurd empty.1 full
  | cons c cs =>
    cases text : m.text with
    | nil => exact absurd text full
    | cons d later =>
      rw [text] at split
      obtain ⟨rfl, rfl⟩ := List.cons.inj split
      rw [scan, found]
      simp only [text]
      exact congrArg (Piece.hit m :: ·) (scan_skip pattern later rest)

theorem scan_plain {pattern : Regex α} {c : α} {cs : List α}
    (fails : pattern.first (c :: cs) = none) :
    pattern.scan 0 (c :: cs) = .plain c :: pattern.scan 0 cs := by
  rw [scan, fails]

/-- Nothing matches in `skipped`, so the scan copies it. -/
theorem scan_append {pattern : Regex α} {skipped input : List α}
    (fails : ∀ before c after, skipped = before ++ c :: after →
      pattern.first (c :: after ++ input) = none) :
    pattern.scan 0 (skipped ++ input) = skipped.map .plain ++ pattern.scan 0 input := by
  induction skipped with
  | nil => rfl
  | cons c skipped ih =>
    have here : pattern.first (c :: (skipped ++ input)) = none := fails [] c skipped rfl
    rw [List.cons_append, scan_plain here, List.map_cons, List.cons_append]
    rw [ih fun before d after split => fails (c :: before) d after (by simp [split])]

@[simp] theorem sub_nil (pattern : Regex α) (replace : Match α → List α) :
    pattern.sub replace [] = [] := rfl

theorem sub_hit {pattern : Regex α} {replace : Match α → List α} {input rest : List α}
    {m : Match α} (found : pattern.first input = .some (m, rest)) (full : m.text ≠ []) :
    pattern.sub replace input = replace m ++ pattern.sub replace rest := by
  unfold sub
  rw [scan_hit found full, List.flatMap_cons, Piece.replaced]

theorem sub_plain {pattern : Regex α} {replace : Match α → List α} {c : α} {cs : List α}
    (fails : pattern.first (c :: cs) = none) :
    pattern.sub replace (c :: cs) = c :: pattern.sub replace cs := by
  unfold sub
  rw [scan_plain fails, List.flatMap_cons]
  rfl

theorem sub_append {pattern : Regex α} {replace : Match α → List α} {skipped input : List α}
    (fails : ∀ before c after, skipped = before ++ c :: after →
      pattern.first (c :: after ++ input) = none) :
    pattern.sub replace (skipped ++ input) = skipped ++ pattern.sub replace input := by
  unfold sub
  rw [scan_append fails, List.flatMap_append, List.flatMap_map]
  congr 1
  exact List.flatMap_singleton' skipped

theorem findAll_hit {pattern : Regex α} {input rest : List α} {m : Match α}
    (found : pattern.first input = .some (m, rest)) (full : m.text ≠ []) :
    pattern.findAll input = m :: pattern.findAll rest := by
  unfold findAll
  rw [scan_hit found full]
  rfl

theorem findAll_append {pattern : Regex α} {skipped input : List α}
    (fails : ∀ before c after, skipped = before ++ c :: after →
      pattern.first (c :: after ++ input) = none) :
    pattern.findAll (skipped ++ input) = pattern.findAll input := by
  unfold findAll
  rw [scan_append fails, List.filterMap_append, List.filterMap_map]
  have none : skipped.filterMap (Piece.match? ∘ Piece.plain) = [] := by
    rw [List.filterMap_eq_nil_iff]
    exact fun _ _ => rfl
  rw [none, List.nil_append]

/-! ### Runs that do not see the end of the input -/

/-- **The run never asks what comes at the end of the input**, so it is the same on every longer
one. -/
def Stuck : Regex α → Way α → Prop
  | nothing, _ => True
  | one _, w => w.rest ≠ []
  | many test, w => ∃ c ∈ w.rest, test c = false
  | few test, w => ∃ c ∈ w.rest, test c = false
  | seq a b, w => a.Stuck w ∧ ∀ u ∈ a.ways w, b.Stuck u
  | alt a b, w => a.Stuck w ∧ b.Stuck w
  | group _ body, w => body.Stuck w
  | ahead body, w => body.Stuck w
  | atEnd, w => w.rest ≠ []

theorem rests_extend {test : α → Bool} {input : List α} (stop : ∃ c ∈ input, test c = false)
    (more : List α) : rests test (input ++ more) = (rests test input).map (· ++ more) := by
  induction input with
  | nil => exact absurd stop (by simp)
  | cons c cs ih =>
    rw [List.cons_append, rests, rests]
    cases passes : test c with
    | false => simp
    | true =>
      obtain ⟨d, member, fails⟩ := stop
      have later : d ∈ cs := by
        rcases List.mem_cons.mp member with rfl | later
        · exact absurd passes (by simp [fails])
        · exact later
      simp [ih ⟨d, later, fails⟩]

theorem consumed_extend {input rest : List α} (suffix : ∃ text, input = text ++ rest)
    (more : List α) : consumed (input ++ more) (rest ++ more) = consumed input rest := by
  obtain ⟨text, rfl⟩ := suffix
  rw [List.append_assoc, consumed_append, consumed_append]

/-- **A run that never sees the end of the input is the same on every longer one.** -/
theorem ways_extend {pattern : Regex α} {w : Way α} (stuck : pattern.Stuck w) (more : List α) :
    pattern.ways (w.extend more) = (pattern.ways w).map (Way.extend more) := by
  induction pattern generalizing w with
  | nothing => rfl
  | one test =>
    obtain ⟨rest, groups⟩ := w
    cases rest with
    | nil => exact absurd rfl stuck
    | cons c cs =>
      show (if test c = true then _ else _) = List.map _ (if test c = true then _ else _)
      split_ifs <;> rfl
  | many test =>
    unfold ways
    show (rests test (w.rest ++ more)).reverse.map _ = _
    rw [rests_extend stuck, ← List.map_reverse, List.map_map, List.map_map]
    rfl
  | few test =>
    unfold ways
    show (rests test (w.rest ++ more)).map _ = _
    rw [rests_extend stuck, List.map_map, List.map_map]
    rfl
  | seq a b head tail =>
    obtain ⟨here, next⟩ := stuck
    unfold ways
    rw [head here, List.flatMap_map, List.map_flatMap]
    exact List.flatMap_congr fun u member => tail (next u member)
  | alt a b left right =>
    unfold ways
    rw [left stuck.1, right stuck.2, List.map_append]
  | group index body ih =>
    unfold ways
    rw [ih stuck, List.map_map, List.map_map]
    refine List.map_congr_left fun v member => ?_
    have same := consumed_extend (ways_suffix member) more
    show (⟨v.rest ++ more, (index, consumed (w.rest ++ more) (v.rest ++ more)) :: v.groups⟩ :
      Way α) = _
    rw [same]
    rfl
  | ahead body ih =>
    unfold ways
    rw [ih stuck]
    cases body.ways w <;> rfl
  | atEnd =>
    obtain ⟨rest, groups⟩ := w
    cases rest with
    | nil => exact absurd rfl stuck
    | cons c cs => rfl

theorem first_extend {pattern : Regex α} {more input : List α}
    (same : pattern.ways ⟨input ++ more, []⟩ = (pattern.ways ⟨input, []⟩).map (Way.extend more)) :
    pattern.first (input ++ more) = (pattern.first input).map fun found =>
      (found.1, found.2 ++ more) := by
  unfold first
  rw [same, List.head?_map, Option.map_map, Option.map_map]
  cases found : (pattern.ways ⟨input, []⟩).head? with
  | none => rfl
  | some w =>
    have taken := consumed_extend (ways_suffix (List.mem_of_head? found)) more
    show Option.some (Match.mk (consumed (input ++ more) (w.rest ++ more)) w.groups, w.rest ++ more) = _
    rw [taken]
    rfl

/-- The pattern finds the same in `input` when `more` comes behind it. -/
def SameBefore (pattern : Regex α) (more input : List α) : Prop :=
  ∀ before c after, input = before ++ c :: after →
    pattern.first (c :: after ++ more) =
      (pattern.first (c :: after)).map fun found => (found.1, found.2 ++ more)

theorem SameBefore.tail {pattern : Regex α} {more : List α} {c : α} {cs : List α}
    (same : pattern.SameBefore more (c :: cs)) : pattern.SameBefore more cs :=
  fun before d after split => same (c :: before) d after (by simp [split])

/-- Then the scan of the whole is one scan after the other. -/
theorem scan_extend {pattern : Regex α} {more input : List α}
    (same : pattern.SameBefore more input) {skip : Nat} (within : skip ≤ input.length) :
    pattern.scan skip (input ++ more) = pattern.scan skip input ++ pattern.scan 0 more := by
  induction input generalizing skip with
  | nil =>
    obtain rfl := Nat.le_zero.mp within
    rfl
  | cons c cs ih =>
    have later : ∀ {skip : Nat}, skip ≤ cs.length →
        pattern.scan skip (cs ++ more) = pattern.scan skip cs ++ pattern.scan 0 more :=
      ih same.tail
    cases skip with
    | succ skip => exact later (Nat.le_of_succ_le_succ within)
    | zero =>
      have extended := same [] c cs rfl
      rw [List.cons_append] at extended ⊢
      cases found : pattern.first (c :: cs) with
      | none =>
        rw [found, Option.map_none] at extended
        rw [scan_plain extended, scan_plain found, later (Nat.zero_le _), List.cons_append]
      | some hit =>
        obtain ⟨m, rest⟩ := hit
        rw [found, Option.map_some] at extended
        have split := first_split found
        rw [scan, scan, extended, found]
        cases text : m.text with
        | nil =>
          simp only [text]
          rw [later (Nat.zero_le _), List.cons_append]
        | cons d taken =>
          rw [text] at split
          obtain ⟨-, split⟩ := List.cons.inj split
          simp only [text]
          rw [later (by rw [split]; simp), List.cons_append]

theorem sub_extend {pattern : Regex α} {replace : Match α → List α} {more input : List α}
    (same : pattern.SameBefore more input) :
    pattern.sub replace (input ++ more) = pattern.sub replace input ++ pattern.sub replace more := by
  unfold sub
  rw [scan_extend same (Nat.zero_le _), List.flatMap_append]

/-! ### How often a mark can be consumed -/

/-- The most often a pattern can consume the mark, if there is a bound. -/
def marks (mark : α) : Regex α → Option Nat
  | nothing | atEnd => .some 0
  | one test => .some (if test mark then 1 else 0)
  | many test | few test => if test mark then none else .some 0
  | seq a b => do
    let first ← a.marks mark
    let second ← b.marks mark
    pure (first + second)
  | alt a b => do
    let left ← a.marks mark
    let right ← b.marks mark
    pure (max left right)
  | group _ body | ahead body => body.marks mark

section Marks

variable [DecidableEq α] {mark : α}

theorem count_of_passes {test : α → Bool} {text : List α} (every : ∀ c ∈ text, test c = true)
    (clear : test mark = false) : text.count mark = 0 := by
  refine List.count_eq_zero.mpr fun member => ?_
  rw [every mark member] at clear
  exact absurd clear (by simp)

/-- What a bounded pattern leaves has lost no more marks than the bound. -/
theorem count_of_ways {pattern : Regex α} {bound : Nat} (bounded : pattern.marks mark = .some bound)
    {w v : Way α} (member : v ∈ pattern.ways w) :
    w.rest.count mark ≤ v.rest.count mark + bound := by
  induction pattern generalizing bound w v with
  | nothing =>
    obtain rfl := List.mem_singleton.mp member
    exact Nat.le_add_right _ _
  | one test =>
    obtain ⟨c, split, passes, -⟩ := mem_ways_one.mp member
    obtain rfl := Option.some.inj bounded
    rw [split, List.count_cons]
    split_ifs with same clear
    · exact Nat.le_refl _
    · obtain rfl := eq_of_beq same
      exact absurd passes clear
    · exact Nat.le_add_right _ _
    · exact Nat.le_refl _
  | many test =>
    obtain ⟨text, split, every, -⟩ := mem_ways_many.mp member
    unfold marks at bounded
    split_ifs at bounded with clear
    have none := @count_of_passes _ _ mark test text every (by simpa using clear)
    rw [split, List.count_append, none, Nat.zero_add]
    exact Nat.le_add_right _ _
  | few test =>
    obtain ⟨text, split, every, -⟩ := mem_ways_few.mp member
    unfold marks at bounded
    split_ifs at bounded with clear
    have none := @count_of_passes _ _ mark test text every (by simpa using clear)
    rw [split, List.count_append, none, Nat.zero_add]
    exact Nat.le_add_right _ _
  | seq a b head tail =>
    obtain ⟨u, one, two⟩ := mem_ways_seq.mp member
    obtain ⟨first, one', rest⟩ := Option.bind_eq_some_iff.mp bounded
    obtain ⟨second, two', sum⟩ := Option.bind_eq_some_iff.mp rest
    obtain rfl := Option.some.inj sum
    have here := head one' one
    have there := tail two' two
    omega
  | alt a b left right =>
    obtain ⟨first, one', rest⟩ := Option.bind_eq_some_iff.mp bounded
    obtain ⟨second, two', most⟩ := Option.bind_eq_some_iff.mp rest
    obtain rfl := Option.some.inj most
    rcases List.mem_append.mp member with here | there
    · have kept := left one' here
      omega
    · have kept := right two' there
      omega
  | group index body ih =>
    obtain ⟨u, inner, same⟩ := mem_ways_group member
    rw [← same]
    exact ih bounded inner
  | ahead body ih =>
    unfold ways at member
    split at member
    · exact absurd member List.not_mem_nil
    · obtain rfl := List.mem_singleton.mp member
      exact Nat.le_add_right _ _
  | atEnd =>
    unfold ways at member
    split_ifs at member
    · obtain rfl := List.mem_singleton.mp member
      exact Nat.le_add_right _ _
    · exact absurd member List.not_mem_nil

/-- **A pattern stops before the end of an input that has more marks than it can consume.** -/
theorem stuck_of_marks {pattern : Regex α} {bound : Nat}
    (bounded : pattern.marks mark = .some bound) {w : Way α} (more : bound < w.rest.count mark) :
    pattern.Stuck w := by
  induction pattern generalizing bound w with
  | nothing => trivial
  | one test | atEnd =>
    intro empty
    rw [empty] at more
    exact absurd more (by simp)
  | many test | few test =>
    unfold marks at bounded
    split_ifs at bounded with clear
    exact ⟨mark, List.count_pos_iff.mp (Nat.zero_lt_of_lt more), by simpa using clear⟩
  | seq a b head tail =>
    obtain ⟨first, one', rest⟩ := Option.bind_eq_some_iff.mp bounded
    obtain ⟨second, two', sum⟩ := Option.bind_eq_some_iff.mp rest
    obtain rfl := Option.some.inj sum
    refine ⟨head one' (by omega), fun u member => tail two' ?_⟩
    have kept := count_of_ways one' member
    omega
  | alt a b left right =>
    obtain ⟨first, one', rest⟩ := Option.bind_eq_some_iff.mp bounded
    obtain ⟨second, two', most⟩ := Option.bind_eq_some_iff.mp rest
    obtain rfl := Option.some.inj most
    exact ⟨left one' (by omega), right two' (by omega)⟩
  | group index body ih => exact ih bounded more
  | ahead body ih => exact ih bounded more

/-- A pattern that does not look beyond what it consumes. -/
def Open : Regex α → Prop
  | nothing | one _ | many _ | few _ => True
  | seq a b | alt a b => a.Open ∧ b.Open
  | group _ body => body.Open
  | ahead _ | atEnd => False

omit [DecidableEq α] in
theorem rests_barrier {test : α → Bool} (clear : test mark = false) (input later : List α) :
    rests test (input ++ mark :: later) = (rests test input).map (· ++ mark :: later) := by
  induction input with
  | nil => simp [rests, clear]
  | cons c cs ih =>
    rw [List.cons_append, rests, rests]
    cases passes : test c <;> simp [ih]

omit [DecidableEq α] in
/-- **A mark that the pattern cannot consume is to it as the end of the input.** -/
theorem ways_barrier {pattern : Regex α} (bounded : pattern.marks mark = .some 0)
    (within : pattern.Open) (w : Way α) (later : List α) :
    pattern.ways (w.extend (mark :: later)) =
      (pattern.ways w).map (Way.extend (mark :: later)) := by
  induction pattern generalizing w with
  | nothing => rfl
  | one test =>
    have clear : test mark = false := by
      cases passes : test mark with
      | false => rfl
      | true => simp [marks, passes] at bounded
    obtain ⟨rest, groups⟩ := w
    cases rest with
    | nil => simp [Way.extend, clear]
    | cons c cs =>
      show (if test c = true then _ else _) = List.map _ (if test c = true then _ else _)
      split_ifs <;> rfl
  | many test =>
    unfold marks at bounded
    split_ifs at bounded with passes
    unfold ways
    show (rests test (w.rest ++ mark :: later)).reverse.map _ = _
    rw [rests_barrier (by simpa using passes), ← List.map_reverse, List.map_map, List.map_map]
    rfl
  | few test =>
    unfold marks at bounded
    split_ifs at bounded with passes
    unfold ways
    show (rests test (w.rest ++ mark :: later)).map _ = _
    rw [rests_barrier (by simpa using passes), List.map_map, List.map_map]
    rfl
  | seq a b head tail =>
    obtain ⟨first, one', rest⟩ := Option.bind_eq_some_iff.mp bounded
    obtain ⟨second, two', sum⟩ := Option.bind_eq_some_iff.mp rest
    have total := Option.some.inj sum
    obtain ⟨rfl, rfl⟩ : first = 0 ∧ second = 0 := by omega
    unfold ways
    rw [head one' within.1, List.flatMap_map, List.map_flatMap]
    exact List.flatMap_congr fun u _ => tail two' within.2 u
  | alt a b left right =>
    obtain ⟨first, one', rest⟩ := Option.bind_eq_some_iff.mp bounded
    obtain ⟨second, two', most⟩ := Option.bind_eq_some_iff.mp rest
    have greatest := Option.some.inj most
    obtain ⟨rfl, rfl⟩ : first = 0 ∧ second = 0 := by omega
    unfold ways
    rw [left one' within.1, right two' within.2, List.map_append]
  | group index body ih =>
    unfold ways
    rw [ih bounded within, List.map_map, List.map_map]
    refine List.map_congr_left fun v member => ?_
    have same := consumed_extend (ways_suffix member) (mark :: later)
    show (⟨v.rest ++ mark :: later, (index, consumed (w.rest ++ mark :: later)
      (v.rest ++ mark :: later)) :: v.groups⟩ : Way α) = _
    rw [same]
    rfl
  | ahead | atEnd => exact within.elim

omit [DecidableEq α] in
/-- More input takes no way away. -/
theorem ways_mono {pattern : Regex α} (within : pattern.Open) {w v : Way α} (more : List α)
    (member : v ∈ pattern.ways w) : v.extend more ∈ pattern.ways (w.extend more) := by
  induction pattern generalizing w v with
  | nothing =>
    obtain rfl := List.mem_singleton.mp member
    exact List.mem_singleton_self _
  | one test =>
    obtain ⟨c, split, passes, same⟩ := mem_ways_one.mp member
    refine mem_ways_one.mpr ⟨c, ?_, passes, same⟩
    show w.rest ++ more = c :: (v.rest ++ more)
    rw [split, List.cons_append]
  | many test =>
    obtain ⟨text, split, every, same⟩ := mem_ways_many.mp member
    refine mem_ways_many.mpr ⟨text, ?_, every, same⟩
    show w.rest ++ more = text ++ (v.rest ++ more)
    rw [split, List.append_assoc]
  | few test =>
    obtain ⟨text, split, every, same⟩ := mem_ways_few.mp member
    refine mem_ways_few.mpr ⟨text, ?_, every, same⟩
    show w.rest ++ more = text ++ (v.rest ++ more)
    rw [split, List.append_assoc]
  | seq a b head tail =>
    obtain ⟨u, one, two⟩ := mem_ways_seq.mp member
    exact mem_ways_seq.mpr ⟨u.extend more, head within.1 one, tail within.2 two⟩
  | alt a b left right =>
    refine List.mem_append.mpr ?_
    rcases List.mem_append.mp member with here | there
    · exact Or.inl (left within.1 here)
    · exact Or.inr (right within.2 there)
  | group index body ih =>
    obtain ⟨u, inner, rfl⟩ := List.mem_map.mp member
    refine List.mem_map.mpr ⟨u.extend more, ih within inner, ?_⟩
    have same := consumed_extend (ways_suffix inner) more
    show (⟨u.rest ++ more, (index, consumed (w.rest ++ more) (u.rest ++ more)) :: u.groups⟩ :
      Way α) = _
    rw [same]
    rfl
  | ahead | atEnd => exact within.elim

end Marks

/-- A sequence of sequences. -/
theorem ways_all_append (before after : List (Regex α)) (w : Way α) :
    (all (before ++ after)).ways w = ((all before).ways w).flatMap (all after).ways := by
  induction before generalizing w with
  | nil =>
    show _ = [w].flatMap _
    rw [List.flatMap_singleton]
    rfl
  | cons first later ih =>
    show ((first.ways w).flatMap (all (later ++ after)).ways) = _
    have step : (all (first :: later)).ways w = (first.ways w).flatMap (all later).ways := rfl
    rw [step, List.flatMap_assoc]
    exact List.flatMap_congr fun u _ => ih u

theorem Leads.append {before after : List (Regex α)} {w u v : Way α}
    (here : (all before).Leads w u) (next : (all after).Leads u v) :
    (all (before ++ after)).Leads w v := by
  have step := Leads.step here next
  unfold Leads at step ⊢
  rw [ways_all_append]
  exact step

/-- **A pattern does not read the groups**: what they held before stays behind what it captures. -/
theorem ways_under (pattern : Regex α) (older : List (Nat × List α)) (w : Way α) :
    pattern.ways (w.under older) = (pattern.ways w).map (Way.under older) := by
  induction pattern generalizing w with
  | nothing => rfl
  | one test =>
    obtain ⟨rest, groups⟩ := w
    cases rest with
    | nil => rfl
    | cons c cs =>
      show (if test c = true then _ else _) = List.map _ (if test c = true then _ else _)
      split_ifs <;> rfl
  | many test | few test =>
    unfold ways
    rw [List.map_map]
    rfl
  | seq a b head tail =>
    unfold ways
    rw [head, List.flatMap_map, List.map_flatMap]
    exact List.flatMap_congr fun u _ => tail u
  | alt a b left right =>
    unfold ways
    rw [left, right, List.map_append]
  | group index body ih =>
    unfold ways
    rw [ih, List.map_map, List.map_map]
    rfl
  | ahead body ih =>
    unfold ways
    rw [ih]
    cases body.ways w <;> rfl
  | atEnd =>
    unfold ways
    show (if w.rest.isEmpty = true then _ else _) = List.map _ (if w.rest.isEmpty = true then _ else _)
    split_ifs <;> rfl

/-! ### The pieces of a scan -/

/-- What a piece was in the input. -/
def Piece.source : Piece α → List α
  | plain c => [c]
  | hit m => m.text

/-- The pieces are the input. -/
theorem scan_source (pattern : Regex α) (input : List α) :
    (pattern.scan 0 input).flatMap Piece.source = input := by
  suffices every : ∀ skip, (pattern.scan skip input).flatMap Piece.source = input.drop skip from
    every 0
  induction input with
  | nil =>
    intro skip
    rw [scan_nil, List.drop_nil]
    rfl
  | cons c cs ih =>
    intro skip
    cases skip with
    | succ skip => exact ih skip
    | zero =>
      cases found : pattern.first (c :: cs) with
      | none =>
        rw [scan_plain found, List.flatMap_cons, ih 0]
        rfl
      | some hit =>
        obtain ⟨m, rest⟩ := hit
        have split := first_split found
        rw [scan, found]
        cases text : m.text with
        | nil =>
          simp only [text]
          rw [List.flatMap_cons, ih 0]
          rfl
        | cons d taken =>
          rw [text] at split
          obtain ⟨rfl, later⟩ := List.cons.inj split
          have skipped : cs.drop taken.length = rest := by
            rw [later]
            exact List.drop_left
          simp only [text]
          rw [List.flatMap_cons, ih, Piece.source, text, skipped, split, List.drop_zero]

/-- **What is left of a scan is a scan of what is left.** -/
theorem scan_suffix {pattern : Regex α} {input : List α} {before after : List (Piece α)}
    (split : pattern.scan 0 input = before ++ after) :
    ∃ rest, input = before.flatMap Piece.source ++ rest ∧ after = pattern.scan 0 rest := by
  induction before generalizing input with
  | nil => exact ⟨input, rfl, split.symm⟩
  | cons piece before ih =>
    cases input with
    | nil => exact absurd split (by simp)
    | cons c cs =>
      have onward : ∀ rest, pattern.scan 0 rest = before ++ after → c :: cs = piece.source ++ rest →
          ∃ rest, c :: cs = (piece :: before).flatMap Piece.source ++ rest ∧
            after = pattern.scan 0 rest := by
        intro rest later cut
        obtain ⟨last, eq, same⟩ := ih later
        exact ⟨last, by rw [cut, eq, List.flatMap_cons, List.append_assoc], same⟩
      cases found : pattern.first (c :: cs) with
      | none =>
        rw [scan_plain found] at split
        obtain ⟨rfl, later⟩ := List.cons.inj split
        exact onward cs later rfl
      | some hit =>
        obtain ⟨m, rest⟩ := hit
        by_cases full : m.text = []
        · rw [scan, found] at split
          simp only [full] at split
          obtain ⟨rfl, later⟩ := List.cons.inj split
          exact onward cs later rfl
        · rw [scan_hit found full] at split
          obtain ⟨rfl, later⟩ := List.cons.inj split
          exact onward rest later (first_split found)

/-- A scan that starts with a match starts at one. -/
theorem scan_eq_hit {pattern : Regex α} {input : List α} {m : Match α} {after : List (Piece α)}
    (eq : pattern.scan 0 input = .hit m :: after) :
    ∃ rest, pattern.first input = .some (m, rest) ∧ after = pattern.scan 0 rest := by
  cases input with
  | nil => exact absurd eq (by simp)
  | cons c cs =>
    cases found : pattern.first (c :: cs) with
    | none =>
      rw [scan_plain found] at eq
      exact absurd (List.cons.inj eq).1 (by simp)
    | some hit =>
      obtain ⟨m', rest⟩ := hit
      by_cases full : m'.text = []
      · rw [scan, found] at eq
        simp only [full] at eq
        exact absurd (List.cons.inj eq).1 (by simp)
      · rw [scan_hit found full] at eq
        obtain ⟨same, later⟩ := List.cons.inj eq
        obtain rfl := Piece.hit.inj same
        exact ⟨rest, rfl, later.symm⟩

/-- A scan that starts with a character starts where nothing matches. -/
theorem scan_eq_plain {pattern : Regex α} {input : List α} {c : α} {after : List (Piece α)}
    (eq : pattern.scan 0 input = .plain c :: after) :
    ∃ rest, input = c :: rest ∧ after = pattern.scan 0 rest ∧
      ∀ m later, pattern.first input = .some (m, later) → m.text = [] := by
  cases input with
  | nil => exact absurd eq (by simp)
  | cons d cs =>
    cases found : pattern.first (d :: cs) with
    | none =>
      rw [scan_plain found] at eq
      obtain ⟨same, later⟩ := List.cons.inj eq
      obtain rfl := Piece.plain.inj same
      exact ⟨cs, rfl, later.symm, by simp⟩
    | some hit =>
      obtain ⟨m', rest⟩ := hit
      by_cases full : m'.text = []
      · rw [scan, found] at eq
        simp only [full] at eq
        obtain ⟨same, later⟩ := List.cons.inj eq
        obtain rfl := Piece.plain.inj same
        refine ⟨cs, rfl, later.symm, fun m last same => ?_⟩
        rw [← (Prod.mk.inj (Option.some.inj same)).1]
        exact full
      · rw [scan_hit found full] at eq
        exact absurd (List.cons.inj eq).1 (by simp)

/-- What stands in what the pieces become stands in one of them. -/
theorem flatMap_split {β γ : Type} {f : β → List γ} {pieces : List β} {before after : List γ} {y : γ}
    (eq : pieces.flatMap f = before ++ y :: after) :
    ∃ first piece later u v, pieces = first ++ piece :: later ∧ f piece = u ++ y :: v ∧
      before = first.flatMap f ++ u ∧ after = v ++ later.flatMap f := by
  induction pieces generalizing before with
  | nil => exact absurd eq (by simp)
  | cons piece pieces ih =>
    rw [List.flatMap_cons] at eq
    rcases List.append_eq_append_iff.mp eq with ⟨u, cut, rest⟩ | ⟨v, cut, rest⟩
    · obtain ⟨first, found, later, u', v, eq', here, left, right⟩ := ih rest
      refine ⟨piece :: first, found, later, u', v, by rw [eq', List.cons_append], here, ?_, right⟩
      rw [cut, left, List.flatMap_cons, List.append_assoc]
    · cases v with
      | nil =>
        rw [List.nil_append] at rest
        have here : pieces.flatMap f = [] ++ y :: after := rest.symm
        obtain ⟨first, found, later, u', v, eq', here, left, right⟩ := ih here
        refine ⟨piece :: first, found, later, u', v, by rw [eq', List.cons_append], here, ?_, right⟩
        rw [List.append_nil] at cut
        rw [← cut, List.flatMap_cons, List.append_assoc, ← left, List.append_nil]
      | cons d v =>
        obtain ⟨rfl, tail⟩ := List.cons.inj rest
        exact ⟨[], piece, pieces, before, v, rfl, cut, rfl, tail⟩

/-! ### Splitting -/

/-- The characters between the matches. -/
def parts : List (Piece α) → List (List α)
  | [] => [[]]
  | .plain c :: later => (parts later).modifyHead (c :: ·)
  | .hit _ :: later => [] :: parts later

/-- `split`, for a pattern without groups. -/
def split (pattern : Regex α) (input : List α) : List (List α) := parts (pattern.scan 0 input)

theorem parts_ne_nil (pieces : List (Piece α)) : parts pieces ≠ [] := by
  induction pieces with
  | nil => exact List.cons_ne_nil _ _
  | cons piece pieces ih =>
    cases piece with
    | hit m => exact List.cons_ne_nil _ _
    | plain c =>
      intro empty
      exact ih (List.modifyHead_eq_nil_iff.mp empty)

theorem modifyHead_nil_append (texts : List (List α)) :
    texts.modifyHead ([] ++ ·) = texts := by
  cases texts <;> rfl

theorem parts_plain (before : List α) (c : α) (later : List (Piece α)) :
    (parts (.plain c :: later)).modifyHead (before ++ ·) =
      (parts later).modifyHead ((before ++ [c]) ++ ·) := by
  show ((parts later).modifyHead (c :: ·)).modifyHead (before ++ ·) = _
  obtain ⟨first, rest, eq⟩ := List.exists_cons_of_ne_nil (parts_ne_nil later)
  rw [eq]
  simp

/-- **What adds up where a match cuts the input adds up over the parts.** -/
theorem flatMap_parts {β : Type} {f : List α → List β} {pieces : List (Piece α)}
    (cuts : ∀ m, .hit m ∈ pieces → ∀ before after, f (before ++ (m.text ++ after)) =
      f before ++ f after) (before : List α) :
    ((parts pieces).modifyHead (before ++ ·)).flatMap f =
      f (before ++ pieces.flatMap Piece.source) := by
  induction pieces generalizing before with
  | nil =>
    show f (before ++ []) ++ [] = f (before ++ [])
    rw [List.append_nil]
  | cons piece pieces ih =>
    have later := ih fun m member => cuts m (List.mem_cons_of_mem _ member)
    cases piece with
    | plain c =>
      rw [parts_plain, later, List.append_assoc]
      rfl
    | hit m =>
      have here := later []
      rw [List.nil_append, modifyHead_nil_append] at here
      show f (before ++ []) ++ (parts pieces).flatMap f = f (before ++ (m.text ++ _))
      rw [here, cuts m List.mem_cons_self, List.append_nil]
      rfl

/-- What holds of both sides wherever a match cuts the input holds of every part. -/
theorem forall_parts {good : List α → Prop} {pieces : List (Piece α)}
    (cuts : ∀ m, .hit m ∈ pieces → ∀ before after, good (before ++ (m.text ++ after)) →
      good before ∧ good after) (before : List α)
    (whole : good (before ++ pieces.flatMap Piece.source)) :
    ∀ part ∈ (parts pieces).modifyHead (before ++ ·), good part := by
  induction pieces generalizing before with
  | nil =>
    intro part member
    obtain rfl := List.mem_singleton.mp member
    exact whole
  | cons piece pieces ih =>
    have later := ih fun m member => cuts m (List.mem_cons_of_mem _ member)
    cases piece with
    | plain c =>
      rw [parts_plain]
      refine later (before ++ [c]) ?_
      rw [List.append_assoc]
      exact whole
    | hit m =>
      obtain ⟨left, right⟩ := cuts m List.mem_cons_self before _ whole
      intro part member
      rcases List.mem_cons.mp member with rfl | behind
      · show good (before ++ [])
        rw [List.append_nil]
        exact left
      · refine later [] right part ?_
        rw [modifyHead_nil_append]
        exact behind

/-- Every match of a scan was found at the head of what was left there. -/
theorem first_of_mem_scan {pattern : Regex α} {input : List α} {m : Match α}
    (member : .hit m ∈ pattern.scan 0 input) :
    ∃ here rest, pattern.first here = .some (m, rest) := by
  obtain ⟨before, after, split⟩ := List.append_of_mem member
  obtain ⟨here, -, eq⟩ := scan_suffix split
  obtain ⟨rest, found, -⟩ := scan_eq_hit eq.symm
  exact ⟨here, rest, found⟩

theorem flatMap_of_split {β : Type} {f : List α → List β} {pattern : Regex α}
    (cuts : ∀ here m rest, pattern.first here = .some (m, rest) → ∀ before after,
      f (before ++ (m.text ++ after)) = f before ++ f after) (input : List α) :
    (pattern.split input).flatMap f = f input := by
  have every := @flatMap_parts _ _ f (pattern.scan 0 input) (fun m member => by
    obtain ⟨here, rest, found⟩ := first_of_mem_scan member
    exact cuts here m rest found) []
  rw [modifyHead_nil_append, scan_source] at every
  exact every

theorem forall_of_split {good : List α → Prop} {pattern : Regex α}
    (cuts : ∀ here m rest, pattern.first here = .some (m, rest) → ∀ before after,
      good (before ++ (m.text ++ after)) → good before ∧ good after) {input : List α}
    (whole : good input) : ∀ part ∈ pattern.split input, good part := by
  have every := @forall_parts _ good (pattern.scan 0 input) (fun m member => by
    obtain ⟨here, rest, found⟩ := first_of_mem_scan member
    exact cuts here m rest found) []
  rw [modifyHead_nil_append, scan_source] at every
  exact every whole

/-! ### Looking behind -/

/-- Every character beside the one before it: over these characters a pattern can look behind. -/
def placed (before : Option α) : List α → List (Option α × α)
  | [] => []
  | c :: cs => (before, c) :: placed (.some c) cs

theorem map_placed (before : Option α) (text : List α) : (placed before text).map Prod.snd = text := by
  induction text generalizing before with
  | nil => rfl
  | cons c cs ih => exact congrArg (c :: ·) (ih _)

theorem placed_append (before : Option α) (first second : List α) :
    placed before (first ++ second) =
      placed before first ++ placed (first.getLast?.or before) second := by
  induction first generalizing before with
  | nil => rfl
  | cons c first ih =>
    rw [List.cons_append, placed, ih, placed, List.cons_append, List.getLast?_cons]
    cases first.getLast? <;> rfl

/-- Before every character but the first stands one of the text. -/
theorem mem_tail_placed {before : Option α} {text : List α} {p q : Option α × α}
    {first later : List (Option α × α)} (cut : placed before text = q :: first ++ p :: later) :
    ∃ c ∈ text, p.1 = .some c := by
  induction text generalizing before q first with
  | nil => cases cut
  | cons c text ih =>
    obtain ⟨-, cut⟩ := List.cons.inj cut
    cases first with
    | nil =>
      cases text with
      | nil => cases cut
      | cons d text =>
        obtain ⟨rfl, -⟩ := List.cons.inj cut
        exact ⟨c, List.mem_cons_self, rfl⟩
    | cons r first =>
      obtain ⟨d, among, same⟩ := ih cut
      exact ⟨d, List.mem_cons_of_mem _ among, same⟩

/-- Every place between two characters, with the one before it and the one behind it; the last place
is the end. -/
def places (before : Option α) : List α → List (Option α × Option α)
  | [] => [(before, none)]
  | c :: cs => (before, .some c) :: places (.some c) cs

theorem length_places (before : Option α) (text : List α) :
    (places before text).length = text.length + 1 := by
  induction text generalizing before with
  | nil => rfl
  | cons c cs ih => exact congrArg (· + 1) (ih _)

end Regex

end Freshet.Lib
