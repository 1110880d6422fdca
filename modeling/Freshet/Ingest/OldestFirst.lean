/-
**Updates come out oldest first, but not where two have one stamp.**

An entry lists its updates newest first, and `parse_atom` sorts all records by their stamps. The sort
is stable, so two updates of one stamp keep the order of the entry: the newer one comes first
(`oldestFirst_iff`). `poll_once` sorts again, which changes nothing.
-/

import Freshet.Ingest.Delivery
import Freshet.Ingest.Identity

namespace Freshet.Ingest

open Freshet.Lib Freshet.Kafka

/-! ### The records of one entry in a sorted list -/

/-- A record, with its place in the entry in question if it is of that entry. -/
abbrev Placed := Option Nat × IncidentUpdate

def Placed.createdAt (placed : Placed) : Int := placed.2.createdAt

/-- The records of the entry, in its order. -/
def places (records : List IncidentUpdate) : List Placed :=
  records.zipIdx.map fun record => (some record.2, record.1)

/-- Records of other entries. -/
def elsewhere (records : List IncidentUpdate) : List Placed := records.map fun u => (none, u)

/-- **The records of an entry stand in `out` in the reverse of their order in the entry.** Before they
were sorted, they stood between those in `front` and those in `back`. -/
def Reversed (front mine back out : List IncidentUpdate) : Prop :=
  ∃ placed, StableSort Placed.createdAt (elsewhere front ++ (places mine ++ elsewhere back)) placed ∧
    placed.map Prod.snd = out ∧
    placed.filter (fun record => record.1.isSome) = (places mine).reverse

theorem map_places (records : List IncidentUpdate) : (places records).map Prod.snd = records := by
  unfold places
  rw [List.map_map]
  exact List.zipIdx_map_fst 0 records

theorem map_elsewhere (records : List IncidentUpdate) :
    (elsewhere records).map Prod.snd = records := by
  unfold elsewhere
  rw [List.map_map]
  exact List.map_id _

theorem nodup_places (records : List IncidentUpdate) : (places records).Nodup := by
  have numbers : (records.zipIdx.map Prod.snd).Nodup := by
    rw [List.zipIdx_map_snd]
    exact List.nodup_range'
  have indices : ((places records).map Prod.fst).Nodup := by
    have eq : (places records).map Prod.fst = (records.zipIdx.map Prod.snd).map some := by
      unfold places
      rw [List.map_map, List.map_map]
      rfl
    rw [eq]
    exact numbers.map (Option.some_injective _)
  exact indices.of_map _

theorem filter_places (front mine back : List IncidentUpdate) :
    (elsewhere front ++ (places mine ++ elsewhere back)).filter (fun record => record.1.isSome) =
      places mine := by
  have others : ∀ records, (elsewhere records).filter (fun record => record.1.isSome) = [] := by
    intro records
    rw [List.filter_eq_nil_iff]
    intro record member
    obtain ⟨u, -, rfl⟩ := List.mem_map.mp member
    exact Bool.false_ne_true
  have kept : (places mine).filter (fun record => record.1.isSome) = places mine := by
    rw [List.filter_eq_self]
    intro record member
    obtain ⟨entry, -, rfl⟩ := List.mem_map.mp member
    rfl
  rw [List.filter_append, List.filter_append, others, others, kept, List.nil_append, List.append_nil]

theorem pairwise_places {mine : List IncidentUpdate} {R : Int → Int → Prop} :
    ((places mine).Pairwise fun a b => R b.createdAt a.createdAt) ↔
      mine.Pairwise fun above below => R below.createdAt above.createdAt := by
  have same := @List.pairwise_map _ _ Prod.snd
    (fun above below : IncidentUpdate => R below.createdAt above.createdAt) (places mine)
  rw [map_places] at same
  exact same.symm

/-- **They do exactly when no two of them have the same stamp**, where the entry lists them newest
first. -/
theorem reversed_iff {front mine back out : List IncidentUpdate}
    (sorts : StableSort IncidentUpdate.createdAt (front ++ (mine ++ back)) out)
    (newestFirst : mine.Pairwise fun above below => below.createdAt ≤ above.createdAt) :
    Reversed front mine back out ↔
      mine.Pairwise fun above below => below.createdAt < above.createdAt := by
  have turned : ∀ placed, StableSort Placed.createdAt
      (elsewhere front ++ (places mine ++ elsewhere back)) placed →
      (placed.filter (fun record => record.1.isSome) = (places mine).reverse ↔
        mine.Pairwise fun above below => below.createdAt < above.createdAt) := by
    intro placed sorts'
    have part := sorts'.filter fun record => record.1.isSome
    rw [filter_places] at part
    rw [part.eq_reverse_iff (nodup_places mine)
      ((@pairwise_places mine fun below above => below ≤ above).mpr newestFirst)]
    exact @pairwise_places mine fun below above => below < above
  constructor
  · rintro ⟨placed, sorts', -, reversed⟩
    exact (turned placed sorts').mp reversed
  · intro strict
    have sorts' := @StableSort.insertionSort _ _ _ Placed.createdAt
      (elsewhere front ++ (places mine ++ elsewhere back))
    refine ⟨_, sorts', ?_, (turned _ sorts').mpr strict⟩
    have mapped := @StableSort.map _ _ _ _ IncidentUpdate.createdAt Prod.snd _ _ sorts'
    rw [List.map_append, List.map_append, map_elsewhere, map_places, map_elsewhere] at mapped
    exact mapped.unique sorts

/-! ### One sweep of the poller -/

/-- **What the pages of a sweep found**: nothing, or what the adapter makes of some body. -/
def Found (env : Env) : List Page → List (List IncidentUpdate) → Prop :=
  List.Forall₂ fun pg updates => updates = [] ∨ ∃ body, env.parseAtom pg.provider body = .ok updates

/-- A thread's text alone, whatever its calls answer. -/
def anyAnswer : Machine pageSig Exn Unit where
  safe _ _ := True
  step _ _ _ _ := True

section Sweep

variable {env : Env}

theorem wp_anyAnswer {α : Type} (program : Fetching α) :
    program.wp anyAnswer (Prog.Ends (fun _ => True) fun _ _ => True) () := by
  induction program with
  | ret value => trivial
  | raise exn => trivial
  | call op next ih => exact ⟨trivial, fun answer _ _ => ih answer⟩

/-- What a page's thread returns. -/
def Yields (env : Env) (pg : Page) (updates : List IncidentUpdate) (_ : Unit) : Prop :=
  updates = [] ∨ ∃ body, env.parseAtom pg.provider body = .ok updates

theorem accept_yields (pg : Page) (response : Response) :
    (accept env pg response).wp anyAnswer (Prog.Ends (fun _ => True) (Yields env pg)) () := by
  unfold accept
  cases truthy response.body with
  | none => exact Or.inl rfl
  | some body =>
    dsimp only
    split
    · exact Or.inl rfl
    · cases parsed : env.parseAtom pg.provider body with
      | error exn => exact Or.inl rfl
      | ok found =>
        cases found with
        | nil => exact Or.inl rfl
        | cons first rest =>
          exact Prog.wp_seq _ (wp_anyAnswer _) fun _ _ _ => Or.inr ⟨body, parsed⟩

/-- **A page's thread returns nothing, or what the adapter makes of some body.** -/
theorem one_yields (pg : Page) :
    (one env pg).wp anyAnswer (Prog.Ends (fun _ => True) (Yields env pg)) () := by
  refine Prog.wp_seq _ (wp_anyAnswer _) fun skipped _ _ => ?_
  cases skipped with
  | true => exact Or.inl rfl
  | false =>
    refine Prog.wp_seq _ (wp_anyAnswer _) fun outcome _ _ => ?_
    cases outcome with
    | error exn => exact Prog.wp_seq _ (wp_anyAnswer _) fun _ _ _ => Or.inl rfl
    | ok response =>
      exact Prog.wp_seq _ (wp_anyAnswer _) fun _ _ _ => accept_yields pg response

/-- **A sweep returns the stable sort of what its pages found.** -/
theorem pollOnce_found {S : Type} {m : Machine pageSig.tagged Exn S} {pages : List Page}
    {schedule : List Nat} {s after : S} {result : List IncidentUpdate}
    (run : Prog.Steps m (pollOnce env pages schedule) s (.ret result) after) :
    ∃ found, Found env pages found ∧
      StableSort IncidentUpdate.createdAt found.flatten result := by
  let free : Machine pageSig.tagged Exn S := { m with safe := fun _ _ => True }
  have permitted : Prog.Steps free (pollOnce env pages schedule) s (.ret result) after :=
    Prog.Steps.mono (m := m) (fun _ _ _ _ step => step) run
  have follows : Prog.Follows anyAnswer free (fun _ _ => True) :=
    fun _ _ _ _ _ _ => ⟨trivial, fun _ _ _ => ⟨(), trivial, trivial⟩⟩
  have threads : ∀ (i : Nat) (thread : Fetching (List IncidentUpdate)),
      (pages.map (one env))[i]? = some thread → thread.wp anyAnswer (fun outcome _ =>
        ∀ pg, pages[i]? = some pg → Prog.Ends (fun _ => True) (Yields env pg) outcome ()) () := by
    intro i thread found
    rw [List.getElem?_map] at found
    obtain ⟨pg, here, rfl⟩ := Option.map_eq_some_iff.mp found
    refine Prog.wp_mono ?_ (one_yields pg)
    intro outcome phase yields pg' there
    rw [here] at there
    obtain rfl := Option.some_injective _ there
    exact yields
  have joined := @Prog.wp_interleave pageSig Exn _ S Unit anyAnswer free (fun _ _ => True) _ follows schedule
    _ s (fun _ => ()) trivial threads
  have spec : (pollOnce env pages schedule).wp free (Prog.Ends (fun _ => True) fun result _ =>
      ∃ found, Found env pages found ∧
        StableSort IncidentUpdate.createdAt found.flatten result) s := by
    refine Prog.wp_bind.mpr (Prog.wp_mono ?_ joined)
    rintro _ _ ⟨outcomes, _, rfl, -, count, posts, -⟩
    refine Prog.wp_bind.mpr (Prog.wp_collect ?_ fun _ _ => trivial)
    rintro found rfl
    refine ⟨found, ?_, StableSort.mergeSort found.flatten⟩
    rw [List.length_map, List.length_map] at count
    refine List.forall₂_iff_get.mpr ⟨count.symm, fun i within within' => ?_⟩
    refine posts i (.ok (found.get ⟨i, within'⟩)) ?_ (pages.get ⟨i, within⟩) ?_
    · simp [within']
    · simp [within]
  exact Prog.wp_steps permitted spec

end Sweep

/-! ### The claim -/

/-- The stamp a block gets: its own, or the revision's where it cannot be resolved. -/
def resolved (revised : DateTime) (found : Regex.Match Char) : Int :=
  match parseWhen (timeOf found) revised with
  | .ok (some stamp) => stamp
  | _ => revised.instant

namespace Adapter

variable {lib : Adapter} {provider : String}

theorem RecordOf.createdAt {heading : Heading} {found : Regex.Match Char} {u : IncidentUpdate}
    (record : lib.RecordOf heading found u) : u.createdAt = resolved heading.revised found := by
  obtain ⟨stamp, ordinal, dated, rfl⟩ := record
  unfold resolved
  rw [dated]
  cases stamp <;> rfl

/-- The records are ordered by their stamps as the blocks are. -/
theorem pairwise_records {heading : Heading} {blocks : List (Regex.Match Char)}
    {updates : List IncidentUpdate} {R : Int → Int → Prop}
    (records : List.Forall₂ (lib.RecordOf heading) blocks updates) :
    (updates.Pairwise fun above below => R below.createdAt above.createdAt) ↔
      blocks.Pairwise fun above below =>
        R (resolved heading.revised below) (resolved heading.revised above) := by
  have stamps : updates.map IncidentUpdate.createdAt = blocks.map (resolved heading.revised) := by
    induction records with
    | nil => rfl
    | cons record _ ih => rw [List.map_cons, List.map_cons, record.createdAt, ih]
  have one := @List.pairwise_map _ _ IncidentUpdate.createdAt (fun above below => R below above)
    updates
  have two := @List.pairwise_map _ _ (resolved heading.revised) (fun above below => R below above)
    blocks
  rw [← one, stamps, two]

/-- **The updates of an entry come out oldest first**, of `parse_atom` and of every sweep of
`poll_once` that finds what `parse_atom` returned. -/
def OldestFirst (lib : Adapter) (provider : String) (front : List Entry) (entry : Entry)
    (back : List Entry) (out : List IncidentUpdate) : Prop :=
  ∃ fronts mine backs, lib.entriesUpdates provider front = .ok fronts ∧
    lib.entryUpdates provider entry = .ok mine ∧ lib.entriesUpdates provider back = .ok backs ∧
    Reversed fronts mine backs out ∧
    ∀ (S : Type) (m : Machine pageSig.tagged Exn S) env pages schedule s after result,
      Prog.Steps m (pollOnce env pages schedule) s (.ret result) after →
      ∃ found, Found env pages found ∧ StableSort IncidentUpdate.createdAt found.flatten result ∧
        ∀ before later, found = before ++ out :: later →
          Reversed (before.flatten ++ fronts) mine (backs ++ later.flatten) result

/-- **An entry's updates come out oldest first exactly when no two of its blocks have one stamp.** -/
theorem oldestFirst_iff {feed : List Char} {front back : List Entry} {entry : Entry}
    {incident : Regex.Match Char} {revised : DateTime} {markup : List Char}
    {out : List IncidentUpdate} (declares : declaresDoctype feed = false)
    (tree : lib.fromString feed = some (front ++ entry :: back))
    (named : lib.incidentId.search (text entry.id) = some incident)
    (dated : lib.parseIso (stampText entry) = .ok (some revised))
    (escaped : lib.unescaped (text entry.content) = .ok markup)
    (full : update.findAll markup ≠ [])
    (newestFirst : (update.findAll markup).Pairwise fun above below =>
      resolved revised below ≤ resolved revised above)
    (parsed : lib.parseAtom provider feed = .ok out) :
    lib.OldestFirst provider front entry back out ↔
      (update.findAll markup).Pairwise fun above below =>
        resolved revised below ≠ resolved revised above := by
  rw [parseAtom_eq declares tree, map_eq_ok] at parsed
  obtain ⟨updates, done, rfl⟩ := parsed
  obtain ⟨fronts, mine, backs, before, here, behind, rfl⟩ := entriesUpdates_split done
  have sorts := sorted_spec (fronts ++ (mine ++ backs))
  have records : List.Forall₂ (lib.RecordOf ⟨provider, incidentOf incident, text entry.title,
      revised⟩) (update.findAll markup) mine := by
    rw [entryUpdates_blocks named dated escaped full] at here
    exact blockUpdates_records here
  have descends := (@pairwise_records lib _ _ _ (fun below above => below ≤ above) records).mpr
    newestFirst
  have strictly : (mine.Pairwise fun above below => below.createdAt < above.createdAt) ↔
      (update.findAll markup).Pairwise fun above below =>
        resolved revised below ≠ resolved revised above := by
    rw [@pairwise_records lib _ _ _ (fun below above => below < above) records]
    constructor
    · exact List.Pairwise.imp ne_of_lt
    · intro apart
      exact (newestFirst.and apart).imp fun both => lt_of_le_of_ne both.1 both.2
  rw [← strictly]
  constructor
  · rintro ⟨fronts', mine', backs', before', here', behind', reversed, -⟩
    rw [before] at before'
    rw [here] at here'
    rw [behind] at behind'
    obtain rfl := Except.ok.inj before'
    obtain rfl := Except.ok.inj here'
    obtain rfl := Except.ok.inj behind'
    exact (reversed_iff sorts descends).mp reversed
  · intro strict
    refine ⟨fronts, mine, backs, before, here, behind, (reversed_iff sorts descends).mpr strict, ?_⟩
    intro S m env pages schedule s after result run
    obtain ⟨found, each, whole⟩ := pollOnce_found run
    refine ⟨found, each, whole, ?_⟩
    rintro earlier later rfl
    rw [List.flatten_append, List.flatten_cons, StableSort.sort_part sorts] at whole
    refine (reversed_iff ?_ descends).mpr strict
    simp only [List.append_assoc] at whole ⊢
    exact whole

end Adapter

/-! ### Two updates of one minute -/

theorem minute_read :
    minuteAdapter.incidentId.search (text (minuteEntry [fixIsOut, loginsFail]).id) =
      some ⟨"Incident/7".toList, [(1, "7".toList)]⟩ ∧
    minuteAdapter.parseIso (Adapter.stampText (minuteEntry [fixIsOut, loginsFail])) =
      .ok (some noon) ∧
    minuteAdapter.unescaped (text (minuteEntry [fixIsOut, loginsFail]).content) =
      .ok ("<p>".toList ++ Block.render [fixIsOut, loginsFail]) ∧
    update.findAll ("<p>".toList ++ Block.render [fixIsOut, loginsFail]) =
      [fixIsOut, loginsFail].map Block.found :=
  ⟨by decide +kernel, by decide +kernel, by decide +kernel, Block.findAll_render (by decide +kernel) _⟩

theorem oldestFirst_iff_minute :
    minuteAdapter.OldestFirst "openai" [] (minuteEntry [fixIsOut, loginsFail]) []
        [newerUpdate, movedUpdate] ↔
      (update.findAll ("<p>".toList ++ Block.render [fixIsOut, loginsFail])).Pairwise
        fun above below => resolved noon below ≠ resolved noon above := by
  obtain ⟨named, dated, escaped, blocks⟩ := minute_read
  refine Adapter.oldestFirst_iff minute_declares.2 minute_trees.2 named dated escaped ?_ ?_
    minute_parsed.2
  · rw [blocks]
    exact List.cons_ne_nil _ _
  · rw [blocks]
    have tie : resolved noon loginsFail.found = resolved noon fixIsOut.found := rfl
    exact .cons (by simp [tie]) (List.pairwise_singleton _ _)

/-- **The newer of two updates of one minute comes out first.** -/
theorem same_minute_newest_first :
    minuteAdapter.parseAtom "openai" (minuteFeed [fixIsOut, loginsFail]) =
      .ok [newerUpdate, movedUpdate] ∧
    resolved noon fixIsOut.found = resolved noon loginsFail.found ∧
    ¬ minuteAdapter.OldestFirst "openai" [] (minuteEntry [fixIsOut, loginsFail]) []
      [newerUpdate, movedUpdate] := by
  refine ⟨minute_parsed.2, rfl, ?_⟩
  rintro ⟨fronts, mine, backs, before, here, behind, reversed, -⟩
  rw [minute_all] at here
  obtain rfl := Except.ok.inj before
  obtain rfl := Except.ok.inj here
  obtain rfl := Except.ok.inj behind
  have sorts := Adapter.sorted_spec ([] ++ ([newerUpdate, movedUpdate] ++ []))
  have tie : movedUpdate.createdAt = newerUpdate.createdAt := rfl
  have strict := (reversed_iff sorts (by simp [tie])).mp reversed
  have less := List.rel_of_pairwise_cons strict List.mem_cons_self
  exact absurd tie (ne_of_lt less)

end Freshet.Ingest
