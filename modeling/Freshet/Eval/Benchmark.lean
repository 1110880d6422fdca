/-
**The freshness report.**

The rows that are scored are chunks, each with its event's receipt, and the database returns them in any
order. `distinct_updates` keeps one row of each event. So where all rows of an event say the same, the
report depends neither on the order nor on how many chunks an event has (`report_settled`), and its
figures fit together: a percentile is a nearest rank, the batch arm's figures lie around its mean, and
that mean is half an interval, whatever was posted when.
-/

import Freshet.Eval.Freshness
import Freshet.Lib.Dict
import Freshet.Lib.KeepFirst
import Freshet.Lib.Summary

namespace Freshet.Eval

open Freshet.Lib

/-! ### The report -/

/-- A row that the query returns: `(posted, queryable, event_id)`. -/
structure UpdateRow where
  posted : ℚ
  queryable : ℚ
  eventId : String
deriving DecidableEq

/-- `percentile`; it raises where there are no values. -/
def percentile (values : List ℚ) (p : ℚ) : Option ℚ :=
  if values = [] then none
  else
    let vals := values.mergeSort fun a b => decide (a ≤ b)
    let k := max 0 (min ((vals.length : ℤ) - 1) (⌈p / 100 * vals.length⌉ - 1))
    vals[k.toNat]?

/-- `streaming_staleness`. -/
def streamingStaleness (postedAt queryableAt : ℚ) : ℚ := queryableAt - postedAt

/-- `distinct_updates`. -/
def distinctUpdates (rows : List UpdateRow) : List (ℚ × ℚ) :=
  Dict.values (rows.foldl (fun seen row => seen.setDefault row.eventId (row.posted, row.queryable)) [])

/-- `round(x, 2)`. -/
def round2 (x : ℚ) : ℚ := roundEven (x * 100) / 100

inductive Value
  | number (q : ℚ)
  | text (s : String)
deriving DecidableEq

abbrev Report := Dict String Value

/-- `BATCH_INTERVAL_S`. -/
def batchIntervalS : ℚ := 3600

/-- `ALIGNMENT_COUNT`. -/
def alignmentCount : ℕ := 3600

/-- `ratio_of`. -/
def ratioOf (sMean b : ℚ) : ℚ := if sMean ≠ 0 then round2 (b / sMean) else 0

/-- **`summarize`**; it raises where there is a staleness but no posting time. -/
def summarize (streaming postedAts : List ℚ) (intervalS : ℚ) : Option Report :=
  if streaming.length = 0 then
    some [("streaming_mean_s", .number 0), ("batch_mean_s", .number 0), ("ratio", .number 0),
      ("n", .number 0)]
  else do
    let sMean := mean streaming
    let sweep := batchAlignmentSweep postedAts intervalS alignmentCount
    let bMean := mean sweep
    let bMin ← sweep.min?
    let bMax ← sweep.max?
    let bMedian ← percentile sweep 50
    let bTopOfHour ← sweep.head?
    let p50 ← percentile streaming 50
    let p95 ← percentile streaming 95
    return [
      ("streaming_mean_s", .number (round2 sMean)),
      ("streaming_p50_s", .number (round2 p50)),
      ("streaming_p95_s", .number (round2 p95)),
      ("batch_mean_s", .number (round2 bMean)),
      ("batch_mean_s_min", .number (round2 bMin)),
      ("batch_mean_s_median", .number (round2 bMedian)),
      ("batch_mean_s_max", .number (round2 bMax)),
      ("batch_mean_s_top_of_hour", .number (round2 bTopOfHour)),
      ("batch_interval_s", .number intervalS),
      ("ratio", .number (ratioOf sMean bMean)),
      ("ratio_min", .number (ratioOf sMean bMin)),
      ("ratio_median", .number (ratioOf sMean bMedian)),
      ("ratio_max", .number (ratioOf sMean bMax)),
      ("ratio_top_of_hour", .number (ratioOf sMean bTopOfHour)),
      ("n", .number streaming.length)]

/-- `_EMPTY_RUN_KEYS`. -/
def emptyRunKeys : List String :=
  ["streaming_mean_s", "streaming_p50_s", "streaming_p95_s", "batch_mean_s", "batch_mean_s_min",
    "batch_mean_s_median", "batch_mean_s_max", "batch_mean_s_top_of_hour", "ratio", "ratio_min",
    "ratio_median", "ratio_max", "ratio_top_of_hour", "n_rows"]

/-- `report.get("n", 0) > 0`. -/
def scoredSome (report : Report) : Bool :=
  match report.get "n" with
  | some (.number n) => decide (0 < n)
  | _ => false

/-- `finalize_report`. -/
def finalizeReport (report : Report) : Report :=
  if scoredSome report then report
  else
    let report := report.set "status" (.text "not yet measured")
    let report := report.set "explanation" (.text ("No eligible first-index completion receipts in " ++
      "the selected window. Run the poller, stream and embedder together for several hours, then " ++
      "re-run."))
    emptyRunKeys.foldl (fun report key => report.pop key) report

/-- **What `main` reports of the rows**, without its texts and the index snapshot. -/
def scoreRows (rows : List UpdateRow) : Option Report := do
  let updates := distinctUpdates rows
  let streaming := updates.map fun update => streamingStaleness update.1 update.2
  let postedAts := updates.map Prod.fst
  let report ← summarize streaming postedAts batchIntervalS
  let report := report.set "n_rows" (.number rows.length)
  return finalizeReport (report.set "measurement_version" (.number 2))

/-! ### Percentiles -/

/-- **A nearest rank**: a value that so much of the list is at or below, and less than that below. -/
structure NearestRank (values : List ℚ) (p v : ℚ) : Prop where
  mem : v ∈ values
  reaches : p / 100 * values.length ≤ values.countP fun a => decide (a ≤ v)
  first : (values.countP fun a => decide (a < v) : ℕ) < p / 100 * values.length

/-- The place in the sorted list that is read. -/
theorem exists_place {values : List ℚ} (some' : values ≠ []) {p : ℚ} (positive : 0 < p)
    (most : p ≤ 100) :
    ∃ k, k < values.length ∧ (⌈p / 100 * values.length⌉ : ℤ) = k + 1 ∧
      percentile values p = (values.mergeSort fun a b => decide (a ≤ b))[k]? := by
  have length : (values.mergeSort fun a b => decide (a ≤ b)).length = values.length :=
    List.length_mergeSort values
  have count : 0 < values.length := List.length_pos_iff.mpr some'
  have count' : (0 : ℚ) < values.length := by exact_mod_cast count
  have low : 0 < ⌈p / 100 * values.length⌉ := Int.ceil_pos.mpr (by positivity)
  have high : ⌈p / 100 * values.length⌉ ≤ values.length := by
    refine Int.ceil_le.mpr ?_
    push_cast
    nlinarith
  refine ⟨(⌈p / 100 * values.length⌉ - 1).toNat, by omega, by omega, ?_⟩
  unfold percentile
  rw [if_neg some']
  dsimp only
  rw [length, min_eq_right (by omega), max_eq_right (by omega)]

/-- **`percentile` is the nearest rank.** -/
theorem percentile_nearest {values : List ℚ} (some' : values ≠ []) {p : ℚ} (positive : 0 < p)
    (most : p ≤ 100) : ∃ v, percentile values p = some v ∧ NearestRank values p v := by
  obtain ⟨k, inside, place, found⟩ := exists_place some' positive most
  have perm := List.mergeSort_perm values fun a b => decide (a ≤ b)
  obtain ⟨v, here⟩ : ∃ v, (values.mergeSort fun a b => decide (a ≤ b))[k]? = some v :=
    ⟨_, List.getElem?_eq_getElem (perm.length_eq.symm ▸ inside)⟩
  obtain ⟨reaches, first⟩ := rank_of_sorted (pairwise_mergeSort_le values) here
  rw [perm.countP_eq] at reaches first
  have ceil := Int.le_ceil (p / 100 * values.length)
  have ceil' := Int.ceil_lt_add_one (p / 100 * values.length)
  rw [place] at ceil ceil'
  push_cast at ceil ceil'
  refine ⟨v, found.trans here, perm.mem_iff.mp (List.mem_of_getElem? here), ceil.trans ?_, ?_⟩
  · exact_mod_cast reaches
  · have below : ((values.countP fun a => decide (a < v) : ℕ) : ℚ) ≤ k := by exact_mod_cast first
    linarith

/-- A higher percentile is no lower. -/
theorem percentile_mono {values : List ℚ} (some' : values ≠ []) {p q v w : ℚ} (positive : 0 < p)
    (le : p ≤ q) (most : q ≤ 100) (one : percentile values p = some v)
    (two : percentile values q = some w) : v ≤ w := by
  obtain ⟨j, -, place, found⟩ := exists_place some' positive (le.trans most)
  obtain ⟨k, -, place', found'⟩ := exists_place some' (positive.trans_le le) most
  have places : (⌈p / 100 * values.length⌉ : ℤ) ≤ ⌈q / 100 * values.length⌉ := by
    refine Int.ceil_le_ceil (mul_le_mul_of_nonneg_right (by linarith) (Nat.cast_nonneg _))
  exact getElem?_mono_of_sorted (pairwise_mergeSort_le values) (by omega) (found.symm.trans one)
    (found'.symm.trans two)

theorem percentile_perm {values values' : List ℚ} (perm : values.Perm values') (p : ℚ) :
    percentile values p = percentile values' p := by
  have empty : values = [] ↔ values' = [] := by
    rw [← List.length_eq_zero_iff, perm.length_eq, List.length_eq_zero_iff]
  unfold percentile
  rw [mergeSort_eq_of_perm perm]
  simp only [empty]

/-! ### The figures -/

theorem mean_perm {values values' : List ℚ} (perm : values.Perm values') : mean values = mean values' := by
  unfold mean
  rw [perm.sum_eq, perm.length_eq]

theorem mean_within {values : List ℚ} (some' : values ≠ []) {low high : ℚ}
    (within : ∀ a ∈ values, low ≤ a ∧ a ≤ high) : low ≤ mean values ∧ mean values ≤ high := by
  have positive : 0 < (values.length : ℚ) := by
    rw [Nat.cast_pos, List.length_pos_iff]
    exact some'
  obtain ⟨lower, upper⟩ := between_of_sum within
  rw [sum_eq_mul_mean some'] at lower upper
  exact ⟨le_of_mul_le_mul_left lower positive, le_of_mul_le_mul_left upper positive⟩

theorem round2_mono {x y : ℚ} (le : x ≤ y) : round2 x ≤ round2 y := by
  have rounded : ((roundEven (x * 100) : ℤ) : ℚ) ≤ (roundEven (y * 100) : ℤ) := by
    exact_mod_cast roundEven_mono (show x * 100 ≤ y * 100 by linarith)
  unfold round2
  linarith

theorem ratioOf_mono {sMean x y : ℚ} (positive : 0 < sMean) (le : x ≤ y) :
    ratioOf sMean x ≤ ratioOf sMean y := by
  unfold ratioOf
  rw [if_pos positive.ne', if_pos positive.ne']
  exact round2_mono (div_le_div_of_nonneg_right le positive.le)

theorem sweep_perm {postedAts postedAts' : List ℚ} (perm : postedAts.Perm postedAts') (intervalS : ℚ)
    (n : ℕ) : batchAlignmentSweep postedAts intervalS n = batchAlignmentSweep postedAts' intervalS n := by
  have empty : postedAts = [] ↔ postedAts' = [] := by
    rw [← List.length_eq_zero_iff, perm.length_eq, List.length_eq_zero_iff]
  unfold batchAlignmentSweep
  simp only [empty]
  split_ifs
  · rfl
  · exact List.map_congr_left fun k _ => mean_perm (perm.map _)

/-- **The order of the updates does not matter.** -/
theorem summarize_perm {streaming streaming' postedAts postedAts' : List ℚ}
    (one : streaming.Perm streaming') (two : postedAts.Perm postedAts') (intervalS : ℚ) :
    summarize streaming postedAts intervalS = summarize streaming' postedAts' intervalS := by
  unfold summarize
  rw [one.length_eq, mean_perm one, sweep_perm two, percentile_perm one, percentile_perm one]

/-- What a report says of its updates. -/
structure Figures where
  sMean : ℚ
  p50 : ℚ
  p95 : ℚ
  bMean : ℚ
  bMin : ℚ
  bMedian : ℚ
  bMax : ℚ
  bTopOfHour : ℚ
  n : ℕ

/-- The report, as it is written. -/
def Figures.report (f : Figures) (nRows : ℕ) : Report :=
  [("streaming_mean_s", .number (round2 f.sMean)),
    ("streaming_p50_s", .number (round2 f.p50)),
    ("streaming_p95_s", .number (round2 f.p95)),
    ("batch_mean_s", .number (round2 f.bMean)),
    ("batch_mean_s_min", .number (round2 f.bMin)),
    ("batch_mean_s_median", .number (round2 f.bMedian)),
    ("batch_mean_s_max", .number (round2 f.bMax)),
    ("batch_mean_s_top_of_hour", .number (round2 f.bTopOfHour)),
    ("batch_interval_s", .number batchIntervalS),
    ("ratio", .number (ratioOf f.sMean f.bMean)),
    ("ratio_min", .number (ratioOf f.sMean f.bMin)),
    ("ratio_median", .number (ratioOf f.sMean f.bMedian)),
    ("ratio_max", .number (ratioOf f.sMean f.bMax)),
    ("ratio_top_of_hour", .number (ratioOf f.sMean f.bTopOfHour)),
    ("n", .number f.n),
    ("n_rows", .number nRows),
    ("measurement_version", .number 2)]

/-- **The figures are those of the updates, and fit together.** -/
structure Figures.Fit (f : Figures) (streaming : List ℚ) : Prop where
  sMean : f.sMean = mean streaming
  p50 : NearestRank streaming 50 f.p50
  p95 : NearestRank streaming 95 f.p95
  percentiles : round2 f.p50 ≤ round2 f.p95
  batch : round2 f.bMin ≤ round2 f.bMedian ∧ round2 f.bMedian ≤ round2 f.bMax ∧
    round2 f.bMin ≤ round2 f.bMean ∧ round2 f.bMean ≤ round2 f.bMax ∧
    round2 f.bMin ≤ round2 f.bTopOfHour ∧ round2 f.bTopOfHour ≤ round2 f.bMax
  waits : 0 < f.bMin ∧ f.bMax ≤ batchIntervalS
  half : 3599 / 2 < f.bMean ∧ f.bMean ≤ 3601 / 2
  ratios : 0 < f.sMean → ratioOf f.sMean f.bMin ≤ ratioOf f.sMean f.bMedian ∧
    ratioOf f.sMean f.bMedian ≤ ratioOf f.sMean f.bMax

/-- The waits at a place of the boundary. -/
theorem sweep_within {postedAts : List ℚ} (posted : postedAts ≠ []) {intervalS : ℚ}
    (positive : 0 < intervalS) {n : ℕ} {wait : ℚ} (member : wait ∈ batchAlignmentSweep postedAts intervalS n) :
    0 < wait ∧ wait ≤ intervalS := by
  unfold batchAlignmentSweep at member
  rw [if_neg posted] at member
  obtain ⟨k, -, rfl⟩ := List.mem_map.mp member
  have waits := mean_map_sub intervalS 1 (fun p => residue (p - k * (intervalS / n)) intervalS) posted
  simp only [one_mul] at waits
  have some' : (postedAts.map fun p => residue (p - k * (intervalS / n)) intervalS) ≠ [] := by
    simpa using posted
  obtain ⟨low, high⟩ := @mean_bounds _ some' 0 intervalS fun r among => by
    obtain ⟨p, -, rfl⟩ := List.mem_map.mp among
    exact ⟨residue_nonneg positive _, residue_lt positive _⟩
  unfold batchStaleness
  rw [waits]
  constructor <;> linarith

theorem sweep_ne_nil {postedAts : List ℚ} (posted : postedAts ≠ []) (intervalS : ℚ) {n : ℕ}
    (places : 0 < n) : batchAlignmentSweep postedAts intervalS n ≠ [] := by
  unfold batchAlignmentSweep
  rw [if_neg posted]
  exact fun none' => places.ne' (List.range_eq_nil.mp (List.map_eq_nil_iff.mp none'))

/-- The batch arm's mean is half an interval, up to half a step. -/
theorem sweep_half {postedAts : List ℚ} (posted : postedAts ≠ []) :
    3599 / 2 < mean (batchAlignmentSweep postedAts batchIntervalS alignmentCount) ∧
      mean (batchAlignmentSweep postedAts batchIntervalS alignmentCount) ≤ 3601 / 2 := by
  have step : batchIntervalS / (alignmentCount : ℕ) = 1 := by
    unfold batchIntervalS alignmentCount
    norm_num
  have some' : (postedAts.map fun p => residue p 1) ≠ [] := by simpa using posted
  obtain ⟨low, high⟩ := @mean_bounds _ some' 0 1 fun r among => by
    obtain ⟨p, -, rfl⟩ := List.mem_map.mp among
    exact ⟨residue_nonneg one_pos p, residue_lt one_pos p⟩
  have whole := sweep_mean posted (show 0 < batchIntervalS by decide +kernel)
    (show 0 < alignmentCount by decide)
  rw [step] at whole
  rw [whole]
  unfold batchIntervalS
  constructor <;> linarith

/-- **The figures of some updates.** -/
theorem exists_figures {streaming postedAts : List ℚ} (some' : streaming ≠ []) (posted : postedAts ≠ []) :
    ∃ f : Figures, f.Fit streaming ∧ f.n = streaming.length ∧ ∀ nRows : ℕ,
      (summarize streaming postedAts batchIntervalS).map (fun report => finalizeReport
        ((report.set "n_rows" (.number nRows)).set "measurement_version" (.number 2))) =
          some (f.report nRows) := by
  obtain ⟨sweep, same⟩ : ∃ sweep, batchAlignmentSweep postedAts batchIntervalS alignmentCount = sweep :=
    ⟨_, rfl⟩
  have sweeps : sweep ≠ [] := same ▸ sweep_ne_nil posted batchIntervalS (show 0 < alignmentCount by decide)
  have within : ∀ wait ∈ sweep, 0 < wait ∧ wait ≤ batchIntervalS := fun wait member =>
    sweep_within posted (show 0 < batchIntervalS by decide +kernel) (same ▸ member)
  have half := sweep_half posted
  rw [same] at half
  obtain ⟨bMin, least⟩ : ∃ low, sweep.min? = some low :=
    Option.ne_none_iff_exists'.mp fun none' => sweeps (List.min?_eq_none_iff.mp none')
  obtain ⟨bMax, greatest⟩ : ∃ high, sweep.max? = some high :=
    Option.ne_none_iff_exists'.mp fun none' => sweeps (List.max?_eq_none_iff.mp none')
  obtain ⟨bMedian, median, ranked⟩ := percentile_nearest sweeps (show (0 : ℚ) < 50 by norm_num)
    (by norm_num)
  obtain ⟨bTopOfHour, top⟩ : ∃ top, sweep.head? = some top :=
    Option.ne_none_iff_exists'.mp fun none' => sweeps (List.head?_eq_none_iff.mp none')
  obtain ⟨p50, middle, nearest⟩ := percentile_nearest some' (show (0 : ℚ) < 50 by norm_num) (by norm_num)
  obtain ⟨p95, upper, nearest'⟩ := percentile_nearest some' (show (0 : ℚ) < 95 by norm_num) (by norm_num)
  obtain ⟨inside, low⟩ := List.min?_eq_some_iff.mp least
  obtain ⟨inside', high⟩ := List.max?_eq_some_iff.mp greatest
  have means := mean_within sweeps fun wait member => ⟨low wait member, high wait member⟩
  have topInside := List.mem_of_mem_head? top
  refine ⟨⟨mean streaming, p50, p95, mean sweep, bMin, bMedian, bMax, bTopOfHour, streaming.length⟩,
    ⟨rfl, nearest, nearest', ?_, ⟨?_, ?_, ?_, ?_, ?_, ?_⟩, ?_, half, fun positive => ⟨?_, ?_⟩⟩, rfl,
    fun nRows => ?_⟩
  · exact round2_mono (percentile_mono some' (by norm_num) (by norm_num) (by norm_num) middle upper)
  · exact round2_mono (low _ ranked.mem)
  · exact round2_mono (high _ ranked.mem)
  · exact round2_mono means.1
  · exact round2_mono means.2
  · exact round2_mono (low _ topInside)
  · exact round2_mono (high _ topInside)
  · exact ⟨(within _ inside).1, (within _ inside').2⟩
  · exact ratioOf_mono positive (low _ ranked.mem)
  · exact ratioOf_mono positive (high _ ranked.mem)
  have length : streaming.length ≠ 0 := fun zero => some' (List.length_eq_zero_iff.mp zero)
  have scored : (0 : ℚ) < streaming.length := by exact_mod_cast Nat.pos_of_ne_zero length
  unfold summarize
  rw [if_neg length, same]
  dsimp only
  rw [least, greatest, median, top, middle, upper]
  exact congrArg some (if_pos (decide_eq_true scored))

/-! ### The rows -/

/-- One row of each event. -/
theorem distinctUpdates_eq (rows : List UpdateRow) : distinctUpdates rows =
    (keepFirst UpdateRow.eventId [] rows).map fun row => (row.posted, row.queryable) := by
  unfold distinctUpdates
  rw [foldl_setDefault UpdateRow.eventId (fun row => (row.posted, row.queryable)) rows []]
  show List.map Prod.snd _ = _
  rw [List.nil_append, List.map_map]
  rfl

section Agreeing

variable {rows : List UpdateRow} (agree : ∀ a ∈ rows, ∀ b ∈ rows, a.eventId = b.eventId → a = b)

include agree

/-- Where the rows of an event agree, it does not matter which of them is kept. -/
theorem mem_keepFirst_iff {row : UpdateRow} :
    row ∈ keepFirst UpdateRow.eventId [] rows ↔ row ∈ rows := by
  refine ⟨mem_of_mem_keepFirst UpdateRow.eventId, fun member => ?_⟩
  obtain ⟨first, among, same, kept⟩ := keepFirst_once UpdateRow.eventId member
  have inside : first ∈
      (keepFirst UpdateRow.eventId [] rows).filter fun other => other.eventId = row.eventId := by
    rw [kept]
    exact List.mem_singleton_self first
  rw [← agree first among row member same]
  exact (List.mem_filter.mp inside).1

theorem keepFirst_perm {rows' : List UpdateRow} (same : ∀ row, row ∈ rows' ↔ row ∈ rows) :
    (keepFirst UpdateRow.eventId [] rows').Perm (keepFirst UpdateRow.eventId [] rows) := by
  have agree' : ∀ a ∈ rows', ∀ b ∈ rows', a.eventId = b.eventId → a = b := fun a here b there =>
    agree a ((same a).mp here) b ((same b).mp there)
  refine (List.perm_ext_iff_of_nodup (nodup_keepFirst UpdateRow.eventId [] rows').of_map
    (nodup_keepFirst UpdateRow.eventId [] rows).of_map).mpr fun row => ?_
  rw [mem_keepFirst_iff agree', mem_keepFirst_iff agree, same]

/-- **The report is one of the events**: the rows may come in any order, and an event may have any
number of them. -/
theorem report_settled (some' : rows ≠ []) :
    ∃ f : Figures,
      f.Fit ((distinctUpdates rows).map fun update => streamingStaleness update.1 update.2) ∧
      f.n = (rows.map UpdateRow.eventId).dedup.length ∧
      ∀ rows' : List UpdateRow, (∀ row, row ∈ rows' ↔ row ∈ rows) →
        scoreRows rows' = some (f.report rows'.length) := by
  have updates : distinctUpdates rows ≠ [] := by
    obtain ⟨row, member⟩ := List.exists_mem_of_ne_nil rows some'
    rw [distinctUpdates_eq]
    exact List.ne_nil_of_mem (List.mem_map_of_mem ((mem_keepFirst_iff agree).mpr member))
  obtain ⟨f, fit, count, reports⟩ := @exists_figures
    ((distinctUpdates rows).map fun update => streamingStaleness update.1 update.2)
    ((distinctUpdates rows).map Prod.fst) (by simpa using updates) (by simpa using updates)
  refine ⟨f, fit, ?_, fun rows' same => ?_⟩
  · -- the events that are kept are all events, each once
    have events : ((keepFirst UpdateRow.eventId [] rows).map UpdateRow.eventId).Perm
        (rows.map UpdateRow.eventId).dedup := by
      refine (List.perm_ext_iff_of_nodup (nodup_keepFirst UpdateRow.eventId [] rows)
        (List.nodup_dedup _)).mpr fun eventId => ?_
      rw [List.mem_dedup, List.mem_map, List.mem_map]
      simp only [mem_keepFirst_iff agree]
    rw [count, List.length_map, distinctUpdates_eq, List.length_map, ← events.length_eq, List.length_map]
  · have perm : (distinctUpdates rows').Perm (distinctUpdates rows) := by
      rw [distinctUpdates_eq, distinctUpdates_eq]
      exact (keepFirst_perm agree same).map _
    have written := reports rows'.length
    rw [← summarize_perm (perm.map _) (perm.map _)] at written
    rw [← written]
    unfold scoreRows
    dsimp only
    cases summarize ((distinctUpdates rows').map fun update => streamingStaleness update.1 update.2)
      ((distinctUpdates rows').map Prod.fst) batchIntervalS <;> rfl

end Agreeing

/-- Two chunks of one update, and one of another, in either order. -/
theorem report_settled_two :
    ∃ f : Figures, f.n = 2 ∧
      scoreRows [⟨10, 40, "b"⟩, ⟨0, 20, "a"⟩, ⟨0, 20, "a"⟩] = some (f.report 3) ∧
      scoreRows [⟨0, 20, "a"⟩, ⟨10, 40, "b"⟩] = some (f.report 2) := by
  obtain ⟨f, -, count, reports⟩ := @report_settled [⟨0, 20, "a"⟩, ⟨10, 40, "b"⟩] (by decide) (by decide)
  exact ⟨f, count, reports [⟨10, 40, "b"⟩, ⟨0, 20, "a"⟩, ⟨0, 20, "a"⟩] fun row => by simp; tauto,
    reports [⟨0, 20, "a"⟩, ⟨10, 40, "b"⟩] fun row => Iff.rfl⟩

/-- Nothing was scored, and no figure is reported. -/
example : (scoreRows []).map Dict.keys =
    some ["n", "measurement_version", "status", "explanation"] := by decide

end Freshet.Eval
