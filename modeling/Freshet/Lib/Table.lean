/-
**Keyed tables.**

A table is an association list with one row per key (Mathlib's `AList`), read and written the way
SQL statements do it: `UPDATE … WHERE key = k AND guard` (`modify`, `updateWhere`),
`INSERT … ON CONFLICT (key) DO UPDATE` (`upsert`), `DELETE … WHERE` (`deleteWhere`) and
`SELECT … WHERE … ORDER BY` (`select`). Each operation has one lemma that says what a lookup
finds afterwards; nothing else about the representation is used.
-/

import Mathlib.Algebra.Ring.Int.Defs
import Mathlib.Data.List.AList
import Mathlib.Data.List.Sort

namespace Freshet.Lib

/-- A table with rows `V` under a primary key `K`. -/
abbrev Table (K V : Type) := AList fun _ : K => V

namespace Table

variable {K V : Type} [DecidableEq K]

/-- `UPDATE … SET row = change row WHERE key = k`: a missing row is left missing. -/
def modify (k : K) (change : V → V) (table : Table K V) : Table K V :=
  match table.lookup k with
  | some row => table.insert k (change row)
  | none => table

/-- `UPDATE … WHERE key = k AND guard RETURNING …`: the row as updated, when one matched. -/
def updateWhere (k : K) (guard : V → Bool) (change : V → V) (table : Table K V) :
    Option V × Table K V :=
  match table.lookup k with
  | some row => if guard row then (some (change row), table.insert k (change row)) else (none, table)
  | none => (none, table)

/-- `INSERT … ON CONFLICT (key) DO UPDATE`: `fresh` when the key is new, else `change`. -/
def upsert (k : K) (fresh : V) (change : V → V) (table : Table K V) : Table K V :=
  match table.lookup k with
  | some row => table.insert k (change row)
  | none => table.insert k fresh

/-- `DELETE … WHERE`. -/
def deleteWhere (matched : K → V → Bool) (table : Table K V) : Table K V :=
  ⟨table.entries.filter fun entry => !matched entry.1 entry.2,
    (table.nodupKeys.sublist List.filter_sublist)⟩

/-- `SELECT … WHERE matched ORDER BY before`, without its `LIMIT`. -/
def select (matched : K → V → Bool) (before : (Σ _ : K, V) → (Σ _ : K, V) → Bool)
    (table : Table K V) : List (Σ _ : K, V) :=
  (table.entries.filter fun entry => matched entry.1 entry.2).insertionSort
    fun first second => before first second = true

/-- `SELECT coalesce(sum(value), 0) … WHERE matched` over one integer column. -/
def sumWhere (matched : K → Bool) (table : Table K Int) : Int :=
  ((table.entries.filter fun entry => matched entry.1).map Sigma.snd).sum

theorem lookup_modify (k j : K) (change : V → V) (table : Table K V) :
    (modify k change table).lookup j =
      if j = k then (table.lookup k).map change else table.lookup j := by
  unfold modify
  cases found : table.lookup k with
  | none =>
    split_ifs with same
    · rw [same, found]; rfl
    · rfl
  | some row =>
    split_ifs with same
    · rw [same]; exact AList.lookup_insert table
    · exact AList.lookup_insert_ne same

/-- What a lookup finds after a guarded update. -/
theorem lookup_updateWhere (k j : K) (guard : V → Bool) (change : V → V) (table : Table K V) :
    (updateWhere k guard change table).2.lookup j =
      if j = k then (table.lookup k).map fun row => if guard row then change row else row
      else table.lookup j := by
  unfold updateWhere
  cases found : table.lookup k with
  | none =>
    split_ifs with same
    · rw [same, found]; rfl
    · rfl
  | some row =>
    by_cases held : guard row = true
    · simp only [held, if_true, Option.map_some]
      split_ifs with same
      · rw [same]; exact AList.lookup_insert table
      · exact AList.lookup_insert_ne same
    · simp only [held, if_false, Option.map_some, Bool.false_eq_true]
      split_ifs with same
      · rw [same]; exact found
      · rfl

/-- A guarded update returns a row exactly when the row is there and the guard holds of it. -/
theorem updateWhere_fst (k : K) (guard : V → Bool) (change : V → V) (table : Table K V) :
    (updateWhere k guard change table).1 = ((table.lookup k).filter guard).map change := by
  unfold updateWhere
  cases table.lookup k with
  | none => rfl
  | some row => by_cases held : guard row = true <;> simp [held, Option.filter]

theorem lookup_upsert (k j : K) (fresh : V) (change : V → V) (table : Table K V) :
    (upsert k fresh change table).lookup j =
      if j = k then some (((table.lookup k).map change).getD fresh) else table.lookup j := by
  unfold upsert
  cases found : table.lookup k with
  | none =>
    split_ifs with same
    · rw [same]; exact AList.lookup_insert table
    · exact AList.lookup_insert_ne same
  | some row =>
    split_ifs with same
    · rw [same]; exact AList.lookup_insert table
    · exact AList.lookup_insert_ne same

theorem mem_entries_iff {table : Table K V} {k : K} {row : V} :
    (⟨k, row⟩ : Σ _ : K, V) ∈ table.entries ↔ table.lookup k = some row :=
  AList.mem_lookup_iff.symm

theorem lookup_deleteWhere (matched : K → V → Bool) (table : Table K V) (j : K) :
    (deleteWhere matched table).lookup j = (table.lookup j).filter fun row => !matched j row := by
  ext row
  rw [Option.filter_eq_some_iff, ← mem_entries_iff, ← mem_entries_iff]
  simp [deleteWhere]

/-- A selection lists exactly the rows that match. -/
theorem mem_select {matched : K → V → Bool} {before : (Σ _ : K, V) → (Σ _ : K, V) → Bool}
    {table : Table K V} {k : K} {row : V} :
    (⟨k, row⟩ : Σ _ : K, V) ∈ select matched before table ↔
      table.lookup k = some row ∧ matched k row = true := by
  unfold select
  rw [List.mem_insertionSort, List.mem_filter, mem_entries_iff]

omit [DecidableEq K] in
/-- A selection is in order. -/
theorem pairwise_select {matched : K → V → Bool} {before : (Σ _ : K, V) → (Σ _ : K, V) → Bool}
    (total : ∀ a b, before a b = true ∨ before b a = true)
    (trans : ∀ a b c, before a b = true → before b c = true → before a c = true)
    (table : Table K V) : (select matched before table).Pairwise fun a b => before a b = true := by
  have total' : Std.Total fun a b : (Σ _ : K, V) => before a b = true := ⟨total⟩
  have trans' : IsTrans (Σ _ : K, V) fun a b => before a b = true := ⟨trans⟩
  exact List.pairwise_insertionSort _ _

omit [DecidableEq K] in
/-- No key is selected twice. -/
theorem distinct_select (matched : K → V → Bool) (before : (Σ _ : K, V) → (Σ _ : K, V) → Bool)
    (table : Table K V) : (select matched before table).Pairwise fun a b => a.1 ≠ b.1 :=
  (List.perm_insertionSort _ _).symm.pairwise (List.nodupKeys_iff_pairwise.mp
    (table.nodupKeys.sublist List.filter_sublist)) fun apart => Ne.symm apart

/-- **A selection is a function of the rows that match**, where the order settles every tie between
them. -/
theorem select_congr {matched : K → V → Bool} {before : (Σ _ : K, V) → (Σ _ : K, V) → Bool}
    (total : ∀ a b, before a b = true ∨ before b a = true)
    (trans : ∀ a b c, before a b = true → before b c = true → before a c = true)
    (antisymm : ∀ a b : Σ _ : K, V, matched a.1 a.2 = true → matched b.1 b.2 = true →
      before a b = true → before b a = true → a.1 = b.1)
    {first second : Table K V} (same : ∀ k row, matched k row = true →
      (first.lookup k = some row ↔ second.lookup k = some row)) :
    select matched before first = select matched before second := by
  have mem : ∀ entry, entry ∈ select matched before first ↔ entry ∈ select matched before second := by
    rintro ⟨k, row⟩
    rw [mem_select, mem_select]
    exact and_congr_left fun held => same k row held
  have nodup : ∀ table : Table K V, (select matched before table).Nodup := fun table =>
    (distinct_select matched before table).imp fun apart eq => apart (congrArg Sigma.fst eq)
  refine ((List.perm_ext_iff_of_nodup (nodup first) (nodup second)).mpr mem).eq_of_pairwise
    (fun a b here there ahead behind => ?_) (pairwise_select total trans first)
    (pairwise_select total trans second)
  obtain ⟨found, held⟩ := mem_select.mp here
  obtain ⟨found', held'⟩ := mem_select.mp there
  have keys : a.1 = b.1 := antisymm a b held held' ahead behind
  have found : second.lookup a.1 = some a.2 := (same _ _ held).mp found
  rw [keys, found'] at found
  exact Sigma.ext keys (heq_of_eq (Option.some.inj found).symm)

/-! ### Sums -/

/-- What one key adds to a sum. -/
def share (matched : K → Bool) (k : K) (value : Option Int) : Int :=
  if matched k then value.getD 0 else 0

/-- A sum is the share of one key and the sum over the rest. -/
theorem sum_kerase (matched : K → Bool) (k : K) {entries : List (Σ _ : K, Int)}
    (distinct : entries.NodupKeys) :
    ((entries.filter fun entry => matched entry.1).map Sigma.snd).sum =
      share matched k (entries.dlookup k) +
        (((entries.kerase k).filter fun entry => matched entry.1).map Sigma.snd).sum := by
  induction entries with
  | nil => simp [share]
  | cons entry entries ih =>
    have later := ih (List.nodupKeys_cons.mp distinct).2
    by_cases same : k = entry.1
    · have erased : (entry :: entries).kerase k = entries := List.kerase_cons_eq same
      have found : (entry :: entries).dlookup k = some entry.2 := by
        subst same
        exact List.dlookup_cons_eq entries entry.1 entry.2
      rw [erased, found]
      unfold share
      by_cases counted : matched entry.1 = true <;> simp [same, counted]
    · have erased : (entry :: entries).kerase k = entry :: entries.kerase k :=
        List.kerase_cons_ne same
      have found : (entry :: entries).dlookup k = entries.dlookup k :=
        List.dlookup_cons_ne entries entry same
      rw [erased, found]
      by_cases counted : matched entry.1 = true
      · simp only [List.filter_cons, counted, if_true, List.map_cons, List.sum_cons]
        omega
      · simp only [List.filter_cons, counted, Bool.false_eq_true, if_false]
        exact later

/-- Writing a row takes the key's old share out of a sum and puts its new one in. -/
theorem sumWhere_insert (matched : K → Bool) (k : K) (value : Int) (table : Table K Int) :
    sumWhere matched (table.insert k value) =
      sumWhere matched table - share matched k (table.lookup k) + share matched k (some value) := by
  have split := sum_kerase matched k table.nodupKeys
  have looked : table.entries.dlookup k = table.lookup k := rfl
  have written : (table.insert k value).entries = ⟨k, value⟩ :: table.entries.kerase k := rfl
  unfold sumWhere
  rw [written, split, looked]
  by_cases counted : matched k = true
  · simp only [List.filter_cons, counted, if_true, List.map_cons, List.sum_cons, share,
      Option.getD_some]
    omega
  · simp only [List.filter_cons, counted, Bool.false_eq_true, if_false, share]
    omega

/-- The sum over one key is what a lookup finds there. -/
theorem sumWhere_key (k : K) (table : Table K Int) :
    sumWhere (fun other => decide (other = k)) table = (table.lookup k).getD 0 := by
  have split := sum_kerase (fun other => decide (other = k)) k table.nodupKeys
  have none_left : ((table.entries.kerase k).filter fun entry => decide (entry.1 = k)) = [] := by
    refine List.filter_eq_nil_iff.mpr fun entry member => ?_
    have absent : k ∉ (table.entries.kerase k).keys :=
      List.notMem_keys_kerase k table.nodupKeys
    intro same
    rw [← of_decide_eq_true same] at absent
    exact absent (of_decide_eq_true same ▸ List.mem_keys_of_mem member)
  unfold sumWhere
  rw [split, none_left]
  simp [share]
  rfl

omit [DecidableEq K] in
/-- Deleting rows that a sum leaves out does not change it. -/
theorem sumWhere_deleteWhere {matched : K → Bool} {deleted : K → Int → Bool}
    (apart : ∀ k value, matched k = true → deleted k value = false) (table : Table K Int) :
    sumWhere matched (deleteWhere deleted table) = sumWhere matched table := by
  unfold sumWhere deleteWhere
  rw [List.filter_filter]
  congr 2
  refine List.filter_congr fun entry _ => ?_
  by_cases counted : matched entry.1 = true
  · simp [counted, apart _ entry.2 counted]
  · simp [counted]

end Table

end Freshet.Lib
