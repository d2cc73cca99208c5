import Mathlib.Data.List.Basic
import Mathlib.Data.List.Induction
import Mathlib.Data.List.Nodup
import Mathlib.Order.Lattice
import Mathlib.Tactic.Common

/-!
# Keyed tables and ordered writes

A table is a list of rows with pairwise distinct primary keys.  Writing a row
either replaces the row of its key or appends; a guarded write is the database's
`INSERT ... ON CONFLICT DO UPDATE ... WHERE`, which may refuse to replace.

The second half is about guards that compare an order on the rows: a write that
is older than the stored row is dropped.  Such a table stores, of all writes to
one key, the last one among the greatest.

Main results:

- Theorem `Table.get?_put`: a write is read back at its key and leaves every
  other key alone.
- Theorem `Table.mem_rows_iff`: scanning the rows and looking a key up agree.
-/

namespace PhloTransform.Library

/-- Rows with pairwise distinct primary keys. -/
structure Table {Row Key : Type*} (key : Row → Key) where
  rows : List Row
  nodup_keys : (rows.map key).Nodup

namespace Table

variable {Row Key : Type*} [DecidableEq Key] {key : Row → Key}
variable {k : Key} {r : Row} {rows : List Row} {t : Table key}

/-- Replace the row with the key of `r`, or append `r`. -/
def assign (key : Row → Key) (r : Row) : List Row → List Row
  | [] => [r]
  | r' :: rows => if key r' = key r then r :: rows else r' :: assign key r rows

theorem mem_keys_assign : k ∈ (assign key r rows).map key ↔ k = key r ∨ k ∈ rows.map key := by
  induction rows with
  | nil => simp [assign]
  | cons r' rows ih =>
    by_cases h : key r' = key r
    · simp [assign, h]
    · simp only [assign, h, if_false, List.map_cons, List.mem_cons, ih]
      tauto

theorem nodup_keys_assign (r : Row) (hrows : (rows.map key).Nodup) :
    ((assign key r rows).map key).Nodup := by
  induction rows with
  | nil => simp [assign]
  | cons r' rows ih =>
    rw [List.map_cons, List.nodup_cons] at hrows
    by_cases h : key r' = key r
    · rw [assign, if_pos h, List.map_cons, List.nodup_cons, ← h]
      exact hrows
    · simp only [assign, h, if_false, List.map_cons, List.nodup_cons]
      exact ⟨fun hmem => (mem_keys_assign.1 hmem).elim h hrows.1, ih hrows.2⟩

def get? (t : Table key) (k : Key) : Option Row :=
  t.rows.find? fun r => decide (key r = k)

def empty : Table key where
  rows := []
  nodup_keys := List.nodup_nil

/-- `INSERT OR REPLACE`: the row of the key is replaced, or the row is added. -/
def put (t : Table key) (r : Row) : Table key where
  rows := assign key r t.rows
  nodup_keys := nodup_keys_assign r t.nodup_keys

/-- `INSERT ... ON CONFLICT DO UPDATE ... WHERE accepts old new`. -/
def upsertWhen (accepts : Row → Row → Bool) (t : Table key) (r : Row) : Table key :=
  match t.get? (key r) with
  | none => t.put r
  | some old => if accepts old r then t.put r else t

/-- `UPDATE ... WHERE key = k` of columns outside the key. -/
def modify (t : Table key) (k : Key) (f : Row → Row) (hf : ∀ r, key (f r) = key r) :
    Table key where
  rows := t.rows.map fun r => if key r = k then f r else r
  nodup_keys := by
    have hkeys : (t.rows.map fun r => if key r = k then f r else r).map key =
        t.rows.map key := by
      rw [List.map_map]
      refine List.map_congr_left fun r _ => ?_
      by_cases h : key r = k <;> simp [h, hf]
    rw [hkeys]
    exact t.nodup_keys

/-- `DELETE ... WHERE key = k`. -/
def erase (t : Table key) (k : Key) : Table key where
  rows := t.rows.filter fun r => decide (key r ≠ k)
  nodup_keys := t.nodup_keys.sublist (List.filter_sublist.map key)

/-- `DELETE` of the rows that do not satisfy `p`. -/
def retain (t : Table key) (p : Row → Bool) : Table key where
  rows := t.rows.filter p
  nodup_keys := t.nodup_keys.sublist (List.filter_sublist.map key)

@[simp]
theorem get?_empty (k : Key) : (empty : Table key).get? k = none :=
  rfl

theorem key_of_get? (h : t.get? k = some r) : key r = k := by
  simpa using List.find?_some h

theorem get?_put (t : Table key) (k : Key) (r : Row) :
    (t.put r).get? k = if key r = k then some r else t.get? k := by
  have hfind : ∀ rows : List Row,
      (assign key r rows).find? (fun r => decide (key r = k)) =
        if key r = k then some r else rows.find? fun r => decide (key r = k) := by
    intro rows
    induction rows with
    | nil => by_cases hk : key r = k <;> simp [assign, hk]
    | cons r' rows ih =>
      by_cases h : key r' = key r
      · by_cases hk : key r = k <;> simp [assign, h, hk]
      · rw [assign, if_neg h]
        by_cases hk' : key r' = k
        · have hk : key r ≠ k := fun heq => h (hk'.trans heq.symm)
          rw [List.find?_cons_of_pos (by simpa using hk'),
            List.find?_cons_of_pos (by simpa using hk'), if_neg hk]
        · rw [List.find?_cons_of_neg (by simpa using hk'), ih,
            List.find?_cons_of_neg (by simpa using hk')]
  exact hfind t.rows

@[simp]
theorem get?_put_self (t : Table key) (r : Row) : (t.put r).get? (key r) = some r := by
  simp [get?_put]

theorem get?_put_ne (t : Table key) (h : key r ≠ k) : (t.put r).get? k = t.get? k := by
  simp [get?_put, h]

theorem get?_upsertWhen_ne (accepts : Row → Row → Bool) (t : Table key) (h : key r ≠ k) :
    (t.upsertWhen accepts r).get? k = t.get? k := by
  unfold upsertWhen
  split
  · exact t.get?_put_ne h
  · split
    · exact t.get?_put_ne h
    · rfl

theorem get?_upsertWhen_self (accepts : Row → Row → Bool) (t : Table key) (r : Row) :
    (t.upsertWhen accepts r).get? (key r) =
      match t.get? (key r) with
      | none => some r
      | some old => if accepts old r then some r else some old := by
  cases hold : t.get? (key r) with
  | none => simp [upsertWhen, hold]
  | some old =>
    by_cases hacc : accepts old r = true <;> simp [upsertWhen, hold, hacc]

theorem upsertWhen_congr {accepts accepts' : Row → Row → Bool}
    (h : ∀ old, t.get? (key r) = some old → accepts old r = accepts' old r) :
    t.upsertWhen accepts r = t.upsertWhen accepts' r := by
  unfold upsertWhen
  cases hold : t.get? (key r) with
  | none => rfl
  | some old => simp only [h old hold]

omit [DecidableEq Key] in
theorem eq_of_rows {u : Table key} (h : t.rows = u.rows) : t = u := by
  cases t
  cases u
  cases h
  rfl

theorem assign_append_of_absent {pre : List Row} (h : ∀ r' ∈ pre, key r' ≠ key r) :
    assign key r (pre ++ rows) = pre ++ assign key r rows := by
  induction pre with
  | nil => rfl
  | cons r' pre ih =>
    rw [List.cons_append, assign, if_neg (h r' (List.mem_cons_self ..)),
      ih fun r'' hmem => h r'' (List.mem_cons_of_mem _ hmem), List.cons_append]

theorem erase_of_absent (h : t.get? k = none) : t.erase k = t := by
  apply eq_of_rows
  exact List.filter_eq_self.2 (by simpa [get?] using h)

theorem put_erase_of_last (h : t.rows.getLast?.map key = some (key r)) :
    (t.erase (key r)).put r = t.put r := by
  obtain ⟨last, hlast, hkey⟩ := Option.map_eq_some_iff.1 h
  obtain ⟨pre, hrows⟩ := List.getLast?_eq_some_iff.1 hlast
  have hnodup := t.nodup_keys
  rw [hrows, List.map_append, List.nodup_append] at hnodup
  have habsent : ∀ r' ∈ pre, key r' ≠ key r := by
    intro r' hmem heq
    exact hnodup.2.2 (key r') (List.mem_map_of_mem hmem) (key last) (by simp)
      (heq.trans hkey.symm)
  have herase : pre.filter (fun r' => decide (key r' ≠ key r)) = pre :=
    List.filter_eq_self.2 (by simpa using habsent)
  apply eq_of_rows
  show assign key r (t.rows.filter fun r' => decide (key r' ≠ key r)) = assign key r t.rows
  rw [hrows, List.filter_append, herase, List.filter_cons_of_neg (by simpa using hkey),
    List.filter_nil, assign_append_of_absent habsent, assign_append_of_absent habsent]
  simp [assign, hkey]

theorem get?_erase (t : Table key) (k k' : Key) :
    (t.erase k).get? k' = if k = k' then none else t.get? k' := by
  unfold erase get?
  rw [List.find?_filter]
  split
  · next h =>
      subst h
      exact List.find?_eq_none.2 (by simp)
  · next h =>
      congr 1
      funext r
      by_cases hr : key r = k'
      · simp [hr, Ne.symm h]
      · simp [hr]

theorem erase_assign_of_absent (h : ∀ r' ∈ rows, key r' ≠ key r) :
    (assign key r rows).filter (fun r' => decide (key r' ≠ key r)) = rows := by
  induction rows with
  | nil => simp [assign]
  | cons r' rest ih =>
    have hne : key r' ≠ key r := h r' (List.mem_cons_self ..)
    rw [assign, if_neg hne, List.filter_cons_of_pos (by simpa using hne),
      ih fun r'' hmem => h r'' (List.mem_cons_of_mem _ hmem)]

theorem erase_put (h : t.get? (key r) = none) : (t.put r).erase (key r) = t := by
  have habsent : ∀ r' ∈ t.rows, key r' ≠ key r := by
    simpa [get?] using h
  cases t
  simpa [put, erase] using erase_assign_of_absent habsent

theorem get?_modify (t : Table key) (k k' : Key) (f : Row → Row)
    (hf : ∀ r, key (f r) = key r) :
    (t.modify k f hf).get? k' = if k = k' then (t.get? k').map f else t.get? k' := by
  have hfind : ∀ rows : List Row,
      (rows.map fun r => if key r = k then f r else r).find?
          (fun r => decide (key r = k')) =
        if k = k' then (rows.find? fun r => decide (key r = k')).map f
        else rows.find? fun r => decide (key r = k') := by
    intro rows
    induction rows with
    | nil => simp
    | cons r rows ih =>
      by_cases hr : key r = k <;> by_cases hk : k = k' <;>
        by_cases hr' : key r = k' <;> simp_all
  exact hfind t.rows

theorem mem_rows_iff (t : Table key) (r : Row) : r ∈ t.rows ↔ t.get? (key r) = some r := by
  obtain ⟨rows, hrows⟩ := t
  simp only [get?]
  induction rows with
  | nil => simp
  | cons r' rows ih =>
    rw [List.map_cons, List.nodup_cons] at hrows
    by_cases h : key r' = key r
    · have hnot : r ∉ rows := fun hmem =>
        hrows.1 (h ▸ List.mem_map_of_mem hmem)
      simp [h, hnot, eq_comm]
    · have hne : r ≠ r' := fun heq => h (congrArg key heq.symm)
      rw [List.find?_cons_of_neg (by simpa using h), ← ih hrows.2]
      simp [hne]

theorem mem_put {r' : Row} : r' ∈ (t.put r).rows ↔ r' = r ∨ r' ∈ t.rows ∧ key r' ≠ key r := by
  rw [mem_rows_iff, mem_rows_iff, get?_put]
  by_cases h : key r = key r'
  · simp [h, eq_comm]
  · have hne : r' ≠ r := fun heq => h (congrArg key heq.symm)
    simp [h, hne, eq_comm]

theorem mem_of_mem_upsertWhen {accepts : Row → Row → Bool} {r' : Row}
    (h : r' ∈ (t.upsertWhen accepts r).rows) : r' = r ∨ r' ∈ t.rows := by
  unfold upsertWhen at h
  split at h
  · exact (mem_put.1 h).imp_right And.left
  · split at h
    · exact (mem_put.1 h).imp_right And.left
    · exact Or.inr h

end Table

/-! ## Folding rows into a map -/

/-- Folding rows of distinct keys into a map touches each key with its one
row. -/
theorem foldl_update_apply {Row Key V : Type*} [DecidableEq Key] (key : Row → Key)
    (f : Option V → Row → V) {rows : List Row} (hnodup : (rows.map key).Nodup)
    (byKey : Key → Option V) (k : Key) :
    rows.foldl
        (fun byKey r => Function.update byKey (key r) (some (f (byKey (key r)) r)))
        byKey k =
      match rows.find? fun r => decide (key r = k) with
      | some r => some (f (byKey k) r)
      | none => byKey k := by
  induction rows generalizing byKey with
  | nil => rfl
  | cons r rows ih =>
    rw [List.map_cons, List.nodup_cons] at hnodup
    rw [List.foldl_cons, ih hnodup.2]
    by_cases h : key r = k
    · have hrest : rows.find? (fun r => decide (key r = k)) = none := by
        rw [List.find?_eq_none]
        intro r' hr' hk
        have hk : key r' = k := by simpa using hk
        exact hnodup.1 (h.trans hk.symm ▸ List.mem_map_of_mem hr')
      rw [hrest, List.find?_cons_of_pos (by simpa using h), ← h]
      simp
    · rw [List.find?_cons_of_neg (by simpa using h)]
      simp only [Function.update_of_ne (Ne.symm h)]

/-! ## Ordered writes -/

section OrderedWrites

variable {α β : Type*} [LinearOrder β] (rank : α → β)

/-- An ordered write: keep the stored value when the new one ranks below it. -/
def keepNewer (old new : α) : α :=
  if rank new < rank old then old else new

/-- `x` is the last among the elements of greatest rank. -/
def LastMax (l : List α) (x : α) : Prop :=
  ∃ pre post, l = pre ++ x :: post ∧ (∀ y ∈ pre, rank y ≤ rank x) ∧
    ∀ y ∈ post, rank y < rank x

variable {rank}

theorem LastMax.le {l : List α} {x : α} (h : LastMax rank l x) {y : α}
    (hy : y ∈ l) : rank y ≤ rank x := by
  obtain ⟨pre, post, rfl, hpre, hpost⟩ := h
  rcases List.mem_append.1 hy with hy | hy
  · exact hpre y hy
  · rcases List.mem_cons.1 hy with rfl | hy
    · exact le_rfl
    · exact le_of_lt (hpost y hy)

theorem LastMax.congr {rank' : α → β} {l : List α} {x : α} (h : LastMax rank l x)
    (hrank : ∀ y ∈ l, rank' y = rank y) : LastMax rank' l x := by
  obtain ⟨pre, post, rfl, hpre, hpost⟩ := h
  have hx := hrank x (by simp)
  refine ⟨pre, post, rfl, ?_, ?_⟩
  · intro y hy
    rw [hx, hrank y (by simp [hy])]
    exact hpre y hy
  · intro y hy
    rw [hx, hrank y (by simp [hy])]
    exact hpost y hy

theorem LastMax.singleton (x : α) : LastMax rank [x] x :=
  ⟨[], [], rfl, by simp, by simp⟩

theorem LastMax.keepNewer {l : List α} {x : α} (h : LastMax rank l x) (new : α) :
    LastMax rank (l ++ [new]) (keepNewer rank x new) := by
  by_cases hnew : rank new < rank x
  · obtain ⟨pre, post, hsplit, hpre, hpost⟩ := h
    rw [Library.keepNewer, if_pos hnew]
    refine ⟨pre, post ++ [new], by simp [hsplit], hpre, ?_⟩
    intro y hy
    rcases List.mem_append.1 hy with hy | hy
    · exact hpost y hy
    · rwa [List.mem_singleton.1 hy]
  · rw [Library.keepNewer, if_neg hnew]
    refine ⟨l, [], rfl, ?_, by simp⟩
    intro y hy
    exact le_trans (h.le hy) (not_lt.1 hnew)

end OrderedWrites

end PhloTransform.Library
