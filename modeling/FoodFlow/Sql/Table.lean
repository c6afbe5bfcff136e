import Mathlib.Algebra.Order.BigOperators.Group.Finset
import Mathlib.Data.List.Nodup
import Mathlib.Algebra.BigOperators.Group.Finset.Basic
import Mathlib.Algebra.Ring.Int.Defs
import Mathlib.Data.Fintype.EquivFin

/-!
# Tables with a unique key

`Table key` is a list of rows in which no two rows have the same `key`: the table of a relational
database with a `PRIMARY KEY` or `UNIQUE` constraint, in insertion order.  The constraint is part
of the type, so the operations keep it by construction:

* `Table.get? k` : the row with key `k`;
* `Table.insert r` : append `r` (the table is unchanged when the key is taken);
* `Table.update p f` : replace every row satisfying `p` by its image under `f`;
* `Table.erase k` : delete the row with key `k`.

The lemmas give `get?` after every operation, and the sum over the rows of a quantity attached to
them, which conservation arguments follow.
-/

namespace FoodFlow

variable {ρ κ : Type} {key : ρ → κ}

/-- Rows with pairwise distinct keys. -/
structure Table (key : ρ → κ) where
  /-- The rows, in insertion order. -/
  rows : List ρ
  /-- No two rows have the same key. -/
  nodup : (rows.map key).Nodup

namespace Table

@[ext] theorem ext {t t' : Table key} (h : t.rows = t'.rows) : t = t' := by
  cases t; cases t'; simp_all

/-- The table without rows. -/
def empty : Table key := ⟨[], List.nodup_nil⟩

instance : Inhabited (Table key) := ⟨empty⟩

theorem update_keys {p : ρ → Bool} {f : ρ → ρ} (hf : ∀ r, key (f r) = key r) (rows : List ρ) :
    (rows.map fun r => if p r then f r else r).map key = rows.map key := by
  rw [List.map_map]
  refine List.map_congr_left fun r _ => ?_
  simp only [Function.comp]
  split <;> simp [hf]

/-- `UPDATE`: replace every row satisfying `p` by its image under `f`, which keeps the key. -/
def update (t : Table key) (p : ρ → Bool) (f : ρ → ρ)
    (hf : ∀ r, key (f r) = key r := by intro _; rfl) : Table key :=
  ⟨t.rows.map fun r => if p r then f r else r, by rw [update_keys hf]; exact t.nodup⟩

section

variable [DecidableEq κ]

/-- The row with key `k`. -/
def get? (t : Table key) (k : κ) : Option ρ := t.rows.find? fun r => key r = k

/-- `INSERT`: append a row.  Callers check first that the key is free; a row whose key is taken
leaves the table as it is. -/
def insert (t : Table key) (r : ρ) : Table key :=
  if h : key r ∈ t.rows.map key then t
  else ⟨t.rows ++ [r], by
    rw [List.map_append, List.map_singleton]
    exact (List.nodup_append_comm.1 (List.nodup_cons.2 ⟨h, t.nodup⟩))⟩

/-- `DELETE`: remove the row with key `k`. -/
def erase (t : Table key) (k : κ) : Table key :=
  ⟨t.rows.filter fun r => key r ≠ k, t.nodup.sublist (List.filter_sublist.map key)⟩

variable (t : Table key)

@[simp] theorem get?_empty (k : κ) : (empty : Table key).get? k = none := rfl

theorem get?_eq_some {k : κ} {r : ρ} : t.get? k = some r ↔ r ∈ t.rows ∧ key r = k := by
  constructor
  · intro h
    exact ⟨List.mem_of_find?_eq_some h, by simpa using List.find?_some h⟩
  · rintro ⟨hr, rfl⟩
    cases hg : t.rows.find? fun x => key x = key r with
    | none => exact (List.find?_eq_none.1 hg r hr (by simp)).elim
    | some x =>
      have hx := List.mem_of_find?_eq_some hg
      have hk : key x = key r := by simpa using List.find?_some hg
      rw [get?, hg, List.inj_on_of_nodup_map t.nodup hx hr hk]

theorem get?_eq_none {k : κ} : t.get? k = none ↔ ∀ r ∈ t.rows, key r ≠ k := by
  simp [get?, List.find?_eq_none]

variable {t}

theorem key_of_get? {k : κ} {r : ρ} (h : t.get? k = some r) : key r = k := (t.get?_eq_some.1 h).2

theorem mem_of_get? {k : κ} {r : ρ} (h : t.get? k = some r) : r ∈ t.rows :=
  (t.get?_eq_some.1 h).1

theorem get?_of_mem {r : ρ} (h : r ∈ t.rows) : t.get? (key r) = some r :=
  t.get?_eq_some.2 ⟨h, rfl⟩

/-! ### Rows and lookups after an operation -/

theorem rows_insert {r : ρ} (h : t.get? (key r) = none) : (t.insert r).rows = t.rows ++ [r] := by
  have hk : key r ∉ t.rows.map key := by
    rintro hm
    obtain ⟨x, hx, he⟩ := List.mem_map.1 hm
    exact (t.get?_eq_none.1 h) x hx he
  simp [insert, hk]

theorem get?_insert {r : ρ} (h : t.get? (key r) = none) (k : κ) :
    (t.insert r).get? k = if key r = k then some r else t.get? k := by
  rw [get?, rows_insert h, List.find?_append]
  by_cases hk : key r = k
  · subst hk
    rw [get?] at h
    simp [h]
  · cases ht : t.rows.find? fun x => key x = k <;> simp [hk, get?, ht]

theorem insert_of_get? {r r' : ρ} (h : t.get? (key r) = some r') : t.insert r = t := by
  have hk : key r ∈ t.rows.map key :=
    List.mem_map.2 ⟨r', mem_of_get? h, key_of_get? h⟩
  simp [insert, hk]

theorem get?_insert_eq_none {r : ρ} {k : κ} :
    (t.insert r).get? k = none ↔ t.get? k = none ∧ key r ≠ k := by
  cases hr : t.get? (key r) with
  | none =>
    rw [get?_insert hr]
    split_ifs with h
    · simp [h]
    · simp [h]
  | some r' =>
    rw [insert_of_get? hr]
    refine ⟨fun hk => ⟨hk, ?_⟩, And.left⟩
    rintro rfl
    rw [hk] at hr
    cases hr

theorem mem_rows_insert {r r' : ρ} :
    r' ∈ (t.insert r).rows ↔ r' ∈ t.rows ∨ (r' = r ∧ t.get? (key r) = none) := by
  cases hr : t.get? (key r) with
  | none => simp [rows_insert hr]
  | some r₁ => simp [insert_of_get? hr]

theorem get?_update {p : ρ → Bool} {f : ρ → ρ} (hf : ∀ r, key (f r) = key r) (k : κ) :
    (t.update p f hf).get? k = (t.get? k).map fun r => if p r then f r else r := by
  have hkey : ∀ r, key (if p r then f r else r) = key r := fun r => by split <;> simp [hf]
  simp only [get?, update, List.find?_map, Function.comp_def, hkey]

omit [DecidableEq κ] in
theorem mem_rows_update {p : ρ → Bool} {f : ρ → ρ} {hf : ∀ r, key (f r) = key r} {r' : ρ} :
    r' ∈ (t.update p f hf).rows ↔ ∃ r ∈ t.rows, (if p r then f r else r) = r' := by
  simp [update]

theorem get?_erase (k k' : κ) : (t.erase k).get? k' = if k = k' then none else t.get? k' := by
  rw [get?, erase, List.find?_filter]
  split_ifs with h
  · subst h
    simp
  · rw [get?]
    congr 1
    funext r
    by_cases hr : key r = k'
    · simp [hr, Ne.symm h]
    · simp [hr]

theorem mem_rows_erase {k : κ} {r : ρ} : r ∈ (t.erase k).rows ↔ r ∈ t.rows ∧ key r ≠ k := by
  simp [erase]

/-- A key that is free. -/
theorem exists_get?_eq_none [Infinite κ] (t : Table key) : ∃ k, t.get? k = none := by
  obtain ⟨k, hk⟩ := Infinite.exists_notMem_finset (t.rows.map key).toFinset
  refine ⟨k, t.get?_eq_none.2 fun r hr he => hk ?_⟩
  exact List.mem_toFinset.2 (List.mem_map.2 ⟨r, hr, he⟩)

/-! ### Sums over the rows -/

/-- The sum over the rows of the quantity `g` attached to each of them. -/
def sum (t : Table key) (g : ρ → ℤ) : ℤ := (t.rows.map g).sum

omit [DecidableEq κ] in
@[simp] theorem sum_empty (g : ρ → ℤ) : (empty : Table key).sum g = 0 := rfl

theorem sum_insert {r : ρ} (h : t.get? (key r) = none) (g : ρ → ℤ) :
    (t.insert r).sum g = t.sum g + g r := by
  simp [sum, rows_insert h]

theorem sum_erase {k : κ} {r : ρ} (h : t.get? k = some r) (g : ρ → ℤ) :
    (t.erase k).sum g + g r = t.sum g := by
  obtain ⟨rows, nd⟩ := t
  obtain ⟨hr, rfl⟩ := (get?_eq_some _).1 h
  simp only [sum, erase] at hr ⊢
  clear h
  induction rows with
  | nil => cases hr
  | cons x rows ih =>
    have hnd := List.nodup_cons.1 nd
    rcases List.mem_cons.1 hr with rfl | hr'
    · have hrest : rows.filter (fun y => key y ≠ key r) = rows := by
        refine List.filter_eq_self.2 fun y hy => ?_
        have : key y ≠ key r := fun he => hnd.1 (List.mem_map.2 ⟨y, hy, he⟩)
        simpa using this
      rw [List.filter_cons, if_neg (by simp), hrest, List.map_cons, List.sum_cons, add_comm]
    · have hne : key x ≠ key r := fun he => hnd.1 (List.mem_map.2 ⟨r, hr', he.symm⟩)
      rw [List.filter_cons, if_pos (by simpa using hne), List.map_cons, List.sum_cons,
        List.map_cons, List.sum_cons, add_assoc, ih hnd.2 hr']

/-- The sum over the rows, as a sum over any set of keys that has them all. -/
theorem sum_eq_sum_keys (g : ρ → ℤ) {K : Finset κ} (hK : ∀ r ∈ t.rows, key r ∈ K) :
    t.sum g = ∑ k ∈ K, ((t.get? k).map g).getD 0 := by
  have hrows : t.rows.map g = (t.rows.map key).map fun k => ((t.get? k).map g).getD 0 := by
    rw [List.map_map]
    refine List.map_congr_left fun r hr => ?_
    simp [get?_of_mem hr]
  rw [sum, hrows, ← List.sum_toFinset _ t.nodup]
  refine Finset.sum_subset (fun k hk => ?_) fun k _ hk => ?_
  · obtain ⟨r, hr, rfl⟩ := List.mem_map.1 (List.mem_toFinset.1 hk)
    exact hK r hr
  · -- a key of no row
    have hnone : t.get? k = none := t.get?_eq_none.2 fun r hr he =>
      hk (List.mem_toFinset.2 (List.mem_map.2 ⟨r, hr, he⟩))
    rw [hnone]
    rfl

/-- A table has at most the sum of another one if no key contributes more to it. -/
theorem sum_le_sum {ρ' : Type} {key' : ρ' → κ} {t' : Table key'} {g : ρ → ℤ} {g' : ρ' → ℤ}
    (h : ∀ k, ((t.get? k).map g).getD 0 ≤ ((t'.get? k).map g').getD 0) : t.sum g ≤ t'.sum g' := by
  let K := (t.rows.map key).toFinset ∪ (t'.rows.map key').toFinset
  have hK : ∀ r ∈ t.rows, key r ∈ K := fun r hr =>
    Finset.mem_union_left _ (List.mem_toFinset.2 (List.mem_map_of_mem hr))
  have hK' : ∀ r ∈ t'.rows, key' r ∈ K := fun r hr =>
    Finset.mem_union_right _ (List.mem_toFinset.2 (List.mem_map_of_mem hr))
  rw [sum_eq_sum_keys g hK, sum_eq_sum_keys g' hK']
  exact Finset.sum_le_sum fun k _ => h k

/-- Two tables have the same sum if every key contributes the same to both. -/
theorem sum_congr {ρ' : Type} {key' : ρ' → κ} {t' : Table key'} {g : ρ → ℤ} {g' : ρ' → ℤ}
    (h : ∀ k, ((t.get? k).map g).getD 0 = ((t'.get? k).map g').getD 0) : t.sum g = t'.sum g' :=
  le_antisymm (sum_le_sum fun k => (h k).le) (sum_le_sum fun k => (h k).ge)

omit [DecidableEq κ] in
/-- Counting rows is summing over them. -/
theorem sum_countP (φ : ρ → Bool) :
    t.sum (fun r => if φ r then 1 else 0) = (t.rows.countP φ : ℤ) := by
  rw [sum]
  induction t.rows with
  | nil => rfl
  | cons r rows ih =>
    rw [List.map_cons, List.sum_cons, ih, List.countP_cons]
    split_ifs <;> push_cast <;> omega

theorem countP_insert {r : ρ} (h : t.get? (key r) = none) (φ : ρ → Bool) :
    (t.insert r).rows.countP φ = t.rows.countP φ + if φ r then 1 else 0 := by
  rw [rows_insert h, List.countP_append, List.countP_singleton]

theorem countP_erase {k : κ} {r : ρ} (h : t.get? k = some r) (φ : ρ → Bool) :
    (t.erase k).rows.countP φ + (if φ r then 1 else 0) = t.rows.countP φ := by
  have hsum := sum_erase h fun r => if φ r then 1 else 0
  rw [sum_countP, sum_countP] at hsum
  split_ifs at hsum ⊢ <;> omega

/-- At most one row has the key. -/
theorem countP_key (k : κ) (φ : ρ → Bool) :
    t.rows.countP (fun r => decide (key r = k) && φ r) = if (t.get? k).any φ then 1 else 0 := by
  cases hr : t.get? k with
  | none =>
    rw [List.countP_eq_zero.2 fun r hr' => by simp [t.get?_eq_none.1 hr r hr']]
    rfl
  | some r =>
    have hrest : (t.erase k).rows.countP (fun r => decide (key r = k) && φ r) = 0 :=
      List.countP_eq_zero.2 fun x hx => by simp [(mem_rows_erase.1 hx).2]
    rw [← countP_erase hr, hrest, key_of_get? hr]
    simp

/-- Counting the rows when one of them is replaced. -/
theorem countP_update {k : κ} {r : ρ} (h : t.get? k = some r) (φ : ρ → Bool) {f : ρ → ρ}
    (hf : ∀ r, key (f r) = key r) :
    (t.update (key · = k) f hf).rows.countP φ + (if φ r then 1 else 0) =
      t.rows.countP φ + if φ (f r) then 1 else 0 := by
  obtain ⟨rows, nd⟩ := t
  obtain ⟨hr, rfl⟩ := (get?_eq_some _).1 h
  obtain ⟨l₁, l₂, rfl⟩ := List.append_of_mem hr
  rw [List.map_append, List.map_cons, List.nodup_middle, List.nodup_cons] at nd
  -- the other rows have other keys
  have hrest : ∀ l : List ρ, (∀ x ∈ l, key x ≠ key r) →
      (l.map fun x => if decide (key x = key r) = true then f x else x) = l := by
    intro l hl
    refine (List.map_congr_left fun x hx => ?_).trans (List.map_id _)
    rw [if_neg (by simpa using hl x hx)]
    rfl
  have hne : ∀ x ∈ l₁ ++ l₂, key x ≠ key r := fun x hx he =>
    nd.1 (by rw [← List.map_append]; exact List.mem_map.2 ⟨x, hx, he⟩)
  simp only [update, List.map_append, List.map_cons, decide_true, if_true,
    hrest l₁ fun x hx => hne x (List.mem_append_left _ hx),
    hrest l₂ fun x hx => hne x (List.mem_append_right _ hx), List.countP_append, List.countP_cons]
  omega

end

end Table

end FoodFlow
