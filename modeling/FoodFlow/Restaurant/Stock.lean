import FoodFlow.Restaurant.Basic

/-!
# Reserving and releasing stock

`reserve_stock` and `release_stock`, and what they do to the tables when they return:

* `reserveStock_ok` : every item listed is in stock, each quantity goes down by the total ordered
  (an item may be listed twice, and a quantity may be negative), and the reservation is recorded;
* `releaseStock_ok` : the reverse, or nothing when there is no reservation.

In both cases no quantity becomes negative.
-/

namespace FoodFlow

namespace Restaurant

/-- The loop of `reserve_stock`. -/
def deductItems : List Item → Tx db Unit
  | [] => pure ()
  | item :: items => do
    let stock ← selectStockForUpdate item.itemId
    match stock with
    | none => .throw (Err.insufficientStock (.notFound item.itemId))
    | some available =>
      if available < item.quantity then
        .throw (Err.insufficientStock (.short item.itemId item.quantity available))
      else do
        deductStock item.quantity item.itemId
        deductItems items

/-- `reserve_stock`. -/
def reserveStock (orderId : UUID) (items : List Item) : Tx db Unit := do
  deductItems items
  insertReservation orderId items

/-- The loop of `release_stock`. -/
def addItems : List Item → Tx db Unit
  | [] => pure ()
  | item :: items => do
    addStock item.quantity item.itemId
    addItems items

/-- `release_stock`. -/
def releaseStock (orderId : UUID) : Tx db Unit := do
  let row ← selectReservation orderId
  match row with
  | none => pure ()
  | some items => do
    addItems items
    deleteReservation orderId

/-! ### Changes of the stock -/

/-- No quantity is negative. -/
def NonNeg (t : Tables) : Prop := ∀ i q, t.quantity i = some q → 0 ≤ q

/-- `t'` differs from `t` in the quantities only, each of which has changed by `g`; none has
become negative. -/
structure Shifts (g : UUID → ℤ) (t t' : Tables) : Prop where
  reservations : t'.reservations = t.reservations
  quantity : ∀ i, t'.quantity i = (t.quantity i).map (· + g i)
  nonNeg : NonNeg t → NonNeg t'

theorem Shifts.refl (t : Tables) : Shifts (fun _ => 0) t t :=
  ⟨rfl, fun i => by simp, id⟩

theorem Shifts.trans {g g' : UUID → ℤ} {t t₁ t' : Tables} (h : Shifts g t t₁)
    (h' : Shifts g' t₁ t') : Shifts (fun i => g i + g' i) t t' := by
  refine ⟨h'.reservations.trans h.reservations, fun i => ?_, fun hn => h'.nonNeg (h.nonNeg hn)⟩
  rw [h'.quantity, h.quantity, Option.map_map]
  congr 1
  funext q
  simp [add_assoc]

/-- The quantities after a change of one of them. -/
theorem quantity_changeStock (t : Tables) (i j : UUID) (δ : ℤ) :
    (apply (.changeStock i δ) t).quantity j =
      (t.quantity j).map (· + if i = j then δ else 0) := by
  show ((t.stock.update (·.itemId = i) fun r =>
    { r with quantity := r.quantity + δ }).get? j).map StockRow.quantity = _
  rw [Table.get?_update, Tables.quantity, Option.map_map, Option.map_map]
  cases hr : t.stock.get? j with
  | none => rfl
  | some r =>
    have hk : r.itemId = j := Table.key_of_get? hr
    by_cases hj : i = j <;> simp [hk, hj, eq_comm]

/-- What holds of all quantities holds after a change of one of them, if it holds of the new one. -/
theorem forall_changeStock {P : ℤ → Prop} {t : Tables} {i : UUID} {δ q : ℤ}
    (hq : t.quantity i = some q) (hnew : P (q + δ))
    (hold : ∀ j q', t.quantity j = some q' → P q') (j : UUID) (q' : ℤ)
    (hq' : (tables.applyAll [.changeStock i δ] t).quantity j = some q') : P q' := by
  rw [show (tables.applyAll [.changeStock i δ] t).quantity j = _ from
    quantity_changeStock t i j δ] at hq'
  obtain ⟨q₀, hq₀, rfl⟩ := Option.map_eq_some_iff.1 hq'
  by_cases hj : i = j
  · subst hj
    obtain rfl := Option.some.inj (hq.symm.trans hq₀)
    simpa using hnew
  · simpa [hj] using hold j q₀ hq₀

/-- A single `UPDATE` of the stock. -/
theorem changeStock_ok {t : Tables} {i : UUID} {δ : ℤ} {ws : List Write}
    (h : changeStock t i δ = .ok ws) :
    Shifts (fun j => if i = j then δ else 0) t (tables.applyAll ws t) := by
  unfold changeStock at h
  split at h
  · rename_i hq
    obtain rfl := Except.ok.inj h
    refine ⟨rfl, fun j => ?_, id⟩
    show t.quantity j = _
    by_cases hj : i = j
    · subst hj; simp [hq]
    · simp [hj]
  · rename_i q hq
    split_ifs at h with h₁ h₂
    -- the row is there, and its new quantity passes the type and the `CHECK`
    obtain rfl := Except.ok.inj h
    exact ⟨rfl, fun j => quantity_changeStock t i j δ,
      fun hn => forall_changeStock hq (by simpa using h₂) hn⟩

variable {α : Type} (d : Db) (saved : List Db)

theorem eval_selectStockForUpdate (i : UUID) (k : Option ℤ → Tx db α) :
    ((selectStockForUpdate i).bind k).eval d saved = (k (d.tables.quantity i)).eval d saved :=
  rfl

theorem eval_selectReservation (o : UUID) (k : Option (List Item) → Tx db α) :
    ((selectReservation o).bind k).eval d saved =
      (k ((d.tables.reservations.get? o).map (·.items))).eval d saved :=
  rfl

theorem eval_deductStock (qty : ℤ) (i : UUID) (k : Unit → Tx db α) :
    (∃ e, ((deductStock qty i).bind k).eval d saved = .failed e) ∨
      ∃ t, Shifts (fun j => if i = j then -qty else 0) d.tables t ∧
        ((deductStock qty i).bind k).eval d saved = (k ()).eval { d with tables := t } saved := by
  have he : ((deductStock qty i).bind k).eval d saved = _ := Mail.eval_own _ _ _ _
  simp only [exec] at he
  split_ifs at he
  · exact .inl ⟨_, he⟩
  · cases hc : changeStock d.tables i (-qty) with
    | error e => rw [hc] at he; exact .inl ⟨_, he⟩
    | ok ws => rw [hc] at he; exact .inr ⟨_, changeStock_ok hc, he⟩

theorem eval_addStock (qty : ℤ) (i : UUID) (k : Unit → Tx db α) :
    (∃ e, ((addStock qty i).bind k).eval d saved = .failed e) ∨
      ∃ t, Shifts (fun j => if i = j then qty else 0) d.tables t ∧
        ((addStock qty i).bind k).eval d saved = (k ()).eval { d with tables := t } saved := by
  have he : ((addStock qty i).bind k).eval d saved = _ := Mail.eval_own _ _ _ _
  simp only [exec] at he
  split_ifs at he
  · exact .inl ⟨_, he⟩
  · cases hc : changeStock d.tables i qty with
    | error e => rw [hc] at he; exact .inl ⟨_, he⟩
    | ok ws => rw [hc] at he; exact .inr ⟨_, changeStock_ok hc, he⟩

theorem eval_insertReservation (o : UUID) (items : List Item) (k : Unit → Tx db α) :
    ((insertReservation o items).bind k).eval d saved =
      if (d.tables.reservations.get? o).isSome then
        .failed (.sql (.uniqueViolation "stock_reservations_order_id_key"))
      else (k ()).eval { d with tables := apply (.addReservation ⟨o, items⟩) d.tables } saved := by
  have he : ((insertReservation o items).bind k).eval d saved = _ := Mail.eval_own _ _ _ _
  rw [he]
  simp only [exec]
  split_ifs <;> rfl

/-! ### When the loop succeeds -/

/-- The item of the line is missing or short. -/
def lacks (item : Item) (t : Tables) : Bool :=
  match t.quantity item.itemId with
  | none => true
  | some available => decide (available < item.quantity)

/-- The line can be deducted. -/
def deducts (item : Item) (t : Tables) : Bool :=
  match t.quantity item.itemId with
  | none => false
  | some available =>
    decide (item.quantity ≤ available) && int4 item.quantity && int4 (available - item.quantity)

/-- The tables once the line has been deducted. -/
def deducted (item : Item) (t : Tables) : Tables :=
  apply (.changeStock item.itemId (-item.quantity)) t

/-- Every line can be deducted after those before it. -/
def isDeductible : List Item → Tables → Bool
  | [], _ => true
  | item :: items, t => deducts item t && isDeductible items (deducted item t)

/-- Some line is missing or short after those before it have been deducted. -/
def isShort : List Item → Tables → Bool
  | [], _ => false
  | item :: items, t => lacks item t || (deducts item t && isShort items (deducted item t))

variable {d saved} {d' : Db} {saved' : List Db} {item : Item} {items : List Item}

theorem eval_deductItems_lacks (h : lacks item d.tables) :
    ∃ x, (deductItems (item :: items)).eval d saved = .thrown (.insufficientStock x) := by
  simp only [deductItems, Tx.bind_def, eval_selectStockForUpdate]
  unfold lacks at h
  cases hq : d.tables.quantity item.itemId with
  | none => exact ⟨_, rfl⟩
  | some q =>
    rw [hq] at h
    simp only [if_pos (of_decide_eq_true h)]
    exact ⟨_, rfl⟩

theorem eval_deductItems_deducts (h : deducts item d.tables) :
    (deductItems (item :: items)).eval d saved =
      (deductItems items).eval { d with tables := deducted item d.tables } saved := by
  simp only [deductItems, Tx.bind_def, eval_selectStockForUpdate]
  unfold deducts at h
  cases hq : d.tables.quantity item.itemId with
  | none => rw [hq] at h; cases h
  | some q =>
    rw [hq] at h
    simp only [Bool.and_eq_true, decide_eq_true_eq] at h
    obtain ⟨⟨hle, h₁⟩, h₂⟩ := h
    simp only [if_neg (not_lt.2 hle)]
    have he : ((deductStock item.quantity item.itemId).bind fun _ => deductItems items).eval d saved
      = _ := Mail.eval_own _ _ _ _
    have hc : changeStock d.tables item.itemId (-item.quantity) =
        .ok [.changeStock item.itemId (-item.quantity)] := by
      rw [Int.sub_eq_add_neg] at h₂
      simp only [changeStock, hq, h₂, Bool.not_true, Bool.false_eq_true, if_false]
      rw [if_neg (by omega)]
    have hx : tables.exec (.deductStock item.quantity item.itemId) d.tables =
        .ok ((), [.changeStock item.itemId (-item.quantity)]) := by
      simp only [exec, h₁, hc, Bool.not_true, Bool.false_eq_true, if_false]
      rfl
    rw [he, hx]
    rfl

theorem eval_deductItems_else (h₁ : lacks item d.tables = false)
    (h₂ : deducts item d.tables = false) :
    ∃ e, (deductItems (item :: items)).eval d saved = .failed e := by
  simp only [deductItems, Tx.bind_def, eval_selectStockForUpdate]
  unfold lacks at h₁
  unfold deducts at h₂
  cases hq : d.tables.quantity item.itemId with
  | none => rw [hq] at h₁; cases h₁
  | some q =>
    rw [hq] at h₁ h₂
    have hle : ¬ q < item.quantity := of_decide_eq_false h₁
    simp only [if_neg hle]
    have he : ((deductStock item.quantity item.itemId).bind fun _ => deductItems items).eval d saved
      = _ := Mail.eval_own _ _ _ _
    have hx : ∃ e, tables.exec (.deductStock item.quantity item.itemId) d.tables = .error e := by
      simp only [not_lt.1 hle, decide_true, Bool.true_and, Bool.and_eq_false_iff] at h₂
      by_cases hq4 : int4 item.quantity
      · -- the quantity is in range, but what would be left is not
        have hd : int4 (q + -item.quantity) = false := by
          rw [← Int.sub_eq_add_neg]
          exact h₂.resolve_left (by simp [hq4])
        have hc : changeStock d.tables item.itemId (-item.quantity) =
            .error (.sql (.dataError "quantity")) := by
          simp only [changeStock, hq, hd, Bool.not_false, if_true]
        refine ⟨.sql (.dataError "quantity"), ?_⟩
        simp only [exec, hq4, hc, Bool.not_true, Bool.false_eq_true, if_false]
        rfl
      · refine ⟨.sql (.dataError "quantity"), ?_⟩
        simp only [exec, hq4, Bool.not_false, if_true]
    obtain ⟨e, hx⟩ := hx
    rw [he, hx]
    exact ⟨e, rfl⟩

/-- The first line is short, or the loop goes on after it, or its statements fail. -/
theorem eval_deductItems_cons (item : Item) (items : List Item) (d : Db) (saved : List Db) :
    (lacks item d.tables ∧ ∃ x, (deductItems (item :: items)).eval d saved =
      .thrown (.insufficientStock x)) ∨
    (deducts item d.tables ∧ (deductItems (item :: items)).eval d saved =
      (deductItems items).eval { d with tables := deducted item d.tables } saved) ∨
    ∃ e, (deductItems (item :: items)).eval d saved = .failed e := by
  by_cases h₁ : lacks item d.tables
  · exact .inl ⟨h₁, eval_deductItems_lacks h₁⟩
  · by_cases h₂ : deducts item d.tables
    · exact .inr (.inl ⟨h₂, eval_deductItems_deducts h₂⟩)
    · refine .inr (.inr ?_)
      exact eval_deductItems_else (Bool.eq_false_iff.2 h₁) (Bool.eq_false_iff.2 h₂)

/-- When some line is short. -/
theorem eval_deductItems_short (h : isShort items d.tables) :
    ∃ x, (deductItems items).eval d saved = .thrown (.insufficientStock x) := by
  induction items generalizing d with
  | nil => cases h
  | cons item items ih =>
    obtain h₁ | h₁ := Bool.or_eq_true_iff.1 h
    · exact eval_deductItems_lacks h₁
    · obtain ⟨h₂, h₃⟩ := Bool.and_eq_true_iff.1 h₁
      rw [eval_deductItems_deducts h₂]
      exact ih (d := { d with tables := deducted item d.tables }) h₃

theorem isDeductible_of_ok (h : (deductItems items).eval d saved = .ok () d' saved') :
    isDeductible items d.tables := by
  induction items generalizing d with
  | nil => rfl
  | cons item items ih =>
    obtain ⟨-, x, heq⟩ | ⟨hdeducts, heq⟩ | ⟨e, heq⟩ := eval_deductItems_cons item items d saved
    · rw [heq] at h
      cases h
    · rw [heq] at h
      exact Bool.and_eq_true_iff.2 ⟨hdeducts, ih h⟩
    · rw [heq] at h
      cases h

/-- When the loop raises its exception. -/
theorem deductItems_thrown {e : Err} (h : (deductItems items).eval d saved = .thrown e) :
    (∃ x, e = .insufficientStock x) ∧ isShort items d.tables := by
  induction items generalizing d with
  | nil => cases h
  | cons item items ih =>
    obtain ⟨hlacks, x, heq⟩ | ⟨hdeducts, heq⟩ | ⟨e', heq⟩ :=
      eval_deductItems_cons item items d saved
    · rw [heq] at h
      cases h
      exact ⟨⟨x, rfl⟩, Bool.or_eq_true_iff.2 (.inl hlacks)⟩
    · rw [heq] at h
      obtain ⟨hx, hs⟩ := ih h
      exact ⟨hx, Bool.or_eq_true_iff.2 (.inr (Bool.and_eq_true_iff.2 ⟨hdeducts, hs⟩))⟩
    · rw [heq] at h
      cases h

theorem quantity_deducted (t : Tables) (i : UUID) : (deducted item t).quantity i =
    (t.quantity i).map (· - if item.itemId = i then item.quantity else 0) := by
  rw [deducted, quantity_changeStock]
  congr 1
  funext q
  split_ifs <;> ring

/-- No line is short where every item is stocked and its positive quantities are covered. -/
theorem isShort_eq_false {t : Tables} (hin : ∀ item ∈ items, (t.quantity item.itemId).isSome)
    (hcov : ∀ i q, t.quantity i = some q → positiveOf i items ≤ q) : isShort items t = false := by
  induction items generalizing t with
  | nil => rfl
  | cons item items ih =>
    refine Bool.or_eq_false_iff.2 ⟨?_, Bool.and_eq_false_imp.2 fun _ => ih (fun x hx => ?_)
      fun i q hq => ?_⟩
    · -- this line asks for no more than all positive ones
      obtain ⟨q, hq⟩ := Option.isSome_iff_exists.1 (hin item List.mem_cons_self)
      have hle := hcov _ q hq
      have hpos := positiveOf_nonneg item.itemId items
      rw [positiveOf_cons, if_pos rfl] at hle
      rw [lacks, hq]
      exact decide_eq_false (by omega)
    · rw [quantity_deducted, Option.isSome_map]
      exact hin x (List.mem_cons_of_mem _ hx)
    · rw [quantity_deducted] at hq
      obtain ⟨q₀, hq₀, rfl⟩ := Option.map_eq_some_iff.1 hq
      have hle := hcov i q₀ hq₀
      rw [positiveOf_cons] at hle
      split_ifs at hle ⊢ <;> omega

/-- Every line can be added after those before it. -/
def isAddable : List Item → Tables → Bool
  | [], _ => true
  | item :: items, t => int4 item.quantity &&
    match changeStock t item.itemId item.quantity with
    | .error _ => false
    | .ok ws => isAddable items (tables.applyAll ws t)

/-- When the loop of `release_stock` returns. -/
theorem eval_addItems_ok (h : isAddable items d.tables) :
    ∃ t, (addItems items).eval d saved = .ok () { d with tables := t } saved := by
  induction items generalizing d with
  | nil => exact ⟨_, rfl⟩
  | cons item items ih =>
    obtain ⟨h₁, h₂⟩ := Bool.and_eq_true_iff.1 h
    have he : ((addStock item.quantity item.itemId).bind fun _ => addItems items).eval d saved
      = _ := Mail.eval_own _ _ _ _
    cases hc : changeStock d.tables item.itemId item.quantity with
    | error e => rw [hc] at h₂; cases h₂
    | ok ws =>
      rw [hc] at h₂
      have hx : tables.exec (.addStock item.quantity item.itemId) d.tables = .ok ((), ws) := by
        simp only [exec, h₁, hc, Bool.not_true, Bool.false_eq_true, if_false]
        rfl
      rw [hx] at he
      obtain ⟨t, ht⟩ := ih (d := { d with tables := tables.applyAll ws d.tables }) h₂
      exact ⟨t, he.trans ht⟩

/-! ### The two functions -/

theorem deductItems_ok {items : List Item} :
    ∀ {d : Db}, (deductItems items).eval d saved = .ok () d' saved' → saved' = saved ∧
      ∃ t, d' = { d with tables := t } ∧ Shifts (fun i => -totalOf i items) d.tables t ∧
        ∀ item ∈ items, (d.tables.quantity item.itemId).isSome := by
  induction items with
  | nil =>
    intro d h
    cases h
    exact ⟨rfl, _, rfl, by simpa using Shifts.refl d'.tables, by simp⟩
  | cons item items ih =>
    intro d h
    simp only [deductItems, Tx.bind_def, eval_selectStockForUpdate] at h
    cases hq : d.tables.quantity item.itemId with
    | none => rw [hq] at h; cases h
    | some q =>
      rw [hq] at h
      simp only at h
      split_ifs at h with hlt
      · cases h
      · rcases eval_deductStock d saved item.quantity item.itemId
          fun _ => deductItems items with ⟨e, he⟩ | ⟨t, ht, he⟩ <;> rw [he] at h
        · cases h
        -- the items that follow see the quantities that this one has left
        · obtain ⟨hs, t', hd, ht', hin⟩ := ih h
          refine ⟨hs, t', hd, ?_, ?_⟩
          · convert ht.trans ht' using 2 with i
            rw [totalOf_cons]
            split_ifs <;> ring
          · rintro x (_ | ⟨_, hx⟩)
            · simp [hq]
            · have := hin x hx
              rwa [ht.quantity, Option.isSome_map] at this

theorem addItems_ok {items : List Item} :
    ∀ {d : Db}, (addItems items).eval d saved = .ok () d' saved' → saved' = saved ∧
      ∃ t, d' = { d with tables := t } ∧ Shifts (fun i => totalOf i items) d.tables t := by
  induction items with
  | nil =>
    intro d h
    cases h
    exact ⟨rfl, _, rfl, by simpa using Shifts.refl d'.tables⟩
  | cons item items ih =>
    intro d h
    simp only [addItems, Tx.bind_def] at h
    rcases eval_addStock d saved item.quantity item.itemId fun _ => addItems items with
      ⟨e, he⟩ | ⟨t, ht, he⟩ <;> rw [he] at h
    · cases h
    · obtain ⟨hs, t', hd, ht'⟩ := ih h
      refine ⟨hs, t', hd, ?_⟩
      convert ht.trans ht' using 2 with i
      rw [totalOf_cons]

/-- What a reservation for the order `o` does. -/
structure Reserves (o : UUID) (items : List Item) (t t' : Tables) : Prop where
  inStock : ∀ item ∈ items, (t.quantity item.itemId).isSome
  unreserved : t.reservations.get? o = none
  reservations : t'.reservations = t.reservations.insert ⟨o, items⟩
  quantity : ∀ i, t'.quantity i = (t.quantity i).map (· - totalOf i items)
  nonNeg : NonNeg t → NonNeg t'

/-- What the release of the order `o` does when its reservation lists `items`. -/
structure Releases (o : UUID) (items : List Item) (t t' : Tables) : Prop where
  reserved : t.reservations.get? o = some ⟨o, items⟩
  reservations : t'.reservations = t.reservations.erase o
  quantity : ∀ i, t'.quantity i = (t.quantity i).map (· + totalOf i items)
  nonNeg : NonNeg t → NonNeg t'

/-- **What `reserve_stock` does when it returns.** -/
theorem reserveStock_ok {o : UUID} {items : List Item}
    (h : (reserveStock o items).eval d saved = .ok () d' saved') :
    saved' = saved ∧ isDeductible items d.tables ∧
      ∃ t, d' = { d with tables := t } ∧ Reserves o items d.tables t := by
  simp only [reserveStock, Tx.bind_def, Tx.eval_bind] at h
  cases hd : (deductItems items).eval d saved with
  | ok a d₁ saved₁ =>
    obtain ⟨rfl, t, rfl, ht, hin⟩ := deductItems_ok hd
    have hi := eval_insertReservation { d with tables := t } saved₁ o items Tx.pure
    rw [hd] at h
    change (((insertReservation o items).bind Tx.pure).eval _ _) = _ at h
    rw [hi] at h
    simp only [ht.reservations] at h
    split_ifs at h with hr
    cases h
    refine ⟨rfl, isDeductible_of_ok hd, _, rfl,
      ⟨hin, by simpa using hr, ?_, fun i => ?_, fun hn => ht.nonNeg hn⟩⟩
    · show t.reservations.insert _ = _
      rw [ht.reservations]
    · exact ht.quantity i
  | thrown e => rw [hd] at h; cases h
  | failed e => rw [hd] at h; cases h

/-- **What `release_stock` does when it returns.** -/
theorem releaseStock_ok {o : UUID}
    (h : (releaseStock o).eval d saved = .ok () d' saved') :
    saved' = saved ∧ ((d' = d ∧ d.tables.reservations.get? o = none) ∨
      ∃ items t, d' = { d with tables := t } ∧ Releases o items d.tables t) := by
  simp only [releaseStock, Tx.bind_def, eval_selectReservation] at h
  cases hr : d.tables.reservations.get? o with
  | none =>
    rw [hr] at h
    cases h
    exact ⟨rfl, .inl ⟨rfl, rfl⟩⟩
  | some r =>
    rw [hr] at h
    simp only [Option.map_some, Tx.eval_bind] at h
    obtain ⟨o', items⟩ := r
    obtain rfl : o' = o := Table.key_of_get? hr
    cases hd : (addItems items).eval d saved with
    | ok a d₁ saved₁ =>
      obtain ⟨rfl, t, rfl, ht⟩ := addItems_ok hd
      rw [hd] at h
      cases h
      refine ⟨rfl, .inr ⟨items, _, rfl, ⟨hr, ?_, ht.quantity, ht.nonNeg⟩⟩⟩
      show t.reservations.erase _ = _
      rw [ht.reservations]
    | thrown e => rw [hd] at h; cases h
    | failed e => rw [hd] at h; cases h

/-- The only exception that `reserve_stock` raises itself, and when it does. -/
theorem reserveStock_thrown {o : UUID} {items : List Item} {e : Err}
    (h : (reserveStock o items).eval d saved = .thrown e) :
    (∃ x, e = .insufficientStock x) ∧ isShort items d.tables := by
  simp only [reserveStock, Tx.bind_def, Tx.eval_bind] at h
  cases hd : (deductItems items).eval d saved with
  | ok a d₁ saved₁ =>
    -- a statement that is refused is not an exception of the program
    have hi := eval_insertReservation d₁ saved₁ o items Tx.pure
    rw [hd] at h
    change (((insertReservation o items).bind Tx.pure).eval _ _) = _ at h
    rw [hi] at h
    split_ifs at h
    cases h
  | thrown e' => rw [hd] at h; cases h; exact deductItems_thrown hd
  | failed e' => rw [hd] at h; cases h

/-! ### Their statements -/

section Uses

variable {φ : db.Stmt → Prop}

theorem uses_deductItems (hselect : ∀ i, φ (.inl (.selectStockForUpdate i)))
    (hdeduct : ∀ qty i, φ (.inl (.deductStock qty i))) (items : List Item) :
    (deductItems items).Uses φ := by
  induction items with
  | nil => trivial
  | cons item items ih =>
    refine (Tx.uses_exec (hselect _)).bind fun stock => ?_
    cases stock with
    | none => trivial
    | some available =>
      simp only
      split_ifs
      · trivial
      · exact (Tx.uses_exec (hdeduct _ _)).bind fun _ => ih

theorem uses_reserveStock {o : UUID} (hselect : ∀ i, φ (.inl (.selectStockForUpdate i)))
    (hdeduct : ∀ qty i, φ (.inl (.deductStock qty i)))
    (hinsert : φ (.inl (.insertReservation ⟨o, items⟩))) : (reserveStock o items).Uses φ :=
  (uses_deductItems hselect hdeduct items).bind fun _ => Tx.uses_exec hinsert

theorem uses_addItems (hadd : ∀ qty i, φ (.inl (.addStock qty i))) (items : List Item) :
    (addItems items).Uses φ := by
  induction items with
  | nil => trivial
  | cons item items ih => exact (Tx.uses_exec (hadd _ _)).bind fun _ => ih

theorem uses_releaseStock {o : UUID} (hselect : φ (.inl (.selectReservation o)))
    (hadd : ∀ qty i, φ (.inl (.addStock qty i))) (hdelete : φ (.inl (.deleteReservation o))) :
    (releaseStock o).Uses φ := by
  refine (Tx.uses_exec hselect).bind fun row => ?_
  cases row with
  | none => trivial
  | some items => exact (uses_addItems hadd items).bind fun _ => Tx.uses_exec hdelete

end Uses

theorem flat_reserveStock (o : UUID) (items : List Item) : (reserveStock o items).Flat :=
  (uses_reserveStock (fun _ => trivial) (fun _ _ => trivial) trivial :
    (reserveStock o items).Uses fun _ => True).flat

end Restaurant

end FoodFlow
