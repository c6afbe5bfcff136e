import FoodFlow.Restaurant.Decision
import FoodFlow.Restaurant.Conservation

/-!
# Quantities out of range

An `UPDATE` of the stock is refused when its parameter, or the quantity it leaves, is not an
`INTEGER`, or when it would leave a negative quantity.  When that happens to the lines of an order
is said here by their prefixes.

* `inRange_iff` : the loop of `reserve_stock` has no statement refused just when no line that is
  reached is out of range;
* `isAddable_iff` : the loop of `release_stock` goes through just when the order is `Returnable`;
* `run_handleTx_returnable`, `run_handleTx_out_of_range` : what follows for the handler;
* `fits_run`, `Effect.stocked` : the quantities stored are `INTEGER`s, and what is reserved is of
  items in stock.
-/

namespace FoodFlow

namespace Restaurant

variable {items : List Item} {item : Item} {t : Tables} {env : Envelope} {f : Fresh} {d d' : Db}
  {saved saved' : List Db} {o : UUID}

/-! ### The loop of `reserve_stock` -/

/-- **No statement of the loop is refused just when all lines reached are in range.** -/
theorem inRange_iff (h : NonNeg t) :
    InRange items t ↔ isShort items t ∨ isDeductible items t := by
  constructor
  · intro hr
    rw [isShort_iff h hr, isDeductible_iff h hr]
    exact (em _).symm
  · induction items generalizing t with
    | nil =>
      rintro - pre item hp
      simp at hp
    | cons item items ih =>
      intro hs pre x hp ha
      -- the first line is reached, and deducted
      have first : ∀ {rest}, Affordable (item :: rest) t → deducts item t ∧
          (isShort items (deducted item t) ∨ isDeductible items (deducted item t)) := by
        intro rest ha
        have hl := ((affordable_cons h).1 ha).1
        rw [isShort, isDeductible, hl, Bool.false_or, Bool.and_eq_true, Bool.and_eq_true] at hs
        exact hs.elim (fun hs => ⟨hs.1, .inl hs.2⟩) fun hs => ⟨hs.1, .inr hs.2⟩
      cases pre with
      | nil =>
        obtain ⟨rfl, -⟩ := List.cons_prefix_cons.1 hp
        have hd := (first ha).1
        unfold deducts at hd
        refine ⟨?_, fun q hq => ?_⟩
        · obtain ⟨q, hq, -⟩ := ha x List.mem_cons_self
          rw [hq] at hd
          simp only [Bool.and_eq_true] at hd
          exact hd.1.2
        · rw [hq] at hd
          simp only [Bool.and_eq_true] at hd
          simpa using hd.2
      | cons y pre =>
        obtain ⟨rfl, hp'⟩ := List.cons_prefix_cons.1 hp
        obtain ⟨hl, ha'⟩ := (affordable_cons h).1 ha
        obtain ⟨hqty, hleft⟩ := ih (nonNeg_deducted h hl) (first ha).2 pre x hp' ha'
        refine ⟨hqty, fun q hq => ?_⟩
        have := hleft _ (by rw [quantity_deducted, hq]; rfl)
        rwa [List.cons_append, totalOf_cons, ← sub_sub]

/-! ### The loop of `release_stock` -/

/-- Every line can be added after those before it: its quantity is an `INTEGER`, and so is what it
leaves, which is not negative. -/
def Returnable (items : List Item) (t : Tables) : Prop :=
  ∀ pre item, pre ++ [item] <+: items → int4 item.quantity ∧
    ∀ q, t.quantity item.itemId = some q →
      int4 (q + totalOf item.itemId (pre ++ [item])) ∧
        0 ≤ q + totalOf item.itemId (pre ++ [item])

theorem Returnable.congr {t' : Tables} (h : ∀ i, t.quantity i = t'.quantity i) :
    Returnable items t ↔ Returnable items t' := by
  simp only [Returnable, h]

theorem isAddable_iff : isAddable items t ↔ Returnable items t := by
  induction items generalizing t with
  | nil =>
    refine ⟨fun _ pre item hp => ?_, fun _ => rfl⟩
    simp at hp
  | cons item items ih =>
    rw [isAddable, Bool.and_eq_true]
    -- the first line, and the others after it
    have hcons : Returnable (item :: items) t ↔ (int4 item.quantity ∧
        ∀ q, t.quantity item.itemId = some q → int4 (q + item.quantity) ∧ 0 ≤ q + item.quantity) ∧
        Returnable items (apply (.changeStock item.itemId item.quantity) t) := by
      constructor
      · intro h
        refine ⟨by simpa using h [] item ⟨items, rfl⟩, fun pre x hp => ?_⟩
        obtain ⟨hqty, hleft⟩ := h (item :: pre) x (List.cons_prefix_cons.2 ⟨rfl, hp⟩)
        refine ⟨hqty, fun q hq => ?_⟩
        rw [quantity_changeStock] at hq
        obtain ⟨q₀, hq₀, rfl⟩ := Option.map_eq_some_iff.1 hq
        have := hleft q₀ hq₀
        rwa [List.cons_append, totalOf_cons, ← add_assoc] at this
      · rintro ⟨hfirst, h⟩ pre x hp
        cases pre with
        | nil =>
          obtain ⟨rfl, -⟩ := List.cons_prefix_cons.1 hp
          simpa using hfirst
        | cons y pre =>
          obtain ⟨rfl, hp'⟩ := List.cons_prefix_cons.1 hp
          obtain ⟨hqty, hleft⟩ := h pre x hp'
          refine ⟨hqty, fun q hq => ?_⟩
          have := hleft _ (by rw [quantity_changeStock, hq]; rfl)
          rwa [List.cons_append, totalOf_cons, ← add_assoc]
    rw [hcons, ← ih, and_assoc]
    refine and_congr_right fun _ => ?_
    cases hq : t.quantity item.itemId with
    | none =>
      -- the `UPDATE` finds no row
      have hsame : isAddable items (apply (.changeStock item.itemId item.quantity) t) ↔
          isAddable items t := by
        rw [ih, ih]
        refine Returnable.congr fun i => ?_
        rw [quantity_changeStock]
        by_cases hi : item.itemId = i
        · rw [← hi, hq]
          rfl
        · simp [hi]
      rw [hsame]
      simp only [changeStock, hq, reduceCtorEq, false_implies, implies_true, true_and]
      rfl
    | some q =>
      by_cases h₁ : int4 (q + item.quantity)
      · by_cases h₂ : q + item.quantity < 0
        · simp [changeStock, hq, h₁, h₂]
        · simp only [changeStock, hq, h₁, if_neg h₂, Option.some.injEq, forall_eq', not_lt.1 h₂,
            Bool.not_true, Bool.false_eq_true, if_false, true_and]
          rfl
      · simp [changeStock, hq, h₁]

theorem isAddable_of_ok (h : (addItems items).eval d saved = .ok () d' saved') :
    isAddable items d.tables := by
  induction items generalizing d with
  | nil => rfl
  | cons item items ih =>
    have he : (addItems (item :: items)).eval d saved = _ :=
      Mail.eval_own (D := tables) (Stmt.addStock item.quantity item.itemId)
        (fun _ => addItems items) d saved
    rw [h] at he
    simp only [exec] at he
    by_cases hqty : int4 item.quantity
    · simp only [hqty, Bool.not_true, Bool.false_eq_true, if_false] at he
      cases hc : changeStock d.tables item.itemId item.quantity with
      | error e => rw [hc] at he; cases he
      | ok ws =>
        rw [hc] at he
        rw [isAddable, Bool.and_eq_true, hc]
        exact ⟨hqty, ih he.symm⟩
    · rw [Bool.not_eq_true] at hqty
      simp only [hqty, Bool.not_false, if_true] at he
      cases he

/-- The loop raises nothing itself. -/
theorem addItems_not_thrown {e : Err} : (addItems items).eval d saved ≠ .thrown e := by
  induction items generalizing d with
  | nil => rintro ⟨⟩
  | cons item items ih =>
    rcases eval_addStock d saved item.quantity item.itemId fun _ => addItems items with
      ⟨x, hx⟩ | ⟨t, -, hx⟩ <;> rw [addItems, Tx.bind_def, hx]
    · rintro ⟨⟩
    · exact ih

/-- `release_stock` returns, when no `UPDATE` is refused. -/
theorem eval_releaseStock (h : ∀ r, d.tables.reservations.get? o = some r →
    isAddable r.items d.tables) (saved : List Db) :
    ∃ t, (releaseStock o).eval d saved = .ok () { d with tables := t } saved := by
  rw [releaseStock, Tx.bind_def, eval_selectReservation]
  cases hr : d.tables.reservations.get? o with
  | none => exact ⟨_, rfl⟩
  | some r =>
    obtain ⟨t, ht⟩ : ∃ t, (addItems r.items).eval d saved = .ok () { d with tables := t } saved :=
      eval_addItems_ok (h r hr)
    refine ⟨apply (.delReservation o) t, ?_⟩
    simp only [Option.map_some, Tx.bind_def]
    rw [Tx.eval_bind, ht]
    rfl

/-- A release one of whose `UPDATE`s is refused. -/
theorem eval_releaseStock_else (hres : d.tables.reservations.get? o = some ⟨o, items⟩)
    (h : ¬ isAddable items d.tables) : ∃ e, (releaseStock o).eval d saved = .failed e := by
  rw [releaseStock, Tx.bind_def, eval_selectReservation, hres]
  simp only [Option.map_some, Tx.bind_def]
  rw [Tx.eval_bind]
  cases he : (addItems items).eval d saved with
  | ok a d' saved' => exact absurd (isAddable_of_ok he) h
  | thrown e => exact absurd he addItems_not_thrown
  | failed e => exact ⟨e, rfl⟩

/-! ### The handler -/

/-- The handler of `stock.release`, once the ledger has been looked up. -/
theorem eval_handleTx_release (hty : env.eventType = .stockRelease)
    (ho : env.payload.orderId = some o) (hnew : env.eventId ∉ d.mail.processed) :
    (handleTx env f).eval d [] = ((releaseStock o).bind fun _ => markProcessed env).eval d [] := by
  rw [handleTx, Tx.bind_def, Mail.eval_selectProcessed, if_neg (by simpa using hnew), handleBody]
  simp only [ho, hty, Tx.bind_def]

/-- **A release whose lines can all be added back commits.** -/
theorem run_handleTx_returnable (hty : env.eventType = .stockRelease)
    (ho : env.payload.orderId = some o) (hnew : env.eventId ∉ d.mail.processed)
    (hres : d.tables.reservations.get? o = some ⟨o, items⟩) (h : Returnable items d.tables) :
    ∃ t, (handleTx env f).run d = .ok (returned env, ⟨t, marked env d.mail⟩) ∧
      Releases o items d.tables t := by
  obtain ⟨t, ht⟩ := eval_releaseStock (d := d) (o := o) (fun r hr => by
    rw [hres] at hr
    obtain rfl := Option.some.inj hr
    exact isAddable_iff.2 h) []
  refine ⟨t, Tx.run_eq_ok.2 ⟨[], ?_⟩, ?_⟩
  · rw [eval_handleTx_release hty ho hnew, Tx.eval_bind, ht]
    exact eval_markProcessed (d := { d with tables := t }) hnew
  · obtain ⟨-, ⟨-, hnone⟩ | ⟨items', t', he, hrel⟩⟩ := releaseStock_ok ht
    · rw [hres] at hnone
      cases hnone
    · cases he
      have := hrel.reserved
      rw [hres] at this
      cases this
      exact hrel

/-- **Any other release is rolled back.** -/
theorem run_handleTx_not_returnable (hty : env.eventType = .stockRelease)
    (ho : env.payload.orderId = some o) (hnew : env.eventId ∉ d.mail.processed)
    (hres : d.tables.reservations.get? o = some ⟨o, items⟩) (h : ¬ Returnable items d.tables) :
    ∃ x, (handleTx env f).run d = .error x := by
  rw [← isAddable_iff] at h
  obtain ⟨x, hx⟩ : ∃ x, (releaseStock o).eval d [] = .failed x := eval_releaseStock_else hres h
  exact ⟨x, by rw [Tx.run, eval_handleTx_release hty ho hnew, Tx.eval_bind, hx]; rfl⟩

/-- **An order one of whose lines is out of range when it is reached is rolled back.** -/
theorem run_handleTx_out_of_range (hty : env.eventType = .orderPlaced)
    (ho : env.payload.orderId = some o) (hitems : env.payload.items = some items)
    (hnew : env.eventId ∉ d.mail.processed) (hn : NonNeg d.tables)
    (h : ¬ InRange items d.tables) : ∃ x, (handleTx env f).run d = .error x := by
  rw [inRange_iff hn, not_or] at h
  obtain ⟨x, hx⟩ : ∃ x, (reserveStock o items).eval d [] = .failed x :=
    eval_reserveStock_else h.1 h.2
  refine ⟨x, ?_⟩
  rw [Tx.run, handleTx, Tx.bind_def, Mail.eval_selectProcessed, if_neg (by simpa using hnew),
    handleBody]
  simp only [ho, hty, hitems]
  rw [Tx.eval_nested (flat_reserveStock o items), hx]
  rfl

/-! ### What is stored -/

theorem fits_changeStock {i : UUID} {δ : ℤ} {ws : List Write} (h : changeStock t i δ = .ok ws)
    (ht : Fits t) : Fits (tables.applyAll ws t) := by
  unfold changeStock at h
  split at h
  · obtain rfl := Except.ok.inj h
    exact ht
  · rename_i q hq
    split_ifs at h with h₁ h₂
    obtain rfl := Except.ok.inj h
    exact forall_changeStock hq (by simpa using h₁) ht

theorem fits_exec {q : Stmt} {r : q.Res} {ws : List Write} (h : exec q t = .ok (r, ws))
    (ht : Fits t) : Fits (tables.applyAll ws t) := by
  -- an `UPDATE` of the stock, or a statement that leaves it alone
  have change : ∀ {qty δ : ℤ} {i : UUID} {r : Unit}, (if !int4 qty then
      .error (.sql (.dataError "quantity")) else (changeStock t i δ).map fun ws => ((), ws)) =
        Except.ok (r, ws) → Fits (tables.applyAll ws t) := by
    intro qty δ i r h
    split_ifs at h
    cases hc : changeStock t i δ with
    | error e => rw [hc] at h; cases h
    | ok ws' =>
      rw [hc] at h
      cases h
      exact fits_changeStock hc ht
  cases q with
  | selectStockForUpdate i => cases h; exact ht
  | deductStock qty i => exact change h
  | addStock qty i => exact change h
  | insertReservation res =>
    simp only [exec] at h
    split_ifs at h
    cases h
    exact ht
  | selectReservation o => cases h; exact ht
  | deleteReservation o => cases h; exact ht

/-- **A transaction stores `INTEGER`s only.** -/
theorem fits_run {α : Type} {m : Tx db α} {a : α} (h : m.run d = .ok (a, d'))
    (hd : Fits d.tables) : Fits d'.tables := by
  refine Tx.run_preserves (I := fun d : Db => Fits d.tables) (fun q d r ws hx hd => ?_) h hd
  cases q with
  | inl q =>
    cases hq : exec q d.tables with
    | error e => simp only [hq] at hx; cases hx
    | ok v =>
      simp only [hq] at hx
      cases hx
      rw [Mail.applyAll_inl]
      exact fits_exec hq hd
  | inr q =>
    cases hq : Mail.exec q d.mail with
    | error e => simp only [hq] at hx; cases hx
    | ok v =>
      simp only [hq] at hx
      cases hx
      -- outbox and ledger only
      have other : ∀ (ws : List Mail.Write) (d : Db),
          (db.applyAll (ws.map .inr) d).tables = d.tables := by
        intro ws
        induction ws with
        | nil => exact fun _ => rfl
        | cons w ws ih => exact fun d => ih _
      rwa [other]

theorem fits_migrate (h : Fits d.tables) : Fits (migrate d).tables := by
  have insert : ∀ (rs : List StockRow) (s : Table StockRow.itemId),
      (∀ r ∈ rs, int4 r.quantity) → (∀ r ∈ s.rows, int4 r.quantity) →
        ∀ r ∈ (rs.foldl Table.insert s).rows, int4 r.quantity := by
    intro rs
    induction rs with
    | nil => exact fun s _ hs => hs
    | cons r rs ih =>
      intro s hrs hs
      refine ih _ (fun x hx => hrs x (List.mem_cons_of_mem _ hx)) fun x hx => ?_
      rcases Table.mem_rows_insert.1 hx with hx | ⟨rfl, -⟩
      · exact hs x hx
      · exact hrs x List.mem_cons_self
  have hseed : ∀ r ∈ seedStock, int4 r.quantity := by decide +kernel
  intro i q hq
  rw [Tables.quantity, stock_migrate] at hq
  obtain ⟨r, hr, rfl⟩ := Option.map_eq_some_iff.1 hq
  refine insert _ _ hseed (fun x hx => ?_) r (Table.mem_of_get? hr)
  exact h x.itemId x.quantity (by rw [Tables.quantity, Table.get?_of_mem hx]; rfl)

/-- What is reserved is of items in stock. -/
def Stocked (t : Tables) : Prop :=
  ∀ res ∈ t.reservations.rows, ∀ item ∈ res.items, (t.quantity item.itemId).isSome

theorem Effect.stocked (he : Effect env f d d') (h : Stocked d.tables) : Stocked d'.tables := by
  cases he with
  | duplicate _ => exact h
  | unknown _ _ => exact h
  | reserved _ _ _ _ hr _ =>
    intro res hres item hitem
    show ((Tables.quantity _ _)).isSome
    rw [hr.quantity, Option.isSome_map]
    rw [hr.reservations, Table.mem_rows_insert] at hres
    rcases hres with hres | ⟨rfl, -⟩
    · exact h res hres item hitem
    · exact hr.inStock item hitem
  | rejected _ _ _ _ _ _ => exact h
  | released _ _ _ hr =>
    intro res hres item hitem
    show ((Tables.quantity _ _)).isSome
    rw [hr.quantity, Option.isSome_map]
    rw [hr.reservations, Table.mem_rows_erase] at hres
    exact h res hres.1 item hitem
  | notFound _ _ _ _ => exact h

theorem stocked_migrate (h : Stocked d.tables) : Stocked (migrate d).tables := by
  intro res hres item hitem
  rw [Tables.quantity, stock_migrate]
  rw [migrate] at hres
  exact quantity_foldl_insert (.inl (h res hres item hitem))

end Restaurant

end FoodFlow
