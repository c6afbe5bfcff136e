import FoodFlow.Restaurant.Consumers

/-!
# The decision on an order

`reserve_stock` checks and deducts line after line, and the same item may be listed several times.
What it decides is said here without the loop: an order is `Affordable` when on no prefix of its
lines more of an item is asked for than there is.

* `isDeductible_iff`, `isShort_iff` : the loop decides just that, as long as no quantity leaves the
  range of `INTEGER`;
* `placed_outcome` : all that the handler of `order.placed` does.

For quantities that are not negative the totals alone decide, so the order of the lines, and
whether lines of the same item are merged, makes no difference (`Regroups`).
-/

namespace FoodFlow

namespace Restaurant

/-- Every item listed is stocked, and the lines of no prefix ask for more of it than there is. -/
def Affordable (items : List Item) (t : Tables) : Prop :=
  ∀ item ∈ items, ∃ q, t.quantity item.itemId = some q ∧
    ∀ pre, pre <+: items → totalOf item.itemId pre ≤ q

/-- Every quantity is an `INTEGER`. -/
def Fits (t : Tables) : Prop := ∀ i q, t.quantity i = some q → int4 q

/-- No line that is reached has a quantity, or leaves one, outside `INTEGER`. -/
def InRange (items : List Item) (t : Tables) : Prop :=
  ∀ pre item, pre ++ [item] <+: items → Affordable (pre ++ [item]) t →
    int4 item.quantity ∧ ∀ q, t.quantity item.itemId = some q →
      int4 (q - totalOf item.itemId (pre ++ [item]))

/-- The tables after a reservation. -/
def Tables.reserve (t : Tables) (o : UUID) (items : List Item) : Tables where
  stock := t.stock.update (fun _ => true) fun r =>
    { r with quantity := r.quantity - totalOf r.itemId items }
  reservations := t.reservations.insert ⟨o, items⟩

/-! ### The loop, line by line -/

variable {items items' : List Item} {item : Item} {t : Tables}

theorem lacks_eq_false : lacks item t = false ↔
    ∃ q, t.quantity item.itemId = some q ∧ item.quantity ≤ q := by
  unfold lacks
  cases t.quantity item.itemId with
  | none => simp
  | some q => simp

theorem nonNeg_deducted (h : NonNeg t) (hl : lacks item t = false) :
    NonNeg (deducted item t) := by
  intro i q hq
  rw [quantity_deducted] at hq
  obtain ⟨q₀, hq₀, rfl⟩ := Option.map_eq_some_iff.1 hq
  have hpos := h i q₀ hq₀
  split_ifs with hi
  · obtain ⟨q, hq', hle⟩ := lacks_eq_false.1 hl
    subst hi
    obtain rfl := Option.some.inj (hq'.symm.trans hq₀)
    omega
  · omega

/-- The first line can be deducted, and the others can after it. -/
theorem affordable_cons (h : NonNeg t) : Affordable (item :: items) t ↔
    lacks item t = false ∧ Affordable items (deducted item t) := by
  constructor
  · intro ha
    refine ⟨?_, fun x hx => ?_⟩
    · obtain ⟨q, hq, hle⟩ := ha item List.mem_cons_self
      have hfirst := hle [item] ⟨items, rfl⟩
      rw [totalOf_cons, if_pos rfl, totalOf_nil, add_zero] at hfirst
      exact lacks_eq_false.2 ⟨q, hq, hfirst⟩
    · obtain ⟨q, hq, hle⟩ := ha x (List.mem_cons_of_mem _ hx)
      refine ⟨q - if item.itemId = x.itemId then item.quantity else 0,
        by rw [quantity_deducted, hq]; rfl, fun pre hpre => ?_⟩
      have hcons := hle (item :: pre) (List.cons_prefix_cons.2 ⟨rfl, hpre⟩)
      rw [totalOf_cons] at hcons
      split_ifs at hcons ⊢ <;> omega
  · rintro ⟨hl, ha⟩ x hx
    obtain ⟨q, hq, hle⟩ : ∃ q, t.quantity x.itemId = some q ∧
        ∀ pre, pre <+: items → (if item.itemId = x.itemId then item.quantity else 0) +
          totalOf x.itemId pre ≤ q := by
      by_cases hlisted : ∃ y ∈ items, y.itemId = x.itemId
      · obtain ⟨y, hy, hyx⟩ := hlisted
        obtain ⟨q, hq, hle⟩ := ha y hy
        rw [quantity_deducted, hyx] at hq
        obtain ⟨q₀, hq₀, rfl⟩ := Option.map_eq_some_iff.1 hq
        refine ⟨q₀, hq₀, fun pre hpre => ?_⟩
        have := hle pre hpre
        rw [hyx] at this
        omega
      · -- only the first line lists the item
        have hxi : x = item := (List.mem_cons.1 hx).resolve_right fun hm => hlisted ⟨x, hm, rfl⟩
        subst hxi
        obtain ⟨q, hq, hle⟩ := lacks_eq_false.1 hl
        refine ⟨q, hq, fun pre hpre => ?_⟩
        rw [if_pos rfl, totalOf_eq_zero fun y hy he => hlisted ⟨y, hpre.subset hy, he⟩, add_zero]
        exact hle
    refine ⟨q, hq, fun pre hpre => ?_⟩
    cases pre with
    | nil => exact h _ _ hq
    | cons y pre =>
      obtain ⟨rfl, hpre'⟩ := List.cons_prefix_cons.1 hpre
      rw [totalOf_cons]
      exact hle pre hpre'

/-- A line within the stock is deducted, and those after it are in range again. -/
theorem inRange_cons (h : NonNeg t) (hr : InRange (item :: items) t) (hl : lacks item t = false) :
    deducts item t ∧ InRange items (deducted item t) := by
  constructor
  · have hone : Affordable [item] t := (affordable_cons h).2 ⟨hl, fun x hx => by cases hx⟩
    obtain ⟨hqty, hleft⟩ := hr [] item ⟨items, rfl⟩ hone
    obtain ⟨q, hq, hle⟩ := lacks_eq_false.1 hl
    have hleft' := hleft q hq
    rw [List.nil_append, totalOf_cons, if_pos rfl, totalOf_nil, add_zero] at hleft'
    unfold deducts
    rw [hq]
    simp only [hle, hqty, hleft', decide_true, Bool.and_self]
  · intro pre x hpre ha
    have hcons : Affordable (item :: (pre ++ [x])) t := (affordable_cons h).2 ⟨hl, ha⟩
    obtain ⟨hqty, hleft⟩ := hr (item :: pre) x (List.cons_prefix_cons.2 ⟨rfl, hpre⟩) hcons
    refine ⟨hqty, fun q hq => ?_⟩
    rw [quantity_deducted] at hq
    obtain ⟨q₀, hq₀, rfl⟩ := Option.map_eq_some_iff.1 hq
    have := hleft q₀ hq₀
    rwa [List.cons_append, totalOf_cons, ← sub_sub] at this

/-- Where no quantity is negative, all quantities stay in the range of those in stock. -/
theorem inRange_of_nonneg (hs : Fits t)
    (hn : ∀ item ∈ items, 0 ≤ item.quantity) : InRange items t := by
  intro pre item hpre ha
  have hmem : ∀ x ∈ pre ++ [item], 0 ≤ x.quantity := fun x hx => hn x (hpre.subset hx)
  have hitem : item ∈ pre ++ [item] := List.mem_append_right _ (List.mem_singleton_self _)
  obtain ⟨q, hq, hle⟩ := ha item hitem
  have htotal := hle _ (List.prefix_refl _)
  have hbefore : 0 ≤ totalOf item.itemId pre :=
    totalOf_nonneg fun x hx => hmem x (List.mem_append_left _ hx)
  have hqty := hmem item hitem
  have hrange := hs _ q hq
  rw [totalOf_append, totalOf_cons, if_pos rfl, totalOf_nil, add_zero] at htotal ⊢
  simp only [int4, decide_eq_true_eq] at hrange ⊢
  refine ⟨by omega, fun q' hq' => ?_⟩
  obtain rfl := Option.some.inj (hq.symm.trans hq')
  omega

/-- **The loop gets through just when the order is affordable.** -/
theorem isDeductible_iff (h : NonNeg t) (hr : InRange items t) :
    isDeductible items t ↔ Affordable items t := by
  induction items generalizing t with
  | nil => exact ⟨fun _ x hx => (by cases hx), fun _ => rfl⟩
  | cons item items ih =>
    rw [isDeductible, Bool.and_eq_true, affordable_cons h]
    by_cases hl : lacks item t = false
    · obtain ⟨hd, hr'⟩ := inRange_cons h hr hl
      rw [ih (nonNeg_deducted h hl) hr']
      simp only [hd, hl]
    · refine ⟨fun ⟨hd, _⟩ => absurd ?_ hl, fun ⟨hl', _⟩ => absurd hl' hl⟩
      unfold deducts at hd
      rw [lacks_eq_false]
      cases hq : t.quantity item.itemId with
      | none => rw [hq] at hd; cases hd
      | some q =>
        rw [hq] at hd
        simp only [Bool.and_eq_true, decide_eq_true_eq] at hd
        exact ⟨q, rfl, hd.1.1⟩

/-- **The loop raises its exception just when the order is not affordable.** -/
theorem isShort_iff (h : NonNeg t) (hr : InRange items t) :
    isShort items t ↔ ¬ Affordable items t := by
  induction items generalizing t with
  | nil => exact ⟨fun hs => (by cases hs), fun ha => absurd (fun x hx => (by cases hx)) ha⟩
  | cons item items ih =>
    rw [isShort, Bool.or_eq_true, Bool.and_eq_true, affordable_cons h]
    by_cases hl : lacks item t = false
    · obtain ⟨hd, hr'⟩ := inRange_cons h hr hl
      rw [ih (nonNeg_deducted h hl) hr']
      simp [hd, hl]
    · simp [hl]

/-! ### The tables after the loop -/

/-- The tables once all lines have been deducted. -/
def deductedAll : List Item → Tables → Tables
  | [], t => t
  | item :: items, t => deductedAll items (deducted item t)

theorem reservations_deductedAll : (deductedAll items t).reservations = t.reservations := by
  induction items generalizing t with
  | nil => rfl
  | cons item items ih => exact ih

theorem stock_deductedAll : (deductedAll items t).stock =
    t.stock.update (fun _ => true) fun r =>
      { r with quantity := r.quantity - totalOf r.itemId items } := by
  induction items generalizing t with
  | nil => exact Table.ext (by simp [Table.update, deductedAll])
  | cons item items ih =>
    rw [deductedAll, ih]
    refine Table.ext ?_
    show List.map _ (List.map _ t.stock.rows) = List.map _ t.stock.rows
    rw [List.map_map]
    refine List.map_congr_left fun r _ => ?_
    by_cases hr : r.itemId = item.itemId
    · simp [hr]
      omega
    · simp [hr, Ne.symm hr]

variable {env : Envelope} {f : Fresh} {d : Db} {saved : List Db} {o : UUID}

theorem eval_deductItems (h : isDeductible items d.tables) : (deductItems items).eval d saved =
    .ok () { d with tables := deductedAll items d.tables } saved := by
  induction items generalizing d with
  | nil => rfl
  | cons item items ih =>
    obtain ⟨h₁, h₂⟩ := Bool.and_eq_true_iff.1 h
    rw [eval_deductItems_deducts h₁]
    exact ih (d := { d with tables := deducted item d.tables }) h₂

/-- A reservation that goes through. -/
theorem eval_reserveStock_deductible (h : isDeductible items d.tables)
    (hfree : d.tables.reservations.get? o = none) : (reserveStock o items).eval d saved =
      .ok () { d with tables := d.tables.reserve o items } saved := by
  have hi := eval_insertReservation { d with tables := deductedAll items d.tables } saved o items
    Tx.pure
  rw [reservations_deductedAll, hfree] at hi
  simp only [reserveStock, Tx.bind_def, Tx.eval_bind, eval_deductItems h]
  refine hi.trans ?_
  simp only [Option.isSome_none, Bool.false_eq_true, if_false, Tx.eval, Tables.reserve,
    ← stock_deductedAll]
  rw [show d.tables.reservations = (deductedAll items d.tables).reservations from
    reservations_deductedAll.symm]
  rfl

/-- A reservation that is refused. -/
theorem eval_reserveStock_short (h : isShort items d.tables) :
    ∃ x, (reserveStock o items).eval d saved = .thrown (.insufficientStock x) := by
  obtain ⟨x, hx⟩ : ∃ x, (deductItems items).eval d saved = .thrown (.insufficientStock x) :=
    eval_deductItems_short h
  refine ⟨x, ?_⟩
  rw [reserveStock, Tx.bind_def, Tx.eval_bind, hx]

/-- The outcome of `reserve_stock`, when no `UPDATE` is refused. -/
theorem eval_reserveStock (hs : isShort items d.tables || isDeductible items d.tables)
    (saved : List Db) :
    (∃ e, (reserveStock o items).eval d saved = .thrown (.insufficientStock e)) ∨
      (d.tables.reservations.get? o).isSome ∨
      ∃ t, (reserveStock o items).eval d saved = .ok () { d with tables := t } saved := by
  obtain hs | hs := Bool.or_eq_true_iff.1 hs
  · exact .inl (eval_reserveStock_short hs)
  · cases hr : d.tables.reservations.get? o with
    | some r => exact .inr (.inl rfl)
    | none => exact .inr (.inr ⟨_, eval_reserveStock_deductible hs hr⟩)

/-- A reservation one of whose `UPDATE`s is refused. -/
theorem eval_reserveStock_else (hs : ¬ isShort items d.tables)
    (hd : ¬ isDeductible items d.tables) :
    ∃ e, (reserveStock o items).eval d saved = .failed e := by
  rw [reserveStock, Tx.bind_def, Tx.eval_bind]
  cases he : (deductItems items).eval d saved with
  | ok a d' saved' => exact absurd (isDeductible_of_ok he) hd
  | thrown e => exact absurd (deductItems_thrown he).2 hs
  | failed e => exact ⟨e, rfl⟩

/-! ### Regrouping the lines -/

/-- The lines `items'` are those of `items` in another order, or with lines of the same item
merged or split. -/
inductive Regroups : List Item → List Item → Prop
  | perm {items items' : List Item} : items.Perm items' → Regroups items items'
  | merge (pre : List Item) (a : Item) (mid : List Item) (b : Item) (post : List Item) :
      a.itemId = b.itemId → Regroups (pre ++ a :: mid ++ b :: post)
        (pre ++ { a with quantity := a.quantity + b.quantity } :: mid ++ post)
  | symm {items items' : List Item} : Regroups items items' → Regroups items' items
  | trans {items items' items'' : List Item} :
      Regroups items items' → Regroups items' items'' → Regroups items items''

theorem Regroups.totalOf_eq (h : Regroups items items') (i : UUID) :
    totalOf i items = totalOf i items' := by
  induction h with
  | perm hp => exact (hp.map _).sum_eq
  | merge pre a mid b post hab =>
    simp only [totalOf_append, totalOf_cons, hab]
    split_ifs <;> ring
  | symm _ ih => exact ih.symm
  | trans _ _ ih ih' => exact ih.trans ih'

theorem Regroups.listed (h : Regroups items items') (i : UUID) :
    i ∈ items.map Item.itemId ↔ i ∈ items'.map Item.itemId := by
  induction h with
  | perm hp => exact (hp.map _).mem_iff
  | merge pre a mid b post hab =>
    simp only [List.map_append, List.map_cons, List.mem_append, List.mem_cons, hab]
    tauto
  | symm _ ih => exact ih.symm
  | trans _ _ ih ih' => exact ih.trans ih'

/-- Where no quantity is negative, the totals decide. -/
theorem affordable_iff_totals (h : ∀ item ∈ items, 0 ≤ item.quantity) : Affordable items t ↔
    ∀ i ∈ items.map Item.itemId, ∃ q, t.quantity i = some q ∧ totalOf i items ≤ q := by
  rw [List.forall_mem_map]
  refine forall₂_congr fun x _ => exists_congr fun q => and_congr_right fun _ => ?_
  exact ⟨fun hle => hle items (List.prefix_refl _),
    fun hle pre hpre => (totalOf_prefix_le hpre h).trans hle⟩

/-- **Regrouping the lines changes neither the decision nor the stock that is left.** -/
theorem Regroups.affordable_iff (h : Regroups items items')
    (hn : ∀ item ∈ items, 0 ≤ item.quantity) (hn' : ∀ item ∈ items', 0 ≤ item.quantity) :
    Affordable items t ↔ Affordable items' t := by
  rw [affordable_iff_totals hn, affordable_iff_totals hn']
  simp only [h.listed, h.totalOf_eq]

theorem Regroups.stock_reserve (h : Regroups items items') (o : UUID) :
    (t.reserve o items).stock = (t.reserve o items').stock := by
  simp only [Tables.reserve, h.totalOf_eq]

/-! ### The handler -/

/-- An `order.placed` about the order `o` with the lines given, which can be handled: its event is
not in the ledger, the order has no reservation, no quantity overflows, and the id drawn for the
outbox row is new. -/
structure Handles (env : Envelope) (o : UUID) (items : List Item) (f : Fresh) (d : Db) : Prop where
  eventType : env.eventType = .orderPlaced
  orderId : env.payload.orderId = some o
  listed : env.payload.items = some items
  unprocessed : env.eventId ∉ d.mail.processed
  unreserved : d.tables.reservations.get? o = none
  inRange : InRange items d.tables
  freshRow : d.FreshRow f

/-- The handler, once the ledger has been looked up. -/
theorem eval_handleTx_placed (h : Handles env o items f d) : (handleTx env f).eval d [] =
    match (reserveStock o items).eval d [] with
    | .ok _ d' _ => (publishAndMark env .stockReserved o env.payload f).eval d' []
    | .thrown (.insufficientStock e) => (publishAndMark env .stockRejected o
        { orderId := some o, reason := some e.str } f).eval d []
    | .thrown e => .thrown e
    | .failed e => .failed e := by
  rw [handleTx, Tx.bind_def, Mail.eval_selectProcessed, if_neg (by simpa using h.unprocessed),
    handleBody]
  simp only [h.orderId, h.eventType, h.listed]
  rw [Tx.eval_nested (flat_reserveStock o items)]
  cases hr : (reserveStock o items).eval d [] with
  | ok a d' saved => rw [(reserveStock_ok hr).1]
  | thrown e => cases e <;> rfl
  | failed e => rfl

/-- The database after the order `o` has been reserved. -/
def reservedDb (env : Envelope) (o : UUID) (items : List Item) (f : Fresh) (d : Db) : Db :=
  ⟨d.tables.reserve o items,
    marked env (Mail.apply (.addOutbox (outRow .stockReserved o env.payload f)) d.mail)⟩

/-- The database after the order `o` has been rejected. -/
def rejectedDb (env : Envelope) (o : UUID) (reason : String) (f : Fresh) (d : Db) : Db :=
  ⟨d.tables, marked env (Mail.apply (.addOutbox
    (outRow .stockRejected o { orderId := some o, reason := some reason } f)) d.mail)⟩

theorem run_handleTx_affordable (h : Handles env o items f d) (hn : NonNeg d.tables)
    (ha : Affordable items d.tables) :
    (handleTx env f).run d = .ok (returned env, reservedDb env o items f d) := by
  refine Tx.run_eq_ok.2 ⟨[], ?_⟩
  rw [eval_handleTx_placed h,
    eval_reserveStock_deductible ((isDeductible_iff hn h.inRange).2 ha) h.unreserved]
  exact eval_publishAndMark (d := { d with tables := d.tables.reserve o items })
    h.unprocessed h.freshRow

theorem run_handleTx_short (h : Handles env o items f d) (hn : NonNeg d.tables)
    (ha : ¬ Affordable items d.tables) :
    ∃ reason, (handleTx env f).run d = .ok (returned env, rejectedDb env o reason f d) := by
  obtain ⟨x, hx⟩ : ∃ x, (reserveStock o items).eval d [] = .thrown (.insufficientStock x) :=
    eval_reserveStock_short ((isShort_iff hn h.inRange).2 ha)
  refine ⟨x.str, Tx.run_eq_ok.2 ⟨[], ?_⟩⟩
  rw [eval_handleTx_placed h, hx]
  exact eval_publishAndMark h.unprocessed h.freshRow

theorem get?_reserve (t : Tables) (hfree : t.reservations.get? o = none) :
    (t.reserve o items).reservations.get? o = some ⟨o, items⟩ := by
  show (t.reservations.insert ⟨o, items⟩).get? o = _
  rw [Table.get?_insert hfree, if_pos rfl]

/-- **The outcome of `order.placed`.**  An order is reserved if and only if every item is stocked
and on no prefix of the lines more is asked for of an item than there is.  Then each quantity falls
by the total of its item, and the reservation and a `stock.reserved` event with the payload
received are added; otherwise only a `stock.rejected` event is added.  The event is entered into
the ledger in both cases.  Where no quantity is negative, the lines may be regrouped. -/
theorem placed_outcome (h : Handles env o items f d) (hn : NonNeg d.tables) :
    (Affordable items d.tables →
      (handleTx env f).run d = .ok (returned env, reservedDb env o items f d)) ∧
    (¬ Affordable items d.tables →
      ∃ reason, (handleTx env f).run d = .ok (returned env, rejectedDb env o reason f d)) ∧
    ∀ env' items' f', Handles env' o items' f' d → Regroups items items' →
      (∀ item ∈ items, 0 ≤ item.quantity) → (∀ item ∈ items', 0 ≤ item.quantity) →
      ∀ p d₁ p' d₁', (handleTx env f).run d = .ok (p, d₁) →
        (handleTx env' f').run d = .ok (p', d₁') →
        d₁.tables.stock = d₁'.tables.stock ∧
          ((d₁.tables.reservations.get? o).isSome ↔
            (d₁'.tables.reservations.get? o).isSome) := by
  refine ⟨run_handleTx_affordable h hn, run_handleTx_short h hn, ?_⟩
  intro env' items' f' h' hre hnn hnn' p d₁ p' d₁' hrun hrun'
  by_cases ha : Affordable items d.tables
  · have ha' := (hre.affordable_iff hnn hnn').1 ha
    rw [run_handleTx_affordable h hn ha] at hrun
    rw [run_handleTx_affordable h' hn ha'] at hrun'
    cases hrun
    cases hrun'
    refine ⟨hre.stock_reserve o, ?_⟩
    simp only [reservedDb, get?_reserve _ h.unreserved, Option.isSome_some]
  · have ha' : ¬ Affordable items' d.tables := fun ha' =>
      ha ((hre.affordable_iff hnn hnn').2 ha')
    obtain ⟨reason, hr⟩ := run_handleTx_short h hn ha
    obtain ⟨reason', hr'⟩ := run_handleTx_short h' hn ha'
    rw [hr] at hrun
    rw [hr'] at hrun'
    cases hrun
    cases hrun'
    exact ⟨rfl, Iff.rfl⟩

/-- Of five burgers, three and then two: the total is just affordable. -/
theorem placed_outcome_all :
    let items : List Item := [⟨1, 3, 10⟩, ⟨1, 2, 10⟩]
    let env : Envelope := ⟨9, .orderPlaced, 0, { orderId := some 7, items := some items }⟩
    let d : Db := ⟨⟨Table.empty.insert ⟨1, 5⟩, .empty⟩, .empty⟩
    (handleTx env ⟨3, 4, 5, 0⟩).run d = .ok (returned env, reservedDb env 7 items ⟨3, 4, 5, 0⟩ d) ∧
      (reservedDb env 7 items ⟨3, 4, 5, 0⟩ d).tables.quantity 1 = some 0 := by
  intro items env d
  have hstock : ∀ i q, d.tables.quantity i = some q → i = 1 ∧ q = 5 := by
    intro i q hq
    obtain ⟨r, hr, rfl⟩ := Option.map_eq_some_iff.1 hq
    obtain rfl := List.mem_singleton.1 (Table.mem_of_get? hr)
    exact ⟨(Table.key_of_get? hr).symm, rfl⟩
  have hnn : ∀ item ∈ items, 0 ≤ item.quantity := by decide
  have hr : InRange items d.tables := inRange_of_nonneg
    (fun i q hq => (hstock i q hq).2 ▸ by decide) hnn
  have ha : Affordable items d.tables := by
    rw [affordable_iff_totals hnn]
    intro i hi
    obtain rfl : i = 1 := by simpa [items] using hi
    exact ⟨5, by decide, by decide⟩
  refine ⟨(placed_outcome (o := 7) (f := ⟨3, 4, 5, 0⟩) ⟨rfl, rfl, rfl, by decide, by decide, hr,
    rfl⟩ fun i q hq => ?_).1 ha, by decide⟩
  rw [(hstock i q hq).2]
  decide

end Restaurant

end FoodFlow
