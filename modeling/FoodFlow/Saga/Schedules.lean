import FoodFlow.Saga.Quiescence
import FoodFlow.Saga.Fidelity

/-!
# Schedule independence

Where the stock covers all that is ordered, no order is refused, whatever the order in which the
services get to do their work.  Two runs that have accepted the same orders then come to the same
end: `schedule_independent`.

* `Uncontended` : the stock covers the positive quantities of all orders;
* `Consistent.not_short` : then no line of an order that is being handled is short, since every
  reservation belongs to another order;
* `run_rejections` : so there is no `stock.rejected` event in the run.
-/

namespace FoodFlow

namespace Saga

/-- What is ordered, without the id that the order has drawn: the items and the directive. -/
def ordered (r : Order.OrderRow) : List Item × Option String := (r.items, r.paymentSimulate)

/-- The positive quantities of an item in all orders. -/
def demand (t : Order.Tables) (i : UUID) : ℤ := t.orders.sum fun r => positiveOf i r.items

/-- All items ordered are stocked, and the stock covers the positive quantities ordered. -/
structure Uncontended (t₀ : Restaurant.Tables) (t : Order.Tables) : Prop where
  stocked : ∀ r ∈ t.orders.rows, ∀ item ∈ r.items, (t₀.quantity item.itemId).isSome
  covered : ∀ i q, t₀.quantity i = some q → demand t i ≤ q

/-- The end of an order whose stock is reserved: what the gateway says to its directive. -/
def finalStatus (dflt : String) (r : Order.OrderRow) : Order.Status :=
  if Payment.processPayment dflt 0 r.paymentSimulate then .confirmed else .paymentFailed

variable {dflt : String} {t₀ : Restaurant.Tables} {s s' : Stores} {o : UUID} {items : List Item}
  {env e : Envelope} {r : Order.OrderRow}

/-! ### Contention does not go away -/

/-- Where the orders of `s` are among those of `s'`. -/
theorem Uncontended.of_terms (h : Uncontended t₀ s'.order.tables)
    (hterms : ∀ o t, s.terms? o = some t → s'.terms? o = some t) :
    Uncontended t₀ s.order.tables := by
  have hrow : ∀ o r, s.order.tables.orders.get? o = some r →
      ∃ r', s'.order.tables.orders.get? o = some r' ∧ r'.items = r.items := by
    intro o r hr
    have ht : s.terms? o = some (termsOf r) := by rw [Stores.terms?, hr, Option.map_some]
    obtain ⟨r', hr', he⟩ := Option.map_eq_some_iff.1 (hterms o _ ht)
    exact ⟨r', hr', congrArg Terms.items he⟩
  refine ⟨fun r hr item hitem => ?_, fun i q hq => le_trans ?_ (h.covered i q hq)⟩
  · obtain ⟨r', hr', hitems⟩ := hrow _ r (Table.get?_of_mem hr)
    exact h.stocked r' (Table.mem_of_get? hr') item (hitems ▸ hitem)
  · refine Table.sum_le_sum fun o => ?_
    cases hr : s.order.tables.orders.get? o with
    | none =>
      cases s'.order.tables.orders.get? o with
      | none => exact le_refl _
      | some r' => exact positiveOf_nonneg i r'.items
    | some r =>
      obtain ⟨r', hr', hitems⟩ := hrow o r hr
      simp [hr', hitems]

/-! ### No order is refused -/

/-- What is reserved, together with what an order without a reservation asks for, is in demand. -/
theorem Consistent.reserved_le_demand (h : Consistent dflt t₀ s)
    (hfree : s.restaurant.tables.reservations.get? o = none) (hitems : s.itemsOf o = some items)
    (i : UUID) : s.restaurant.tables.reserved i + positiveOf i items ≤ demand s.order.tables i := by
  let asked := s.restaurant.tables.reservations.insert ⟨o, items⟩
  have hasked : asked.sum (fun res => positiveOf i res.items) =
      (s.restaurant.tables.reservations.sum fun res => positiveOf i res.items) +
        positiveOf i items := Table.sum_insert hfree _
  have hreserved : s.restaurant.tables.reserved i ≤
      s.restaurant.tables.reservations.sum fun res => positiveOf i res.items := by
    refine Table.sum_le_sum fun o' => ?_
    cases s.restaurant.tables.reservations.get? o' with
    | none => exact le_refl _
    | some res => exact totalOf_le_positiveOf i res.items
  refine le_trans (Int.add_le_add_right hreserved _) (hasked ▸ Table.sum_le_sum fun o' => ?_)
  -- every reservation, and the one asked for, holds the items of its order
  have hrow : ∀ res, asked.get? o' = some res →
      ∃ r, s.order.tables.orders.get? o' = some r ∧ r.items = res.items := by
    intro res hres
    rw [Table.get?_insert hfree] at hres
    split_ifs at hres with ho
    · obtain rfl := Option.some.inj hres
      obtain ⟨r, hr, hi⟩ := Option.map_eq_some_iff.1 hitems
      exact ⟨r, ho ▸ hr, hi⟩
    · obtain ⟨r, hr, hid, hi⟩ := h.reserved_items (Table.mem_of_get? hres)
      have hk : res.orderId = o' := Table.key_of_get? hres
      exact ⟨r, by rw [← hk, ← hid]; exact Table.get?_of_mem hr, hi.symm⟩
  cases hres : asked.get? o' with
  | none =>
    cases s.order.tables.orders.get? o' with
    | none => exact le_refl _
    | some r => exact positiveOf_nonneg i r.items
  | some res =>
    obtain ⟨r, hr, hi⟩ := hrow res hres
    simp [hr, hi]

/-- **An order that is being handled is not short of anything.** -/
theorem Consistent.not_short (h : Consistent dflt t₀ s) (hun : Uncontended t₀ s.order.tables)
    (he : s.Event .orderPlaced o env) (hn : ¬ s.Handled .restaurant env)
    (hitems : env.payload.items = some items) :
    Restaurant.isShort items s.restaurant.tables = false := by
  have hof : s.itemsOf o = some items := (h.placed o env he).symm.trans hitems
  obtain ⟨r, hr, hri⟩ := Option.map_eq_some_iff.1 hof
  obtain ⟨g, hg⟩ := h.stage o
  obtain ⟨rfl, -⟩ := h.untouched hg he hn
  have hfree : s.restaurant.tables.reservations.get? o = none := hg.unreserved (by decide)
  refine Restaurant.isShort_eq_false (fun item hitem => ?_) fun i q hq => ?_
  · have hst := hun.stocked r (Table.mem_of_get? hr) item (hri ▸ hitem)
    rwa [← h.stock.balance, Option.isSome_map] at hst
  · -- the initial stock is what is left and what is reserved
    have hb := h.stock.balance i
    rw [hq, Option.map_some] at hb
    have hcov := hun.covered i _ hb.symm
    have hle := h.reserved_le_demand hfree hof i
    omega

/-- **Only where the stock is contended is an order refused.** -/
theorem run_rejections (ht₀ : Restaurant.Migrated ⟨t₀, .empty⟩) {n : State} {ls : List Label}
    (hr : (system dflt).Run (.start t₀) ls n) (hun : Uncontended t₀ n.order.db.tables) :
    ∀ o e, ¬ n.stores.Event .stockRejected o e := by
  suffices h : Consistent dflt t₀ n.stores ∧
      ∀ o e, n.stores.Event .stockRejected o e → ¬ Uncontended t₀ n.stores.order.tables from
    fun o e he => h.2 o e he hun
  refine (run_invariant (fun s => Consistent dflt t₀ s ∧
    ∀ o e, s.Event .stockRejected o e → ¬ Uncontended t₀ s.order.tables)
    ⟨consistent_start ht₀, ?_⟩ (fun s s' h hc => ⟨h.1.step ht₀.seededTables hc, ?_⟩) hr).1
  · rintro o e ⟨i, x, hx, -⟩
    cases i <;> cases hx
  · intro o e he hun'
    have hun := hun'.of_terms fun o t ht => hc.terms_mono ht
    rcases event_of_commits h.1.post hc he with he | hw
    · exact h.2 o e he hun
    · generalize hty : EventType.stockRejected = ty at hw
      cases hw with
      | rejected hev hn hitems hshort =>
        rw [h.1.not_short hun hev hn hitems] at hshort
        cases hshort
      | placed _ _ _ => cases hty
      | release => cases hty
      | reserved _ _ => cases hty
      | outcome success => cases success <;> cases hty

/-! ### The end of every order -/

/-- What the gateway has decided about an order is its status in the end. -/
theorem Consistent.decided (h : Consistent dflt t₀ s) (hf : Faithful dflt s) (success : Bool)
    (hr : s.order.tables.orders.get? o = some r)
    (hp : s.PaymentIs o (Payment.statusOf success)) :
    Payment.processPayment dflt 0 r.paymentSimulate = success := by
  obtain ⟨p, hget, hst⟩ := hp
  have hmem := Table.mem_of_get? hget
  have hdecision : p.decision dflt = success := by
    have hd := h.payments.decided p hmem (hst ▸ Payment.statusOf_ne success)
    rw [hst] at hd
    cases hdec : p.decision dflt <;> cases success <;> simp_all [Payment.statusOf]
  obtain ⟨t, ht, hc⟩ := hf.charges p hmem
  rw [show p.orderId = o from Table.key_of_get? hget, Stores.terms?, hr] at ht
  obtain rfl := Option.some.inj ht
  exact (hc.directive 0).symm.trans hdecision

/-- **The end of every order where nothing is contended.** -/
theorem Quiescent.final {s : State} (hq : Quiescent s) (ht₀ : Restaurant.Migrated ⟨t₀, .empty⟩)
    {ls : List Label} (hrun : (system dflt).Run (.start t₀) ls s)
    (hun : Uncontended t₀ s.order.db.tables) (hr : r ∈ s.order.db.tables.orders.rows) :
    r.status = finalStatus dflt r := by
  obtain ⟨h, hp⟩ := run_consistent ht₀ hrun
  have hf := run_faithful ht₀ hrun
  have hget : s.stores.order.tables.orders.get? r.id = some r := Table.get?_of_mem hr
  rw [finalStatus]
  cases hst : r.status with
  | pending => exact absurd hst (hq.left h hp hget)
  | confirmed => rw [if_pos (h.decided hf true hget (h.confirmed hget hst).1)]
  | paymentFailed =>
    rw [if_neg]
    rw [h.decided hf false hget (h.failed hget hst).1]
    exact Bool.false_ne_true
  | stockUnavailable =>
    -- this status rests on a refusal
    obtain ⟨e, he⟩ := (h.unavailable hget hst).1.rejected.2 rfl
    exact absurd he (run_rejections ht₀ hrun hun _ e)

/-! ### Two runs -/

/-- What the confirmed orders contain, where nothing is contended. -/
theorem confirmedQuantity_eq {t : Order.Tables}
    (h : ∀ r ∈ t.orders.rows, r.status = finalStatus dflt r) (i : UUID) :
    confirmedQuantity t i = ((t.orders.rows.map ordered).map fun x =>
      if Payment.processPayment dflt 0 x.2 then totalOf i x.1 else 0).sum := by
  rw [confirmedQuantity, Table.sum, List.map_map]
  refine congrArg List.sum (List.map_congr_left fun r hr => ?_)
  rw [h r hr, finalStatus]
  simp only [Function.comp, ordered]
  by_cases hp : Payment.processPayment dflt 0 r.paymentSimulate <;> simp [hp]

/-- Whether the stock is contended depends on what is ordered. -/
theorem Uncontended.perm {t t' : Order.Tables} (h : Uncontended t₀ t)
    (hperm : (t.orders.rows.map ordered).Perm (t'.orders.rows.map ordered)) :
    Uncontended t₀ t' := by
  refine ⟨fun r hr item hitem => ?_, fun i q hq => ?_⟩
  · obtain ⟨r', hr', he⟩ := List.mem_map.1 (hperm.mem_iff.2 (List.mem_map_of_mem hr))
    have hitems : r'.items = r.items := congrArg Prod.fst he
    exact h.stocked r' hr' item (hitems ▸ hitem)
  · have hsum := (hperm.map fun x => positiveOf i x.1).sum_eq
    rw [List.map_map, List.map_map] at hsum
    have hdemand : demand t i = demand t' i := hsum
    exact hdemand ▸ h.covered i q hq

/-- **Schedule independence without contention.**  Two runs that have accepted the same orders,
whatever ids these have drawn, and have come to quiescence give every order the same status, which
is that of its directive, and leave the same stock, provided the stock at first covers the positive
quantities of all orders. -/
theorem schedule_independent (ht₀ : Restaurant.Migrated ⟨t₀, .empty⟩) {ls₁ ls₂ : List Label}
    {s₁ s₂ : State} (hr₁ : (system dflt).Run (.start t₀) ls₁ s₁)
    (hr₂ : (system dflt).Run (.start t₀) ls₂ s₂) (hq₁ : Quiescent s₁) (hq₂ : Quiescent s₂)
    (hun : Uncontended t₀ s₁.order.db.tables)
    (hsame : (s₁.order.db.tables.orders.rows.map ordered).Perm
      (s₂.order.db.tables.orders.rows.map ordered)) :
    (∀ r ∈ s₁.order.db.tables.orders.rows ++ s₂.order.db.tables.orders.rows,
      r.status = finalStatus dflt r) ∧
    (s₁.order.db.tables.orders.rows.map fun r => (ordered r, r.status)).Perm
      (s₂.order.db.tables.orders.rows.map fun r => (ordered r, r.status)) ∧
    ∀ i, s₁.restaurant.db.tables.quantity i = s₂.restaurant.db.tables.quantity i := by
  have hfinal₁ := fun r hr => hq₁.final ht₀ hr₁ hun (r := r) hr
  have hfinal₂ := fun r hr => hq₂.final ht₀ hr₂ (hun.perm hsame) (r := r) hr
  refine ⟨fun r hr => (List.mem_append.1 hr).elim (hfinal₁ r) (hfinal₂ r), ?_, fun i => ?_⟩
  · -- the status is a function of what is ordered
    have hstatus : ∀ {rows : List Order.OrderRow}, (∀ r ∈ rows, r.status = finalStatus dflt r) →
        (rows.map fun r => (ordered r, r.status)) = (rows.map ordered).map fun x =>
          (x, if Payment.processPayment dflt 0 x.2 then Order.Status.confirmed
            else .paymentFailed) := by
      intro rows hrows
      rw [List.map_map]
      exact List.map_congr_left fun r hr => congrArg (Prod.mk (ordered r)) (hrows r hr)
    rw [hstatus hfinal₁, hstatus hfinal₂]
    exact hsame.map _
  · obtain ⟨h₁, hp₁⟩ := run_consistent ht₀ hr₁
    obtain ⟨h₂, hp₂⟩ := run_consistent ht₀ hr₂
    rw [hq₁.quantity_eq h₁ hp₁, hq₂.quantity_eq h₂ hp₂, confirmedQuantity_eq hfinal₁,
      confirmedQuantity_eq hfinal₂, (hsame.map _).sum_eq]

/-- Two orders, the first with a repeated item and a negative quantity, the second with a payment
that fails.  In the second run they come in the other order, under other ids, and the consumer of
the second one's payment stops before Transaction 2, so that the reconciliation resolves it. -/
theorem schedule_independent_two :
    let burger (quantity : ℤ) : Item := ⟨0x11111111111111111111111111111111, quantity, 10⟩
    let fries (quantity : ℤ) : Item := ⟨0x22222222222222222222222222222222, quantity, 5⟩
    let items₁ : List Item := [burger 60, fries (-2), burger 10]
    let items₂ : List Item := [burger 30]
    let req₁ : Order.Request := ⟨1, ⟨5, items₁.map .of⟩, none, none⟩
    let req₂ : Order.Request := ⟨1, ⟨5, items₂.map .of⟩, some "failure", none⟩
    -- the order `o` as the `p`-th one, up to the gateway call
    let reserved (req : Order.Request) (o e p : ℕ) : List Label :=
      [.request req, .run .order p ⟨o, e, e + 1, 0⟩, .relay .order (e + 1) (some 0),
        .deliver .restaurant ⟨e, .orderPlaced, 0, Order.eventPayload req o⟩,
        .run .restaurant p ⟨0, e + 2, e + 3, 0⟩, .relay .restaurant (e + 3) (some 0),
        .deliver .payment ⟨e + 2, .stockReserved, 0, Order.eventPayload req o⟩,
        .run .payment p ⟨o, e + 4, 0, 0⟩, .run .payment p ⟨0, e + 5, 0, 0⟩]
    -- the outcomes at the time `t`
    let ended (o₁ o₂ t : ℕ) : List Label :=
      [.relay .payment 17 (some t), .relay .payment 37 (some t),
        .deliver .order ⟨16, .paymentSucceeded, 0, { orderId := some o₁ }⟩,
        .run .order 2 ⟨0, 50, 0, t⟩,
        .deliver .order ⟨36, .paymentFailed, t, { orderId := some o₂ }⟩,
        .run .order 3 ⟨0, 52, 53, t⟩, .relay .order 53 (some t),
        .deliver .restaurant ⟨52, .stockRelease, t, { orderId := some o₂ }⟩,
        .run .restaurant 2 ⟨0, 54, 0, t⟩]
    let run₁ := reserved req₁ 70 10 0 ++ reserved req₂ 80 30 1 ++
      [.run .payment 0 ⟨0, 16, 17, 0⟩, .run .payment 1 ⟨0, 36, 37, 0⟩] ++ ended 70 80 0
    let run₂ := reserved req₂ 90 30 0 ++ reserved req₁ 91 10 1 ++
      [.kill .payment 0, .run .payment 1 ⟨0, 16, 17, 0⟩, .reconcile 180,
        .run .payment 2 ⟨0, 60, 0, 300⟩, .run .payment 2 ⟨0, 61, 0, 300⟩,
        .run .payment 2 ⟨0, 36, 37, 300⟩] ++ ended 91 90 300
    ∃ n₁ n₂, (State.start seeded).runs "success" run₁ = some n₁ ∧
      (State.start seeded).runs "success" run₂ = some n₂ ∧
      (n₁.order.db.tables.orders.rows.map fun r => (ordered r, r.status)).Perm
        (n₂.order.db.tables.orders.rows.map fun r => (ordered r, r.status)) ∧
      ∀ i, n₁.restaurant.db.tables.quantity i = n₂.restaurant.db.tables.quantity i := by
  intro burger fries items₁ items₂ req₁ req₂ reserved ended run₁ run₂
  have hrun₁ : ((State.start seeded).runs "success" run₁).map (fun n =>
      (decide (Quiescent n), decide (n.order.db.tables.orders.rows.map ordered =
          [(items₁, none), (items₂, some "failure")]),
        decide (∀ row ∈ seeded.stock.rows,
          demand n.order.db.tables row.itemId ≤ row.quantity))) =
      some (true, true, true) := by decide +kernel
  have hrun₂ : ((State.start seeded).runs "success" run₂).map (fun n =>
      (decide (Quiescent n), decide (n.order.db.tables.orders.rows.map ordered =
        [(items₂, some "failure"), (items₁, none)]))) =
      some (true, true) := by decide +kernel
  obtain ⟨n₁, hn₁, hobs₁⟩ := Option.map_eq_some_iff.1 hrun₁
  obtain ⟨n₂, hn₂, hobs₂⟩ := Option.map_eq_some_iff.1 hrun₂
  simp only [Prod.mk.injEq, decide_eq_true_eq] at hobs₁ hobs₂
  obtain ⟨hq₁, hrows₁, hcovered⟩ := hobs₁
  obtain ⟨hq₂, hrows₂⟩ := hobs₂
  have hun : Uncontended seeded n₁.order.db.tables := by
    refine ⟨fun r hr item hitem => ?_, fun i q hq => ?_⟩
    · have hr := List.mem_map_of_mem (f := ordered) hr
      have hall : ∀ x ∈ [(items₁, none), (items₂, some "failure")],
          ∀ item ∈ x.1, (seeded.quantity item.itemId).isSome := by decide +kernel
      rw [hrows₁] at hr
      exact hall _ hr item hitem
    · obtain ⟨row, hrow, rfl⟩ := Option.map_eq_some_iff.1 hq
      obtain rfl : row.itemId = i := Table.key_of_get? hrow
      exact hcovered row (Table.mem_of_get? hrow)
  have hsame : (n₁.order.db.tables.orders.rows.map ordered).Perm
      (n₂.order.db.tables.orders.rows.map ordered) := by
    rw [hrows₁, hrows₂]
    exact List.Perm.swap _ _ _
  obtain ⟨-, hstatus, hstock⟩ := schedule_independent migrated_seeded (run_of_runs hn₁)
    (run_of_runs hn₂) hq₁ hq₂ hun hsame
  exact ⟨n₁, n₂, hn₁, hn₂, hstatus, hstock⟩

end Saga

end FoodFlow
