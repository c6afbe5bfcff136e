import FoodFlow.Saga.Quiescence
import FoodFlow.Saga.Fidelity

/-!
# The books of the three services

What the payment service has taken in is kept in its own database, what the orders are worth in
another one, and the stock in a third.  The three books agree at every moment, not only at the end:

* `takings`, `revenue`, `awaited` : the payments that have succeeded, the orders that are confirmed,
  and the orders whose payment has succeeded without their knowing it;
* `confirmedQuantity`, `heldQuantity` : the items of the confirmed orders, and those held for orders
  that are not;
* `books_balance` : **the takings are the revenue and what is awaited, and the stock at first is
  what is left, what is confirmed and what is held; at the end nothing is awaited or held.**

Each book is a sum over the rows of one table, so two books are compared order by order
(`Table.sum_congr`).
-/

namespace FoodFlow

namespace Saga

/-- What the payment service has taken in, in hundredths. -/
def takings (t : Payment.Tables) : ℤ :=
  t.payments.sum fun p => if p.status = .succeeded then p.amount else 0

/-- What the confirmed orders are worth, in hundredths. -/
def revenue (t : Order.Tables) : ℤ :=
  t.orders.sum fun r => if r.status = .confirmed then r.totalAmount else 0

/-- The payment of the order `o` has succeeded. -/
def Stores.isPaid (s : Stores) (o : UUID) : Bool :=
  (s.payment.tables.payments.get? o).any fun p => p.status = .succeeded

/-- The restaurant service holds items for the order `o`. -/
def Stores.isHeld (s : Stores) (o : UUID) : Bool :=
  (s.restaurant.tables.reservations.get? o).isSome

/-- What the orders are worth whose payment has succeeded while they are still `PENDING`. -/
def awaited (s : Stores) : ℤ :=
  s.order.tables.orders.sum fun r =>
    if r.status = .pending ∧ s.isPaid r.id then r.totalAmount else 0

/-- The quantity of an item that is held for orders that are not confirmed. -/
def heldQuantity (s : Stores) (i : UUID) : ℤ :=
  s.order.tables.orders.sum fun r =>
    if r.status ≠ .confirmed ∧ s.isHeld r.id then totalOf i r.items else 0

variable {dflt : String} {t₀ : Restaurant.Tables} {s : Stores} {o : UUID} {r : Order.OrderRow}
  {p : Payment.PaymentRow} {res : Restaurant.Reservation}

theorem isPaid_eq (hp : s.payment.tables.payments.get? o = some p) :
    s.isPaid o = decide (p.status = .succeeded) := by
  rw [Stores.isPaid, hp]
  rfl

theorem not_isPaid (hp : s.payment.tables.payments.get? o = none) : s.isPaid o = false := by
  rw [Stores.isPaid, hp]
  rfl

/-- What an order contributes to two columns of its table at once. -/
theorem orders_sum_add (t : Order.Tables) (g g' : Order.OrderRow → ℤ) :
    t.orders.sum g + t.orders.sum g' = t.orders.sum fun r => g r + g' r :=
  (List.sum_map_add).symm

namespace Consistent

variable (h : Consistent dflt t₀ s)
include h

/-- Which orders have their payment behind them. -/
theorem isPaid_iff (hr : s.order.tables.orders.get? o = some r) (hne : r.status ≠ .pending) :
    s.isPaid o ↔ r.status = .confirmed := by
  cases hst : r.status with
  | pending => exact absurd hst hne
  | confirmed =>
    obtain ⟨⟨p, hp, hsucceeded⟩, -⟩ := h.confirmed hr hst
    simp [isPaid_eq hp, hsucceeded]
  | paymentFailed =>
    obtain ⟨⟨p, hp, hfailed⟩, -⟩ := h.failed hr hst
    simp [isPaid_eq hp, hfailed]
  | stockUnavailable =>
    obtain ⟨-, hno, -⟩ := h.unavailable hr hst
    simp [not_isPaid (Option.not_isSome_iff_eq_none.1 hno)]

/-- A confirmed order has its items held. -/
theorem isHeld_confirmed (hr : s.order.tables.orders.get? o = some r)
    (hst : r.status = .confirmed) : s.isHeld o := by
  have hres := (h.confirmed hr hst).2.reserved_row hr
  rw [Stores.Reserved, (Table.key_of_get? hr : r.id = o)] at hres
  rw [Stores.isHeld, hres]
  rfl

/-- The takings, order by order. -/
theorem takings_eq (hf : Faithful dflt s) :
    takings s.payment.tables = revenue s.order.tables + awaited s := by
  rw [revenue, awaited, orders_sum_add]
  refine Table.sum_congr fun o => ?_
  cases hr : s.order.tables.orders.get? o with
  | none =>
    cases hp : s.payment.tables.payments.get? o with
    | none => rfl
    | some p =>
      -- every payment belongs to an order
      obtain ⟨t, ht, -⟩ := hf.charges p (Table.mem_of_get? hp)
      rw [Stores.terms?, (Table.key_of_get? hp : p.orderId = o), hr] at ht
      cases ht
  | some r =>
    have hid : r.id = o := Table.key_of_get? hr
    have hcontribution : ((s.payment.tables.payments.get? o).map fun p =>
        if p.status = .succeeded then p.amount else 0).getD 0 =
        if s.isPaid o then r.totalAmount else 0 := by
      cases hp : s.payment.tables.payments.get? o with
      | none => simp [not_isPaid hp]
      | some p =>
        obtain ⟨t, ht, hc⟩ := hf.charges p (Table.mem_of_get? hp)
        rw [Stores.terms?, (Table.key_of_get? hp : p.orderId = o), hr] at ht
        obtain rfl := Option.some.inj ht
        simp [isPaid_eq hp, hc.amount, termsOf]
    rw [hcontribution, Option.map_some, Option.getD_some, hid]
    by_cases hst : r.status = .pending
    · simp [hst]
    · simp [hst, h.isPaid_iff hr hst]

/-- What is reserved, order by order. -/
theorem reserved_split (i : UUID) : s.restaurant.tables.reserved i =
    confirmedQuantity s.order.tables i + heldQuantity s i := by
  rw [confirmedQuantity, heldQuantity, orders_sum_add]
  refine Table.sum_congr fun o => ?_
  cases hres : s.restaurant.tables.reservations.get? o with
  | none =>
    have hheld : s.isHeld o = false := by
      rw [Stores.isHeld, hres]
      rfl
    cases hr : s.order.tables.orders.get? o with
    | none => rfl
    | some r =>
      have hid : r.id = o := Table.key_of_get? hr
      have hne : r.status ≠ .confirmed := fun hst => by
        rw [h.isHeld_confirmed hr hst] at hheld
        cases hheld
      simp [hid, hheld, hne]
  | some res =>
    -- a reservation holds what its order contains
    obtain ⟨r, hmem, hid, hitems⟩ := h.reserved_items (Table.mem_of_get? hres)
    rw [(Table.key_of_get? hres : res.orderId = o)] at hid
    have hr : s.order.tables.orders.get? o = some r := hid ▸ Table.get?_of_mem hmem
    have hheld : s.isHeld o := by
      rw [Stores.isHeld, hres]
      rfl
    rw [hr]
    by_cases hst : r.status = .confirmed
    · simp [hst, hitems]
    · simp [hst, hitems, hid, hheld]

end Consistent

namespace Quiescent

variable {n : State} (hq : Quiescent n) (h : Consistent dflt t₀ n.stores) (hp : Procs dflt n)
include hq h hp

/-- At the end every order knows that it is paid. -/
theorem awaited_eq : awaited n.stores = 0 := by
  refine List.sum_eq_zero fun x hx => ?_
  obtain ⟨r, hr, rfl⟩ := List.mem_map.1 hx
  simp [hq.left h hp (Table.get?_of_mem hr)]

/-- At the end nothing is held but for the confirmed orders. -/
theorem heldQuantity_eq (i : UUID) : heldQuantity n.stores i = 0 := by
  have hall := hq.reserved_eq h hp i
  have hsplit := h.reserved_split i
  have hsame : n.stores.restaurant.tables.reserved i = n.restaurant.db.tables.reserved i := rfl
  have hconfirmed : confirmedQuantity n.stores.order.tables i =
      confirmedQuantity n.order.db.tables i := rfl
  omega

end Quiescent

/-- **The books balance.**  In every reachable state the payments that have succeeded amount to
what the confirmed orders are worth and what the orders are worth that are still `PENDING` though
paid, and the stock of every item at first is what is left of it, what the confirmed orders contain
and what is held for the others; when everything has come to its end, the takings are the revenue
and nothing is held. -/
theorem books_balance (ht₀ : Restaurant.Migrated ⟨t₀, .empty⟩) {ls : List Label} {n : State}
    (hr : (system dflt).Run (.start t₀) ls n) :
    takings n.payment.db.tables = revenue n.order.db.tables + awaited n.stores ∧
    (∀ i, t₀.quantity i = (n.restaurant.db.tables.quantity i).map
      (· + (confirmedQuantity n.order.db.tables i + heldQuantity n.stores i))) ∧
    (Quiescent n → takings n.payment.db.tables = revenue n.order.db.tables ∧
      ∀ i, heldQuantity n.stores i = 0) := by
  obtain ⟨h, hp⟩ := run_consistent ht₀ hr
  have htakings : takings n.payment.db.tables = revenue n.order.db.tables + awaited n.stores :=
    h.takings_eq (run_faithful ht₀ hr)
  refine ⟨htakings, fun i => ?_, fun hq => ⟨?_, hq.heldQuantity_eq h hp⟩⟩
  · have hreserved : n.restaurant.db.tables.reserved i =
        confirmedQuantity n.order.db.tables i + heldQuantity n.stores i := h.reserved_split i
    rw [← hreserved]
    exact (h.stock.balance i).symm
  · rw [htakings, hq.awaited_eq h hp, add_zero]

/-- One order is confirmed, a second one paid but still `PENDING`, a third one's stock is held. -/
theorem books_balance_three :
    let burger (quantity : ℤ) : Order.OrderItem :=
      ⟨0x11111111111111111111111111111111, quantity, 10⟩
    let req (quantity : ℤ) : Order.Request := ⟨1, ⟨5, [burger quantity]⟩, none, none⟩
    let ordered : List Label :=
      [.request (req 2), .run .order 0 ⟨70, 1, 2, 0⟩, .request (req 3),
        .run .order 1 ⟨80, 3, 4, 0⟩, .request (req 5), .run .order 2 ⟨90, 5, 6, 0⟩,
        .relay .order 2 (some 1), .relay .order 4 (some 1), .relay .order 6 (some 1),
        .deliver .restaurant ⟨1, .orderPlaced, 0, Order.eventPayload (req 2) 70⟩,
        .run .restaurant 0 ⟨0, 11, 12, 1⟩,
        .deliver .restaurant ⟨3, .orderPlaced, 0, Order.eventPayload (req 3) 80⟩,
        .run .restaurant 1 ⟨0, 13, 14, 1⟩,
        .deliver .restaurant ⟨5, .orderPlaced, 0, Order.eventPayload (req 5) 90⟩,
        .run .restaurant 2 ⟨0, 15, 16, 1⟩, .relay .restaurant 12 (some 2),
        .relay .restaurant 14 (some 2)]
    let paid : List Label :=
      [.deliver .payment ⟨11, .stockReserved, 1, Order.eventPayload (req 2) 70⟩,
        .run .payment 0 ⟨71, 101, 0, 2⟩, .run .payment 0 ⟨0, 102, 0, 2⟩,
        .run .payment 0 ⟨0, 21, 22, 3⟩,
        .deliver .payment ⟨13, .stockReserved, 1, Order.eventPayload (req 3) 80⟩,
        .run .payment 1 ⟨81, 104, 0, 3⟩, .run .payment 1 ⟨0, 105, 0, 3⟩,
        .run .payment 1 ⟨0, 23, 24, 3⟩, .relay .payment 22 (some 4),
        .deliver .order ⟨21, .paymentSucceeded, 3, { orderId := some 70 }⟩,
        .run .order 3 ⟨0, 108, 0, 5⟩]
    ∃ n, (State.start seeded).runs "success" (ordered ++ paid) = some n ∧
      revenue n.order.db.tables = 2000 ∧ awaited n.stores = 3000 ∧
      takings n.payment.db.tables = 5000 ∧
      heldQuantity n.stores 0x11111111111111111111111111111111 = 8 := by
  intro burger req ordered paid
  have hrun : ((State.start seeded).runs "success" (ordered ++ paid)).map (fun n =>
      (revenue n.order.db.tables, awaited n.stores,
        heldQuantity n.stores 0x11111111111111111111111111111111)) =
      some (2000, 3000, 8) := by decide +kernel
  obtain ⟨n, hn, hobs⟩ := Option.map_eq_some_iff.1 hrun
  simp only [Prod.mk.injEq] at hobs
  obtain ⟨hrevenue, hawaited, hheld⟩ := hobs
  refine ⟨n, hn, hrevenue, hawaited, ?_, hheld⟩
  rw [(books_balance migrated_seeded (run_of_runs hn)).1, hrevenue, hawaited]
  rfl

end Saga

end FoodFlow
