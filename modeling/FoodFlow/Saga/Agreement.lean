import FoodFlow.Saga.Consistency

/-!
# Agreement across the services

What the status of an order says about the other two databases, in every reachable state:
`cross_service_agreement`.  A confirmed order is paid and has its stock reserved; the compensation
of a failed payment is published once, and the stock is reserved until it is handled; an order
whose stock was not available has neither a reservation nor a payment.
-/

namespace FoodFlow

namespace Saga

variable {dflt : String} {t₀ : Restaurant.Tables} {s : Stores} {o : UUID} {g : Stage}
  {r : Order.OrderRow}

/-- The payment of the order `o` has the status given. -/
def Stores.PaymentIs (s : Stores) (o : UUID) (status : Payment.Status) : Prop :=
  ∃ p, s.payment.tables.payments.get? o = some p ∧ p.status = status

/-- The order has its items reserved. -/
def Stores.Reserved (s : Stores) (r : Order.OrderRow) : Prop :=
  s.restaurant.tables.reservations.get? r.id = some ⟨r.id, r.items⟩

/-- The order `o` has no reservation. -/
def Stores.Unreserved (s : Stores) (o : UUID) : Prop :=
  s.restaurant.tables.reservations.get? o = none

theorem Stores.PaymentIs.hasPayment {status : Payment.Status} (h : s.PaymentIs o status) :
    s.HasPayment o := by
  obtain ⟨p, hp, -⟩ := h
  rw [Stores.HasPayment, hp]
  rfl

/-! ### What a stage says about the reservation -/

theorem Stores.At.reserved_row (h : s.At o .reserved)
    (hr : s.order.tables.orders.get? o = some r) : s.Reserved r := by
  have hid : r.id = o := Table.key_of_get? hr
  have hitems := h.items
  rw [if_pos rfl, Stores.itemsOf, hr, Stores.reservedFor] at hitems
  obtain ⟨⟨o', items⟩, hres, hi⟩ := Option.map_eq_some_iff.1 hitems
  obtain rfl : o' = o := Table.key_of_get? hres
  obtain rfl : items = r.items := hi
  rw [Stores.Reserved, hid, hres]

theorem Stores.At.unreserved (h : s.At o g) (hg : g ≠ .reserved) : s.Unreserved o := by
  have hitems := h.items
  rw [if_neg hg] at hitems
  exact Option.map_eq_none_iff.1 hitems

namespace Consistent

variable (h : Consistent dflt t₀ s)
include h

/-- A payment shows that the stock was reserved. -/
theorem stage_of_payment (hg : s.At o g) (hp : s.HasPayment o) :
    g = .reserved ∨ g = .released := hg.reserved.1 (h.paid o hp)

/-- The event on which the status of an order rests. -/
theorem cause (hr : s.order.tables.orders.get? o = some r) (hne : r.status ≠ .pending) :
    ∃ topic e, Order.targetOf topic = some r.status ∧ s.Event topic o e := by
  refine h.caused o _ ?_ hne
  rw [Order.Tables.status, hr]
  rfl

/-- An order with an outcome of its payment as its status. -/
theorem payment_of_status (success : Bool) (hr : s.order.tables.orders.get? o = some r)
    (hst : Order.targetOf (Payment.topicOf success) = some r.status) :
    s.PaymentIs o (Payment.statusOf success) := by
  obtain ⟨topic, e, ht, he⟩ := h.cause hr (Order.targetOf_ne_pending hst)
  have htopic : topic = Payment.topicOf success := by
    rw [← hst] at ht
    cases topic <;> cases success <;> first | rfl | cases ht
  exact h.payment_of_outcome (htopic ▸ he)

theorem confirmed (hr : s.order.tables.orders.get? o = some r) (hst : r.status = .confirmed) :
    s.PaymentIs o .succeeded ∧ s.At o .reserved := by
  have hp := h.payment_of_status true hr (by rw [hst]; rfl)
  obtain ⟨g, hg⟩ := h.stage o
  rcases h.stage_of_payment hg hp.hasPayment with rfl | rfl
  · exact ⟨hp, hg⟩
  · -- the stock of a confirmed order cannot have been released
    obtain ⟨e, he⟩ := hg.compensated rfl
    have hfailed := (h.reserved_of_release he).1
    rw [Order.Tables.status, hr, Option.map_some, hst] at hfailed
    cases hfailed

theorem failed (hr : s.order.tables.orders.get? o = some r) (hst : r.status = .paymentFailed) :
    s.PaymentIs o .failed ∧ (s.At o .reserved ∨ s.At o .released) := by
  have hp := h.payment_of_status false hr (by rw [hst]; rfl)
  obtain ⟨g, hg⟩ := h.stage o
  rcases h.stage_of_payment hg hp.hasPayment with rfl | rfl
  · exact ⟨hp, .inl hg⟩
  · exact ⟨hp, .inr hg⟩

theorem unavailable (hr : s.order.tables.orders.get? o = some r)
    (hst : r.status = .stockUnavailable) : s.At o .rejected ∧ ¬ s.HasPayment o ∧
      Order.published s.order .stockRelease o = 0 := by
  -- the status rests on a refusal, after which nothing was reserved or paid
  obtain ⟨topic, e, ht, he⟩ := h.cause hr (by rw [hst]; decide)
  have htopic : topic = .stockRejected := by
    rw [hst] at ht
    cases topic <;> first | rfl | cases ht
  obtain ⟨g, hg⟩ := h.stage o
  obtain rfl := hg.rejected.1 ⟨e, htopic ▸ he⟩
  refine ⟨hg, fun hp => ?_, ?_⟩
  · rcases h.stage_of_payment hg hp with hg' | hg' <;> cases hg'
  · have hid : r.id = o := Table.key_of_get? hr
    rw [← hid, h.orders.release r (Table.mem_of_get? hr), if_neg (by rw [hst]; decide)]

/-- The compensation of a failed payment. -/
theorem release_row (hr : s.order.tables.orders.get? o = some r)
    (hst : r.status = .paymentFailed) :
    Order.published s.order .stockRelease o = 1 ∧ ∃ x ∈ s.order.mail.outbox.rows,
      x.topic = .stockRelease ∧ x.key = o ∧ s.Event .stockRelease o x.payload := by
  have hid : r.id = o := Table.key_of_get? hr
  have hone : Order.published s.order .stockRelease o = 1 := by
    rw [← hid, h.orders.release r (Table.mem_of_get? hr), if_pos hst]
  exact ⟨hone, event_of_published (by omega)⟩

end Consistent

/-! ### Every reachable state -/

/-- **Cross-service agreement.**  In every reachable state and for every order: when it is
confirmed, its payment has succeeded and its items are reserved; when its payment has failed, the
payment says so too, exactly one compensation has been published, and either the items are still
reserved and the compensation has not been handled, or both have happened; when its stock was not
available, it has neither a reservation nor a payment nor a compensation. -/
theorem cross_service_agreement {s : State} (hs : (system dflt).Reachable s)
    (hr : r ∈ s.order.db.tables.orders.rows) :
    (r.status = .confirmed → s.stores.PaymentIs r.id .succeeded ∧ s.stores.Reserved r) ∧
    (r.status = .paymentFailed → s.stores.PaymentIs r.id .failed ∧
      Order.published s.order.db .stockRelease r.id = 1 ∧
      ∃ x ∈ s.order.db.mail.outbox.rows, x.topic = .stockRelease ∧ x.key = r.id ∧
        ((s.stores.Reserved r ∧ x.payload.eventId ∉ s.restaurant.db.mail.processed) ∨
          (s.stores.Unreserved r.id ∧ x.payload.eventId ∈ s.restaurant.db.mail.processed))) ∧
    (r.status = .stockUnavailable → s.stores.Unreserved r.id ∧
      s.payment.db.tables.payments.get? r.id = none ∧
      Order.published s.order.db .stockRelease r.id = 0) := by
  obtain ⟨s₀, ls, ⟨t₀, ht₀, rfl⟩, hrun⟩ := hs
  have h := (run_consistent ht₀ hrun).1
  have hget : s.stores.order.tables.orders.get? r.id = some r := Table.get?_of_mem hr
  refine ⟨fun hst => ?_, fun hst => ?_, fun hst => ?_⟩
  · obtain ⟨hp, hg⟩ := h.confirmed hget hst
    exact ⟨hp, hg.reserved_row hget⟩
  · obtain ⟨hp, hg⟩ := h.failed hget hst
    obtain ⟨hone, x, hx, ht, hk, he⟩ := h.release_row hget hst
    refine ⟨hp, hone, x, hx, ht, hk, ?_⟩
    rcases hg with hg | hg
    · exact .inl ⟨hg.reserved_row hget, fun hm => by simpa using (hg.release _ he).1 hm⟩
    · exact .inr ⟨hg.unreserved (by decide), (hg.release _ he).2 rfl⟩
  · obtain ⟨hg, hp, hnone⟩ := h.unavailable hget hst
    exact ⟨hg.unreserved (by decide), Option.not_isSome_iff_eq_none.1 hp, hnone⟩

/-- An order whose payment fails: the consumer stops before Transaction 2, a reconciliation pass
resolves the payment, and the compensation has not been sent yet. -/
theorem cross_service_agreement_failed :
    let burger : Order.OrderItem := ⟨0x11111111111111111111111111111111, 2, 10⟩
    let req : Order.Request := ⟨1, ⟨5, [burger]⟩, some "failure", none⟩
    let placed : Envelope := ⟨1, .orderPlaced, 0, Order.eventPayload req 70⟩
    let reserved : Envelope := ⟨11, .stockReserved, 0, Order.eventPayload req 70⟩
    let failed : Envelope := ⟨41, .paymentFailed, 240, { orderId := some 70 }⟩
    let run : List Label :=
      [.request req, .run .order 0 ⟨70, 1, 2, 0⟩, .relay .order 2 (some 0),
        .deliver .restaurant placed, .run .restaurant 0 ⟨0, 11, 12, 0⟩,
        .relay .restaurant 12 none, .deliver .payment reserved,
        .run .payment 0 ⟨71, 21, 22, 0⟩, .run .payment 0 ⟨0, 23, 24, 0⟩, .kill .payment 0,
        .reconcile 180, .run .payment 1 ⟨0, 31, 32, 240⟩, .run .payment 1 ⟨0, 33, 34, 240⟩,
        .run .payment 1 ⟨0, 41, 42, 240⟩, .relay .payment 42 (some 241),
        .deliver .order failed, .run .order 1 ⟨0, 51, 52, 242⟩]
    ∃ n, (State.start seeded).runs "success" run = some n ∧
      ∃ r ∈ n.order.db.tables.orders.rows, r.status = .paymentFailed ∧
        n.stores.PaymentIs r.id .failed ∧
        Order.published n.order.db .stockRelease r.id = 1 ∧ n.stores.Reserved r := by
  intro burger req placed reserved failed run
  have hrun : ((State.start seeded).runs "success" run).map (fun n =>
      (n.order.db.tables.orders.rows.map fun r => (r.id, r.status),
        (n.restaurant.db.tables.reservations.get? 70).isSome)) =
      some ([(70, .paymentFailed)], true) := by decide +kernel
  obtain ⟨n, hn, hobs⟩ := Option.map_eq_some_iff.1 hrun
  obtain ⟨hrows, hres⟩ := Prod.mk.inj hobs
  have hmem : (70, Order.Status.paymentFailed) ∈
      n.order.db.tables.orders.rows.map fun r => (r.id, r.status) := by
    rw [hrows]
    exact List.mem_singleton_self _
  obtain ⟨r, hr, hrs⟩ := List.mem_map.1 hmem
  obtain ⟨hid, hst⟩ := Prod.mk.inj hrs
  have hreach : (system "success").Reachable n :=
    ⟨_, run, ⟨seeded, migrated_seeded, rfl⟩, run_of_runs hn⟩
  obtain ⟨hp, hone, x, -, -, -, hcases⟩ := (cross_service_agreement hreach hr).2.1 hst
  refine ⟨n, hn, r, hr, hst, hp, hone, ?_⟩
  rcases hcases with ⟨hreserved, -⟩ | ⟨hunreserved, -⟩
  · exact hreserved
  · have hnone : n.restaurant.db.tables.reservations.get? r.id = none := hunreserved
    rw [hid] at hnone
    rw [hnone] at hres
    cases hres

end Saga

end FoodFlow
