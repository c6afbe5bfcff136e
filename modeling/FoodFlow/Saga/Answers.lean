import FoodFlow.Saga.Agreement
import FoodFlow.Saga.Fidelity
import FoodFlow.Order.Access
import FoodFlow.Payment.Passes
import FoodFlow.Payment.Routes

/-!
# What a client is told

A client polls `GET /orders/{id}` and `GET /payments/order/{id}` while the saga goes on, in any
order and at any times.  The two services answer from databases of their own.

* `Order.OrderRow.Ages`, `Payment.PaymentRow.Ages` : what may become of a row;
* `order_ages`, `payment_ages` : what becomes of the rows along a run;
* `answers_consistent` : **what a client has been told once is never contradicted later, by neither
  of the two services.**
-/

namespace FoodFlow

/-- A row that is still `PENDING` may change its status once; otherwise it stays as it is. -/
def Order.OrderRow.Ages (r r' : Order.OrderRow) : Prop :=
  r' = r ∨ r.status = .pending ∧
    ∃ status updatedAt, r' = { r with status := status, updatedAt := updatedAt }

/-- A payment that is still `PROCESSING` may get an outcome; one with an outcome may get it once
more. -/
def Payment.PaymentRow.Ages (p p' : Payment.PaymentRow) : Prop :=
  ∃ status updatedAt, p' = { p with status := status, updatedAt := updatedAt } ∧
    (p.status ≠ .processing → status ≠ .processing)

/-- What may become of the answer about an order. -/
def Order.OrderResponse.Ages (a a' : Order.OrderResponse) : Prop :=
  a' = a ∨ a.status = .pending ∧
    ∃ status updatedAt, a' = { a with status := status, updatedAt := updatedAt }

/-- What may become of the answer about a payment. -/
def Payment.PaymentResponse.Ages (b b' : Payment.PaymentResponse) : Prop :=
  ∃ status updatedAt, b' = { b with status := status, updatedAt := updatedAt } ∧
    (b.status ≠ .processing → status = b.status)

namespace Saga

variable {dflt : String} {s s' : Stores} {o : UUID} {n n' : State} {ls : List Label}

/-! ### The rows -/

theorem ages_trans {r r' r'' : Order.OrderRow} (h : r.Ages r') (h' : r'.Ages r'') :
    r.Ages r'' := by
  rcases h with rfl | ⟨hp, status, updatedAt, rfl⟩
  · exact h'
  · rcases h' with rfl | ⟨-, status', updatedAt', rfl⟩
    · exact .inr ⟨hp, status, updatedAt, rfl⟩
    · exact .inr ⟨hp, status', updatedAt', rfl⟩

theorem payment_ages_trans {p p' p'' : Payment.PaymentRow} (h : p.Ages p') (h' : p'.Ages p'') :
    p.Ages p'' := by
  obtain ⟨status, updatedAt, rfl, hs⟩ := h
  obtain ⟨status', updatedAt', rfl, hs'⟩ := h'
  exact ⟨status', updatedAt', rfl, fun hne => hs' (hs hne)⟩

/-- What a step does to an order. -/
theorem Commits.order_ages {r : Order.OrderRow} (hc : Commits dflt s s')
    (hr : s.order.tables.orders.get? o = some r) :
    ∃ r', s'.order.tables.orders.get? o = some r' ∧ r.Ages r' := by
  cases hc with
  | same => exact ⟨r, hr, .inl rfl⟩
  | @place req f p d' _ hrun =>
    obtain ⟨r', -, hviol, -, -, rfl⟩ := Order.placeTx_ok hrun
    have hfree := (Order.violates?_eq_none hviol).1
    refine ⟨r, ?_, .inl rfl⟩
    show (s.order.tables.orders.insert r').get? o = some r
    rw [Table.get?_insert hfree, if_neg]
    · exact hr
    · rintro rfl
      rw [hfree] at hr
      cases hr
  | @order env f d' _ _ he =>
    cases he with
    | duplicate _ => exact ⟨r, hr, .inl rfl⟩
    | unknown _ => exact ⟨r, hr, .inl rfl⟩
    | transition o' target _ _ _ hpending _ =>
      refine ⟨_, Order.get?_setStatus.trans (congrArg _ hr), ?_⟩
      beta_reduce
      split_ifs with hid
      · -- the order of the event was still `PENDING`
        have ho : o' = o := hid.symm.trans (Table.key_of_get? hr)
        rw [ho, Order.Tables.status, hr] at hpending
        exact .inr ⟨Option.some.inj hpending, target, f.now, rfl⟩
      · exact .inl rfl
  | restaurant _ _ _ => exact ⟨r, hr, .inl rfl⟩
  | restart => exact ⟨r, hr, .inl rfl⟩
  | payment _ _ => exact ⟨r, hr, .inl rfl⟩
  | relay _ ho _ _ => exact ⟨r, by rw [ho]; exact hr, .inl rfl⟩

/-- What a step does to a payment. -/
theorem Commits.payment_ages {p : Payment.PaymentRow} (hc : Commits dflt s s')
    (hp : s.payment.tables.payments.get? o = some p) :
    ∃ p', s'.payment.tables.payments.get? o = some p' ∧ p.Ages p' := by
  have same : p.Ages p := ⟨p.status, p.updatedAt, rfl, id⟩
  have outcome {success : Bool} {o' pid : UUID} {f : Fresh} :
      ∃ p', (Payment.resolved success o' pid f s.payment).tables.payments.get? o = some p' ∧
        p.Ages p' := by
    refine ⟨_, (Payment.get?_resolved success o' pid o).trans (congrArg _ hp), ?_⟩
    beta_reduce
    split_ifs
    · exact ⟨Payment.statusOf success, f.now, rfl, fun _ => Payment.statusOf_ne success⟩
    · exact same
  cases hc with
  | same => exact ⟨p, hp, same⟩
  | place _ _ => exact ⟨p, hp, same⟩
  | order _ _ _ => exact ⟨p, hp, same⟩
  | restaurant _ _ _ => exact ⟨p, hp, same⟩
  | restart => exact ⟨p, hp, same⟩
  | payment _ he =>
    cases he with
    | unchanged => exact ⟨p, hp, same⟩
    | @intent env o' _ cents directive _ _ _ _ _ _ _ hfree =>
      refine ⟨p, ?_, same⟩
      show (s.payment.tables.payments.insert _).get? o = some p
      rw [Table.get?_insert hfree, if_neg]
      · exact hp
      · rintro rfl
        cases hfree.symm.trans hp
    | outcome _ _ _ => exact outcome
    | settled _ _ _ _ => exact outcome
  | relay _ _ _ hpay => exact ⟨p, by rw [hpay]; exact hp, same⟩

/-- The proof rule for what has become of the databases since a state of a run. -/
theorem run_since (hp : Procs dflt n) (hr : (system dflt).Run n ls n') (I : Stores → Prop)
    (h₀ : I n.stores) (hstep : ∀ s s', I s → Commits dflt s s' → I s') : I n'.stores := by
  have hmain : I n'.stores ∧ Procs dflt n' := by
    refine hr.invariant (I := fun m => I m.stores ∧ Procs dflt m) ⟨h₀, hp⟩ ?_
    rintro s l s' ⟨hI, hp⟩ hst
    obtain ⟨hc, hp'⟩ := step_commits hp hst
    exact ⟨hstep _ _ hI hc, hp'⟩
  exact hmain.1

/-- What a run does to an order. -/
theorem order_ages (hp : Procs dflt n) (hr : (system dflt).Run n ls n') {r : Order.OrderRow}
    (hrow : n.order.db.tables.orders.get? o = some r) :
    ∃ r', n'.order.db.tables.orders.get? o = some r' ∧ r.Ages r' := by
  refine run_since hp hr (fun s => ∃ r', s.order.tables.orders.get? o = some r' ∧ r.Ages r')
    ⟨r, hrow, .inl rfl⟩ ?_
  rintro s s' ⟨r', hr', ha⟩ hc
  obtain ⟨r'', hr'', ha'⟩ := hc.order_ages hr'
  exact ⟨r'', hr'', ages_trans ha ha'⟩

/-- What a run does to a payment: an outcome stays. -/
theorem payment_ages {t₀ : Restaurant.Tables} (h : Consistent dflt t₀ n.stores)
    (h' : Consistent dflt t₀ n'.stores) (hp : Procs dflt n) (hr : (system dflt).Run n ls n')
    {p : Payment.PaymentRow} (hrow : n.payment.db.tables.payments.get? o = some p) :
    ∃ status updatedAt, n'.payment.db.tables.payments.get? o =
      some { p with status := status, updatedAt := updatedAt } ∧
      (p.status ≠ .processing → status = p.status) := by
  have hmain : ∃ p', n'.payment.db.tables.payments.get? o = some p' ∧ p.Ages p' := by
    refine run_since hp hr
      (fun s => ∃ p', s.payment.tables.payments.get? o = some p' ∧ p.Ages p')
      ⟨p, hrow, p.status, p.updatedAt, rfl, id⟩ ?_
    rintro s s' ⟨p', hp', ha⟩ hc
    obtain ⟨p'', hp'', ha'⟩ := hc.payment_ages hp'
    exact ⟨p'', hp'', payment_ages_trans ha ha'⟩
  obtain ⟨_, hp', status, updatedAt, rfl, hs⟩ := hmain
  refine ⟨status, updatedAt, hp', fun hne => ?_⟩
  -- both are what the directive of the payment asks for
  exact (h'.payments.decided _ (Table.mem_of_get? hp') (hs hne)).trans
    (h.payments.decided p (Table.mem_of_get? hrow) hne).symm

/-! ### The answers -/

/-- The amount of a payment is that of its order. -/
theorem amount_eq (hf : Faithful dflt s) {r : Order.OrderRow}
    {p : Payment.PaymentRow} (hr : s.order.tables.orders.get? o = some r)
    (hp : s.payment.tables.payments.get? o = some p) : p.amount = r.totalAmount := by
  obtain ⟨t, ht, hc⟩ := hf.charges p (Table.mem_of_get? hp)
  have ho : p.orderId = o := Table.key_of_get? hp
  rw [ho, Stores.terms?, hr] at ht
  obtain rfl := Option.some.inj ht
  exact hc.amount

/-- The payment service says the status of a payment, and the amount of the order. -/
theorem getPaymentStatus_of_paymentIs {s : State} {r : Order.OrderRow} {status : Payment.Status}
    (hf : Faithful dflt s.stores) (hr : s.order.db.tables.orders.get? o = some r)
    (hp : s.stores.PaymentIs o status) :
    ∃ b, Payment.getPaymentStatus o s.payment.db.tables = .ok b ∧ b.status = status ∧
      b.amount = (Order.orderResponse r).totalAmount := by
  obtain ⟨p, hp, hst⟩ := hp
  refine ⟨_, Payment.getPaymentStatus_eq_ok.2 ⟨p, hp, rfl⟩, hst, ?_⟩
  show (p.amount : ℚ) / 100 = r.totalAmount / 100
  rw [amount_eq hf hr hp]

/-- **Answers are consistent.**  A client asks once, at the state `n` of a run, and again at any
later state `n'`.  An order that has been shown is shown again to its user, and unless it was
`PENDING` the answer is the same; a payment is found again, with the same outcome if it had one.
If the order was confirmed or its payment has failed, the payment service says so too, with the same
amount; if the stock was not available, it will never know of a payment.  And what it has said of a
payment, the order service does not contradict later. -/
theorem answers_consistent {J : Order.Jwt} (hs : (system dflt).Reachable n)
    (hr : (system dflt).Run n ls n') (o : UUID) :
    (∀ authorization now a, Order.getOrder J authorization now o n.order.db.tables = .ok a →
      (∀ authorization' now' c, Order.Presents J authorization' now' c →
        uuidStr c.sub = a.userId → ∃ a',
          Order.getOrder J authorization' now' o n'.order.db.tables = .ok a' ∧ a.Ages a') ∧
      (a.status = .confirmed → ∃ b, Payment.getPaymentStatus o n'.payment.db.tables = .ok b ∧
        b.status = .succeeded ∧ b.amount = a.totalAmount) ∧
      (a.status = .paymentFailed → ∃ b, Payment.getPaymentStatus o n'.payment.db.tables = .ok b ∧
        b.status = .failed ∧ b.amount = a.totalAmount) ∧
      (a.status = .stockUnavailable →
        Payment.getPaymentStatus o n'.payment.db.tables = .error ⟨404, "Payment not found"⟩)) ∧
    ∀ b, Payment.getPaymentStatus o n.payment.db.tables = .ok b →
      (∃ b', Payment.getPaymentStatus o n'.payment.db.tables = .ok b' ∧ b.Ages b') ∧
      ∀ authorization now a', Order.getOrder J authorization now o n'.order.db.tables = .ok a' →
        b.amount = a'.totalAmount ∧ a'.status ≠ .stockUnavailable ∧
        (b.status = .succeeded → a'.status ≠ .paymentFailed) ∧
        (b.status = .failed → a'.status ≠ .confirmed) := by
  obtain ⟨s₀, ls₀, ⟨t₀, ht₀, rfl⟩, hrun⟩ := hs
  obtain ⟨h, hp⟩ := run_consistent ht₀ hrun
  obtain ⟨h', -⟩ := run_consistent ht₀ (hrun.trans hr)
  have hf' := run_faithful ht₀ (hrun.trans hr)
  constructor
  · intro authorization now a ha
    obtain ⟨-, row, -, hrow, -, rfl⟩ := Order.getOrder_eq_ok.1 ha
    obtain ⟨row', hrow', hages⟩ := order_ages hp hr hrow
    -- an order that has left `PENDING` is as it was
    have stays (hne : row.status ≠ .pending) :
        n'.order.db.tables.orders.get? o = some row := by
      rcases hages with rfl | ⟨hpending, -⟩
      · exact hrow'
      · exact absurd hpending hne
    refine ⟨fun authorization' now' c hc hu => ?_, fun hst => ?_, fun hst => ?_, fun hst => ?_⟩
    · have hsame : row'.userId = row.userId := by
        rcases hages with rfl | ⟨-, _, _, rfl⟩ <;> rfl
      refine ⟨Order.orderResponse row', Order.getOrder_eq_ok.2 ⟨c, row', hc, hrow', ?_, rfl⟩, ?_⟩
      · rw [hsame, hu]
        rfl
      · rcases hages with rfl | ⟨hpending, status, updatedAt, rfl⟩
        · exact .inl rfl
        · exact .inr ⟨hpending, status, updatedAt, rfl⟩
    · have hrow := stays (by rw [show row.status = .confirmed from hst]; decide)
      exact getPaymentStatus_of_paymentIs hf' hrow (h'.confirmed hrow hst).1
    · have hrow := stays (by rw [show row.status = .paymentFailed from hst]; decide)
      exact getPaymentStatus_of_paymentIs hf' hrow (h'.failed hrow hst).1
    · have hrow := stays (by rw [show row.status = .stockUnavailable from hst]; decide)
      obtain ⟨-, hnone, -⟩ := h'.unavailable hrow hst
      exact Payment.getPaymentStatus_eq_error.2 ⟨Option.not_isSome_iff_eq_none.1 hnone, rfl⟩
  · intro b hb
    obtain ⟨p, hrow, rfl⟩ := Payment.getPaymentStatus_eq_ok.1 hb
    obtain ⟨status, updatedAt, hrow', hstays⟩ := payment_ages h h' hp hr hrow
    refine ⟨⟨_, Payment.getPaymentStatus_eq_ok.2 ⟨_, hrow', rfl⟩, status, updatedAt, rfl, hstays⟩,
      fun authorization now a' ha' => ?_⟩
    obtain ⟨-, r, -, hr', -, rfl⟩ := Order.getOrder_eq_ok.1 ha'
    -- the payment has one status
    have unique {status' : Payment.Status} (hp' : n'.stores.PaymentIs o status') :
        status = status' := by
      obtain ⟨p', hp', rfl⟩ := hp'
      obtain rfl := Option.some.inj (hrow'.symm.trans hp')
      rfl
    refine ⟨?_, fun hst => ?_, fun hsucceeded hst => ?_, fun hfailed hst => ?_⟩
    · show (p.amount : ℚ) / 100 = r.totalAmount / 100
      rw [← amount_eq hf' hr' hrow']
    · obtain ⟨-, hnone, -⟩ := h'.unavailable hr' hst
      exact hnone (Option.isSome_iff_exists.2 ⟨_, hrow'⟩)
    · have hp : p.status = .succeeded := hsucceeded
      have hst := (hstays (by rw [hp]; decide)).symm.trans (unique (h'.failed hr' hst).1)
      rw [hp] at hst
      cases hst
    · have hp : p.status = .failed := hfailed
      have hst := (hstays (by rw [hp]; decide)).symm.trans (unique (h'.confirmed hr' hst).1)
      rw [hp] at hst
      cases hst

/-- The payment has failed, and the order is still `PENDING`; later its user is told so. -/
theorem answers_consistent_failed :
    let burger : Item := ⟨0x11111111111111111111111111111111, 2, 10⟩
    let req : Order.Request := ⟨1, ⟨5, [.of burger]⟩, some "failure", none⟩
    let before : List Label :=
      [.request req, .run .order 0 ⟨70, 1, 2, 0⟩, .relay .order 2 (some 0),
        .deliver .restaurant ⟨1, .orderPlaced, 0, Order.eventPayload req 70⟩,
        .run .restaurant 0 ⟨0, 11, 12, 0⟩, .relay .restaurant 12 none,
        .deliver .payment ⟨11, .stockReserved, 0, Order.eventPayload req 70⟩,
        .run .payment 0 ⟨71, 21, 22, 0⟩, .run .payment 0 ⟨0, 23, 24, 0⟩,
        .run .payment 0 ⟨0, 41, 42, 1⟩]
    let after : List Label :=
      [.relay .payment 42 (some 2), .deliver .order ⟨41, .paymentFailed, 1, { orderId := some 70 }⟩,
        .run .order 1 ⟨0, 51, 52, 3⟩]
    let header := some ("Bearer " ++ Order.plainJwt.encode (Auth.createAccessToken 1 "a@b.c" 0))
    ∃ n n' b a', (State.start seeded).runs "success" before = some n ∧
      n.runs "success" after = some n' ∧
      Payment.getPaymentStatus 70 n.payment.db.tables = .ok b ∧ b.status = .failed ∧
      Order.getOrder Order.plainJwt header 4 70 n'.order.db.tables = .ok a' ∧
      a'.status = .paymentFailed ∧ b.amount = a'.totalAmount := by
  intro burger req before after header
  let row : Order.OrderRow :=
    ⟨70, 1, 5, [burger], 2000, .paymentFailed, some "failure", none, 0, 3⟩
  have hrun : ((State.start seeded).runs "success" before).bind (fun n =>
      (n.runs "success" after).map fun n' =>
        ((n.payment.db.tables.payments.get? 70).map Payment.PaymentRow.status,
          n'.order.db.tables.orders.get? 70)) = some (some .failed, some row) := by
    decide +kernel
  obtain ⟨n, hn, hrest⟩ := Option.bind_eq_some_iff.1 hrun
  obtain ⟨n', hn', hobs⟩ := Option.map_eq_some_iff.1 hrest
  obtain ⟨hpay, hrow⟩ := Prod.mk.inj hobs
  obtain ⟨p, hp, hst⟩ := Option.map_eq_some_iff.1 hpay
  have hreach : (system "success").Reachable n :=
    ⟨_, before, ⟨seeded, migrated_seeded, rfl⟩, run_of_runs hn⟩
  have hb : Payment.getPaymentStatus 70 n.payment.db.tables = .ok (Payment.paymentResponse p) :=
    Payment.getPaymentStatus_eq_ok.2 ⟨p, hp, rfl⟩
  have ha : Order.getOrder Order.plainJwt header 4 70 n'.order.db.tables =
      .ok (Order.orderResponse row) := by
    refine Order.getOrder_eq_ok.2 ⟨Auth.createAccessToken 1 "a@b.c" 0, row,
      ⟨_, Order.bearer?_bearer _, Order.plainJwt.verify_encode _, ?_, ?_⟩, hrow, rfl, rfl⟩
    · exact Nat.zero_le 4
    · exact show 4 < 0 + 15 * 60 by decide
  exact ⟨n, n', _, _, hn, hn', hb, hst, ha, rfl,
    (((answers_consistent hreach (run_of_runs hn') 70).2 _ hb).2 _ _ _ ha).1⟩

end Saga

end FoodFlow
