import FoodFlow.Saga.Agreement

/-!
# Quiescence

When everything has been published and handled, every order has come to an end of which the three
databases agree, and the stock has been spent on the confirmed orders only:
`quiescent_correct`.

The proof follows the chain of events of an order: its `order.placed` event has been sent and
handled, so there is a verdict; the verdict has been handled, so the order is refused or there is
a payment; the payment has an outcome, which has been sent, and so on.
-/

namespace FoodFlow

namespace Saga

variable {dflt : String} {t₀ : Restaurant.Tables} {s : State} {o : UUID} {g g' : Stage}
  {r : Order.OrderRow} {env e : Envelope} {topic : EventType} {service : Service}

/-- The event that was refused because its order is in a terminal status. -/
def refusal : Order.Reply → Option Envelope
  | .handled env (.error (.invalidTransition current _)) =>
    if current = .pending then none else some env
  | _ => none

/-- The order service has refused the event because its order is in a terminal status. -/
def State.Refused (s : State) (env : Envelope) : Prop :=
  ∃ reply ∈ s.order.replies, refusal reply = some env

instance (s : State) (env : Envelope) : Decidable (s.Refused env) :=
  inferInstanceAs (Decidable (∃ reply ∈ s.order.replies, _))

/-- Nothing is left to be done: every row of an outbox is published, no payment is in the state
`PROCESSING`, and every message has been handled by its consumer, either to the commit that enters
it into the ledger or to a refusal. -/
structure Quiescent (s : State) : Prop where
  published : ∀ service, ∀ x ∈ (s.stores.mail service).outbox.rows, x.publishedAt ≠ none
  resolved : ∀ p ∈ s.payment.db.tables.payments.rows, p.status ≠ .processing
  handled : ∀ m ∈ s.kafka, ∀ service, m.topic ∈ service.consumes →
    s.stores.Handled service m.value ∨ (service = .order ∧ s.Refused m.value)

instance (s : Stores) (service : Service) (e : Envelope) : Decidable (s.Handled service e) :=
  inferInstanceAs (Decidable (e.eventId ∈ (s.mail service).processed))

instance (s : State) : Decidable (Quiescent s) :=
  decidable_of_iff
    ((∀ service, ∀ x ∈ (s.stores.mail service).outbox.rows, x.publishedAt ≠ none) ∧
      (∀ p ∈ s.payment.db.tables.payments.rows, p.status ≠ .processing) ∧
      ∀ m ∈ s.kafka, ∀ service, m.topic ∈ service.consumes →
        s.stores.Handled service m.value ∨ (service = .order ∧ s.Refused m.value))
    ⟨fun ⟨hp, hr, hh⟩ => ⟨hp, hr, hh⟩, fun hq => ⟨hq.published, hq.resolved, hq.handled⟩⟩

/-- The stock of the order `o` has been released. -/
def Stores.Released (s : Stores) (o : UUID) : Prop :=
  s.Unreserved o ∧ ∃ e, s.Event .stockRelease o e ∧ s.Handled .restaurant e

/-- The ends to which an order can come, by its status. -/
def Stores.Ended (s : Stores) (r : Order.OrderRow) : Order.Status → Prop
  | .pending => False
  | .confirmed => r.status = .confirmed ∧ s.Reserved r ∧ s.PaymentIs r.id .succeeded
  | .paymentFailed => r.status = .paymentFailed ∧ s.Released r.id ∧ s.PaymentIs r.id .failed
  | .stockUnavailable => r.status = .stockUnavailable ∧ s.Unreserved r.id ∧
      s.payment.tables.payments.get? r.id = none

/-- The quantity of an item in the confirmed orders. -/
def confirmedQuantity (t : Order.Tables) (i : UUID) : ℤ :=
  t.orders.sum fun r => if r.status = .confirmed then totalOf i r.items else 0

theorem Stores.Ended.status_eq {s : Stores} {status : Order.Status} (h : s.Ended r status) :
    status = r.status := by
  cases status with
  | pending => exact h.elim
  | confirmed => exact h.1.symm
  | paymentFailed => exact h.1.symm
  | stockUnavailable => exact h.1.symm

/-- **A message is handled to a commit only by being entered into the ledger.** -/
theorem handled_of_commit {f : Fresh} :
    (∀ d p d', env.eventType ∈ Service.order.consumes →
      (Order.handleTx env f).run d = .ok (p, d') → env.eventId ∈ d'.mail.processed) ∧
    (∀ d p d', env.eventType ∈ Service.restaurant.consumes →
      (Restaurant.handleTx env f).run d = .ok (p, d') → env.eventId ∈ d'.mail.processed) ∧
    ∀ o amount d p d', (Payment.recordIntent dflt env o amount f).run d = .ok (p, d') →
      env.eventId ∈ d'.mail.processed := by
  refine ⟨fun d p d' ht hrun => ?_, fun d p d' ht hrun => ?_, fun o amount d p d' hrun => ?_⟩
  · obtain ⟨-, he⟩ := Order.handleTx_ok hrun
    cases he with
    | duplicate hm => exact hm
    | unknown hno =>
      simp only [Service.consumes, List.mem_cons, List.not_mem_nil, or_false] at ht
      rcases ht with ht | ht | ht <;> rw [ht] at hno <;> cases hno
    | transition _ _ _ _ _ _ _ => exact List.mem_cons_self
  · obtain ⟨-, he⟩ := Restaurant.handleTx_ok hrun
    cases he with
    | duplicate hm => exact hm
    | unknown h₁ h₂ =>
      simp only [Service.consumes, List.mem_cons, List.not_mem_nil, or_false] at ht
      exact absurd ht (not_or.2 ⟨h₁, h₂⟩)
    | reserved _ _ _ _ _ _ => exact List.mem_cons_self
    | rejected _ _ _ _ _ _ => exact List.mem_cons_self
    | released _ _ _ _ => exact List.mem_cons_self
    | notFound _ _ _ _ => exact List.mem_cons_self
  · rcases Payment.recordIntent_ok hrun with ⟨hm, -, rfl⟩ | ⟨_, _, -, -, -, -, -, -, rfl⟩
    · exact hm
    · exact List.mem_cons_self

/-- What has been refused is about an order that has left `PENDING`. -/
theorem left_of_refused (hp : Procs dflt s) (h : s.Refused env) :
    Left s.order.db.tables env := by
  obtain ⟨reply, hm, hr⟩ := h
  unfold refusal at hr
  split at hr
  · rename_i env' current requested
    split_ifs at hr
    obtain rfl := Option.some.inj hr
    have hpt := hp.order _ (Node.mem_replies.1 hm)
    generalize hq : (Proc.done _ : Order.Process) = q at hpt
    cases hpt with
    | create req => cases Order.done_eq_createOrder hq
    | place req => cases Order.done_eq_placeOrder hq
    | handle _ => cases hq
    | response req res => cases hq
    | handled hres => cases hq; exact hres _ _ rfl
  · cases hr

namespace Quiescent

variable (hq : Quiescent s) (h : Consistent dflt t₀ s.stores) (hp : Procs dflt s)
include hq h

/-! ### The chain of events -/

theorem sent (he : s.stores.Event topic o e) : ⟨topic, e⟩ ∈ s.kafka := by
  obtain ⟨i, x, hx, rfl, -, rfl⟩ := he
  exact h.post.marked i x hx (hq.published i x hx)

theorem handled_of_event (service : Service) (he : s.stores.Event topic o e)
    (ht : topic ∈ service.consumes) (hne : service ≠ .order) : s.stores.Handled service e :=
  (hq.handled _ (hq.sent h he) service ht).resolve_right fun hr => hne hr.1

include hp

/-- An order that is the subject of an event for the order service has left `PENDING`. -/
theorem left_of_event (he : s.stores.Event topic o e) (ht : topic ∈ Service.order.consumes) :
    s.order.db.tables.status o ≠ some .pending := by
  rcases hq.handled _ (hq.sent h he) .order ht with hh | ⟨-, hr⟩
  · refine h.settled topic o e he ?_ hh
    intro hnone
    simp only [Service.consumes, List.mem_cons, List.not_mem_nil, or_false] at ht
    rcases ht with rfl | rfl | rfl <;> cases hnone
  · obtain ⟨o', current, ho', hs, hne⟩ := left_of_refused hp hr
    obtain rfl := Option.some.inj ((h.post.orderId he).symm.trans ho')
    rw [hs]
    simpa using hne

/-- An order whose stock was reserved has a payment with an outcome. -/
theorem left_of_reserved (he : s.stores.Event .stockReserved o e) :
    s.order.db.tables.status o ≠ some .pending := by
  have hhas := h.recorded o e he (hq.handled_of_event h .payment he (by decide) (by decide))
  obtain ⟨p, hget⟩ := Option.isSome_iff_exists.1 hhas
  have hmem := Table.mem_of_get? hget
  have hid : p.orderId = o := Table.key_of_get? hget
  -- the payment is no longer in process, so its outcome has been published
  have houtcome : ∃ success, p.status = Payment.statusOf success := by
    have hne := hq.resolved p hmem
    cases hst : p.status with
    | processing => exact absurd hst hne
    | succeeded => exact ⟨true, rfl⟩
    | failed => exact ⟨false, rfl⟩
  obtain ⟨success, hst⟩ := houtcome
  obtain ⟨x, hx, hty, ho⟩ := h.payments.published p hmem success hst
  obtain ⟨-, htopic, hkey⟩ := h.post.shape .payment x hx
  have hev : s.stores.Event (Payment.topicOf success) o x.payload :=
    ⟨.payment, x, hx, htopic.symm.trans hty, hid ▸ Option.some.inj (hkey.symm.trans ho), rfl⟩
  refine hq.left_of_event h hp hev ?_
  cases success <;> decide

/-- **No order is `PENDING`.** -/
theorem left (hr : s.order.db.tables.orders.get? o = some r) : r.status ≠ .pending := by
  have hid : r.id = o := Table.key_of_get? hr
  have hstatus : s.order.db.tables.status o = some r.status := by
    rw [Order.Tables.status, hr]
    rfl
  have hplaced : 0 < Order.published s.stores.order .orderPlaced o := by
    have hone := h.orders.placed r (Table.mem_of_get? hr)
    rw [hid] at hone
    omega
  obtain ⟨x, -, -, -, he⟩ := event_of_published hplaced
  have hh := hq.handled_of_event h .restaurant he (by decide) (by decide)
  obtain ⟨g, hg⟩ := h.stage o
  -- the verdict on the order
  have hverdict : (∃ e, s.stores.Event .stockReserved o e) ∨
      ∃ e, s.stores.Event .stockRejected o e := by
    cases g with
    | untouched => exact absurd rfl ((hg.placed _ he).1 hh)
    | reserved => exact .inl (hg.reserved.2 (.inl rfl))
    | released => exact .inl (hg.reserved.2 (.inr rfl))
    | rejected => exact .inr (hg.rejected.2 rfl)
  intro hpending
  rw [hpending] at hstatus
  rcases hverdict with ⟨e, he⟩ | ⟨e, he⟩
  · exact hq.left_of_reserved h hp he hstatus
  · exact hq.left_of_event h hp he (by decide) hstatus

/-- Every order has come to the end that its status says. -/
theorem ended (hr : s.order.db.tables.orders.get? o = some r) :
    s.stores.Ended r r.status := by
  obtain rfl : r.id = o := Table.key_of_get? hr
  have hne := hq.left h hp hr
  cases hst : r.status with
  | pending => exact absurd hst hne
  | confirmed =>
    obtain ⟨hpay, hg⟩ := h.confirmed hr hst
    exact ⟨hst, hg.reserved_row hr, hpay⟩
  | paymentFailed =>
    obtain ⟨hpay, hg⟩ := h.failed hr hst
    -- the compensation has been handled, so the stock is no longer reserved
    obtain ⟨-, x, -, -, -, he⟩ := h.release_row hr hst
    have hh := hq.handled_of_event h .restaurant he (by decide) (by decide)
    rcases hg with hg | hg
    · exact absurd ((hg.release _ he).1 hh) (by decide)
    · exact ⟨hst, ⟨hg.unreserved (by decide), _, he, hh⟩, hpay⟩
  | stockUnavailable =>
    obtain ⟨hg, hno, -⟩ := h.unavailable hr hst
    exact ⟨hst, hg.unreserved (by decide), Option.not_isSome_iff_eq_none.1 hno⟩

/-! ### The stock -/

/-- What is reserved is what the confirmed orders contain. -/
theorem reserved_eq (i : UUID) :
    s.restaurant.db.tables.reserved i = confirmedQuantity s.order.db.tables i := by
  refine Table.sum_congr fun o => ?_
  cases hres : s.restaurant.db.tables.reservations.get? o with
  | none =>
    cases hr : s.order.db.tables.orders.get? o with
    | none => rfl
    | some r =>
      -- a confirmed order would have its items reserved
      have hne : r.status ≠ .confirmed := by
        intro hst
        have hreserved : s.stores.Reserved r := (h.confirmed hr hst).2.reserved_row hr
        have hid : r.id = o := Table.key_of_get? hr
        rw [Stores.Reserved, hid] at hreserved
        cases hres.symm.trans hreserved
      simp [hne]
  | some res =>
    -- a reservation belongs to an order, which is neither refused nor compensated
    obtain ⟨g, hg⟩ := h.stage o
    have hitems := hg.items
    have hreservation : s.stores.restaurant.tables.reservations.get? o = some res := hres
    rw [Stores.reservedFor, hreservation] at hitems
    split_ifs at hitems with hreserved
    · obtain ⟨r, hr, hi⟩ := Option.map_eq_some_iff.1 hitems.symm
      have hid : r.id = o := Table.key_of_get? hr
      have hend := hq.ended h hp hr
      have hconfirmed : r.status = .confirmed := by
        have hno : ¬ s.stores.Unreserved r.id := by
          rw [Stores.Unreserved, hid]
          exact fun hnone => by cases hres.symm.trans hnone
        cases hst : r.status with
        | pending => exact absurd hst (hq.left h hp hr)
        | confirmed => rfl
        | paymentFailed => rw [hst] at hend; exact absurd hend.2.1.1 hno
        | stockUnavailable => rw [hst] at hend; exact absurd hend.2.1 hno
      have hr' : s.order.db.tables.orders.get? o = some r := hr
      rw [hr']
      simp [hconfirmed, hi]
    · cases hitems

/-- The stock is what it was at first less what the confirmed orders contain. -/
theorem quantity_eq (i : UUID) : s.restaurant.db.tables.quantity i =
    (t₀.quantity i).map (· - confirmedQuantity s.order.db.tables i) := by
  rw [← h.stock.balance i, ← hq.reserved_eq h hp i, Option.map_map]
  have hid : ((· - s.restaurant.db.tables.reserved i) ∘
      (· + s.stores.restaurant.tables.reserved i)) = (id : ℤ → ℤ) := by
    funext q
    exact add_sub_cancel_right q _
  rw [hid, Option.map_id]
  rfl

end Quiescent

/-- **Quiescent correctness of the saga.**  In every run that reaches a state in which every row
of an outbox is published, no payment is in the state `PROCESSING` and every message has been
handled, no order is `PENDING`, every order has come to exactly one of the three ends, and the
stock of every item is what it was at first less the quantities in the confirmed orders. -/
theorem quiescent_correct (ht₀ : Restaurant.Migrated ⟨t₀, .empty⟩) {ls : List Label}
    (hr : (system dflt).Run (.start t₀) ls s) (hq : Quiescent s) :
    (∀ r ∈ s.order.db.tables.orders.rows, r.status ≠ .pending ∧
      ∃! status, s.stores.Ended r status) ∧
    ∀ i, s.restaurant.db.tables.quantity i =
      (t₀.quantity i).map (· - confirmedQuantity s.order.db.tables i) := by
  obtain ⟨h, hp⟩ := run_consistent ht₀ hr
  refine ⟨fun r hmem => ?_, hq.quantity_eq h hp⟩
  have hget := Table.get?_of_mem hmem
  exact ⟨hq.left h hp hget, r.status, hq.ended h hp hget, fun _ hend => hend.status_eq⟩

/-- Three orders that come to the three ends.  The consumer of the second one's payment is
overtaken by a reconciliation pass, so that its outcome is published twice and the order service
refuses the second one; the first one's `stock.reserved` event is delivered twice. -/
theorem quiescent_correct_three :
    let burger (quantity : ℤ) : Order.OrderItem :=
      ⟨0x11111111111111111111111111111111, quantity, 10⟩
    let req₁ : Order.Request := ⟨1, ⟨5, [burger 2]⟩, none, none⟩
    let req₂ : Order.Request := ⟨1, ⟨5, [burger 3]⟩, some "failure", none⟩
    let req₃ : Order.Request := ⟨2, ⟨5, [burger 1000]⟩, none, none⟩
    let short := "Insufficient stock for item 11111111-1111-1111-1111-111111111111. " ++
      "Requested 1000, available 95"
    let ordered : List Label :=
      [.request req₁, .run .order 0 ⟨70, 1, 2, 0⟩, .request req₂, .run .order 1 ⟨80, 3, 4, 0⟩,
        .request req₃, .run .order 2 ⟨90, 5, 6, 0⟩, .relay .order 2 (some 1),
        .relay .order 4 (some 1), .relay .order 6 (some 1)]
    let reserved : List Label :=
      [.deliver .restaurant ⟨1, .orderPlaced, 0, Order.eventPayload req₁ 70⟩,
        .run .restaurant 0 ⟨0, 11, 12, 1⟩,
        .deliver .restaurant ⟨3, .orderPlaced, 0, Order.eventPayload req₂ 80⟩,
        .run .restaurant 1 ⟨0, 13, 14, 1⟩,
        .deliver .restaurant ⟨5, .orderPlaced, 0, Order.eventPayload req₃ 90⟩,
        .run .restaurant 2 ⟨0, 15, 16, 1⟩, .relay .restaurant 12 (some 2),
        .relay .restaurant 14 (some 2), .relay .restaurant 16 (some 2)]
    let paid : List Label :=
      [.deliver .payment ⟨11, .stockReserved, 1, Order.eventPayload req₁ 70⟩,
        .run .payment 0 ⟨71, 101, 0, 2⟩, .run .payment 0 ⟨0, 102, 0, 2⟩,
        .run .payment 0 ⟨0, 21, 22, 3⟩,
        .deliver .payment ⟨11, .stockReserved, 1, Order.eventPayload req₁ 70⟩,
        .run .payment 1 ⟨0, 103, 0, 3⟩,
        .deliver .payment ⟨13, .stockReserved, 1, Order.eventPayload req₂ 80⟩,
        .run .payment 2 ⟨81, 104, 0, 3⟩, .run .payment 2 ⟨0, 105, 0, 3⟩, .reconcile 180,
        .run .payment 3 ⟨0, 106, 0, 300⟩, .run .payment 3 ⟨0, 107, 0, 300⟩,
        .run .payment 3 ⟨0, 23, 24, 300⟩, .run .payment 2 ⟨0, 25, 26, 301⟩,
        .relay .payment 22 (some 302), .relay .payment 24 (some 302),
        .relay .payment 26 (some 302)]
    let ended : List Label :=
      [.deliver .order ⟨21, .paymentSucceeded, 3, { orderId := some 70 }⟩,
        .run .order 3 ⟨0, 108, 0, 303⟩,
        .deliver .order ⟨23, .paymentFailed, 300, { orderId := some 80 }⟩,
        .run .order 4 ⟨0, 31, 32, 303⟩,
        .deliver .order ⟨25, .paymentFailed, 301, { orderId := some 80 }⟩,
        .run .order 5 ⟨0, 109, 0, 303⟩,
        .deliver .order ⟨15, .stockRejected, 1, { orderId := some 90, reason := some short }⟩,
        .run .order 6 ⟨0, 110, 0, 303⟩, .relay .order 32 (some 304),
        .deliver .restaurant ⟨31, .stockRelease, 303, { orderId := some 80 }⟩,
        .run .restaurant 3 ⟨0, 111, 0, 305⟩]
    ∃ n, (State.start seeded).runs "success" (ordered ++ reserved ++ paid ++ ended) = some n ∧
      (∀ r ∈ n.order.db.tables.orders.rows, r.status ≠ .pending ∧
        ∃! status, n.stores.Ended r status) ∧
      n.restaurant.db.tables.quantity 0x11111111111111111111111111111111 = some 98 := by
  intro burger req₁ req₂ req₃ short ordered reserved paid ended
  have hrun : ((State.start seeded).runs "success" (ordered ++ reserved ++ paid ++ ended)).map
      (fun n => (decide (Quiescent n),
        confirmedQuantity n.order.db.tables 0x11111111111111111111111111111111)) =
      some (true, 2) := by decide +kernel
  obtain ⟨n, hn, hobs⟩ := Option.map_eq_some_iff.1 hrun
  obtain ⟨hq, hquantity⟩ := Prod.mk.inj hobs
  obtain ⟨hends, hstock⟩ :=
    quiescent_correct migrated_seeded (run_of_runs hn) (of_decide_eq_true hq)
  refine ⟨n, hn, hends, ?_⟩
  rw [hstock, hquantity]
  decide +kernel

end Saga

end FoodFlow
