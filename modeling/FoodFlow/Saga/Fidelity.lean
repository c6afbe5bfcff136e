import FoodFlow.Saga.Consistency

/-!
# What is charged and what is reserved

The amount and the directive of an order travel from its row through two outboxes and two topics
to its payment, its items through one to its reservation.  What is charged and reserved is what
was ordered: `charged_for_order`.

* `Terms` : the columns of an order that the others depend on, which never change;
* `Wrote`, `event_of_commits` : the events that a step can write, and what each rests on;
* `Faithful.step` : every step keeps what the events in flight and the payments have to say.
-/

namespace FoodFlow

namespace Saga

/-- What an order is about. -/
structure Terms where
  restaurantId : UUID
  items : List Item
  /-- In hundredths. -/
  totalAmount : ℤ
  paymentSimulate : Option String

/-- The terms of an order. -/
def termsOf (r : Order.OrderRow) : Terms :=
  ⟨r.restaurantId, r.items, r.totalAmount, r.paymentSimulate⟩

/-- The sum of quantity times price, as the order service computes it. -/
def Terms.sum (t : Terms) : Option ℚ :=
  (Order.totalAmount ⟨t.restaurantId, t.items.map .of⟩).value?

/-- The gateway decides for both directives alike. -/
def SameDecision (dflt : String) (x y : Option String) : Prop :=
  ∀ amount, Payment.processPayment dflt amount x = Payment.processPayment dflt amount y

/-- The payload asks for the sum of an order with these terms, and for a directive that decides
as the one stored. -/
structure Asks (dflt : String) (t : Terms) (payload : Payload) : Prop where
  amount : payload.totalAmount = t.sum
  directive : SameDecision dflt payload.paymentSimulate t.paymentSimulate

/-- The amount charged is the one ordered, and the directive stored decides as the one of the
order. -/
structure Charges (dflt : String) (t : Terms) (p : Payment.PaymentRow) : Prop where
  amount : p.amount = t.totalAmount
  directive : SameDecision dflt p.paymentSimulate t.paymentSimulate

/-- The terms of the order `o`. -/
def Stores.terms? (s : Stores) (o : UUID) : Option Terms :=
  (s.order.tables.orders.get? o).map termsOf

/-- What every order, every event in flight and every payment has to say. -/
structure Faithful (dflt : String) (s : Stores) : Prop where
  rounded : ∀ o t, s.terms? o = some t → t.sum.bind decimal = some t.totalAmount
  asks : ∀ topic o e, s.Event topic o e → topic = .orderPlaced ∨ topic = .stockReserved →
    ∃ t, s.terms? o = some t ∧ Asks dflt t e.payload
  charges : ∀ p ∈ s.payment.tables.payments.rows, ∃ t, s.terms? p.orderId = some t ∧
    Charges dflt t p

variable {dflt : String} {t₀ : Restaurant.Tables} {s s' : Stores} {o : UUID} {t : Terms}
  {env : Envelope} {f : Fresh} {req : Order.Request}

/-! ### The directive -/

/-- The event carries the directive only when it is not empty, which the gateway does not tell
apart. -/
theorem sameDecision_truthy (x : Option String) : SameDecision dflt (Order.truthy x) x := by
  intro amount
  cases x with
  | none => rfl
  | some x =>
    by_cases hx : x = ""
    · subst hx
      rfl
    · rw [Order.truthy_some hx]

theorem SameDecision.trans {x y z : Option String} (h : SameDecision dflt x y)
    (h' : SameDecision dflt y z) : SameDecision dflt x z := fun a => (h a).trans (h' a)

theorem SameDecision.symm {x y : Option String} (h : SameDecision dflt x y) :
    SameDecision dflt y x := fun a => (h a).symm

/-- What is stored decides as what was given. -/
theorem sameDecision_varchar {x stored : Option String} (h : varchar? 20 x = some stored) :
    SameDecision dflt stored x := fun _ => Payment.processPayment_varchar h

/-- The event of a new order asks for what its row says. -/
theorem asks_placed {r : Order.OrderRow}
    (hrow : (Order.newOrder req f.id).row? f.now = .ok r) :
    (termsOf r).sum.bind decimal = some r.totalAmount ∧
      Asks dflt (termsOf r) (Order.eventPayload req f.id) := by
  obtain ⟨-, -, hrest, hitems, -, hamount, hdirective, -⟩ := Order.row?_eq_ok hrow
  have hsum : (termsOf r).sum = (Order.totalAmount req.body).value? := by
    rw [Terms.sum, termsOf, hrest, Order.itemsData_eq_some.1 hitems]
    rfl
  refine ⟨?_, hsum.symm, ?_⟩
  · rw [hsum]
    exact hamount
  · exact (sameDecision_truthy _).trans (sameDecision_varchar hdirective).symm

/-! ### The terms of an order never change -/

theorem terms?_place {r : Order.OrderRow} {m : Mail}
    (hfree : s.order.tables.orders.get? r.id = none) :
    ({ s with order := ⟨Order.apply (.addOrder r) s.order.tables, m⟩ } : Stores).terms? o =
      if r.id = o then some (termsOf r) else s.terms? o := by
  change ((s.order.tables.orders.insert r).get? o).map termsOf = _
  rw [Table.get?_insert hfree]
  split_ifs <;> rfl

theorem terms?_setStatus {o' : UUID} {target : Order.Status} {now : Time} {m : Mail} :
    ({ s with order := ⟨Order.apply (.setStatus o' target now) s.order.tables, m⟩ } :
      Stores).terms? o = s.terms? o := by
  change ((Order.apply (.setStatus o' target now) s.order.tables).orders.get? o).map _ = _
  rw [Order.get?_setStatus, Option.map_map, Stores.terms?]
  congr 1
  funext r
  simp only [Function.comp]
  split_ifs <;> rfl

theorem terms?_restaurant (d' : Restaurant.Db) :
    ({ s with restaurant := d' } : Stores).terms? o = s.terms? o := rfl

theorem Commits.terms_mono (hc : Commits dflt s s') (ht : s.terms? o = some t) :
    s'.terms? o = some t := by
  cases hc with
  | same => exact ht
  | @place req f p d' _ hrun =>
    obtain ⟨r, -, hviol, -, -, rfl⟩ := Order.placeTx_ok hrun
    have hfree := (Order.violates?_eq_none hviol).1
    rw [terms?_place hfree, if_neg]
    · exact ht
    · -- the new order had no terms
      rintro rfl
      rw [Stores.terms?, hfree] at ht
      cases ht
  | order _ _ he =>
    cases he with
    | duplicate _ => exact ht
    | unknown _ => exact ht
    | transition _ _ _ _ _ _ _ => exact terms?_setStatus.trans ht
  | restaurant _ _ _ => exact ht
  | restart => exact (terms?_restaurant _).trans ht
  | payment _ _ => exact ht
  | relay _ ho _ _ => rwa [Stores.terms?, ho]

/-- An order is an old one, or what is stored of it is what it comes to. -/
theorem terms_of_commits (hc : Commits dflt s s') (ht : s'.terms? o = some t) :
    s.terms? o = some t ∨ t.sum.bind decimal = some t.totalAmount := by
  cases hc with
  | same => exact .inl ht
  | @place req f p d' _ hrun =>
    obtain ⟨r, hrow, hviol, -, -, rfl⟩ := Order.placeTx_ok hrun
    rw [terms?_place (Order.violates?_eq_none hviol).1] at ht
    split_ifs at ht
    · obtain rfl := Option.some.inj ht
      exact .inr (asks_placed hrow : _ ∧ Asks dflt _ _).1
    · exact .inl ht
  | order _ _ he =>
    cases he with
    | duplicate _ => exact .inl ht
    | unknown _ => exact .inl ht
    | transition _ _ _ _ _ _ _ => exact .inl (terms?_setStatus.symm.trans ht)
  | restaurant _ _ _ => exact .inl ht
  | restart => exact .inl ((terms?_restaurant _).symm.trans ht)
  | payment _ _ => exact .inl ht
  | relay _ ho _ _ => exact .inl (by rwa [Stores.terms?, ho] at ht)

/-! ### What a step writes -/

/-- The events that a step can write about an order, and what each of them rests on. -/
inductive Wrote (s s' : Stores) (o : UUID) (e : Envelope) : EventType → Prop
  | placed {req : Order.Request} {f : Fresh} {r : Order.OrderRow} :
      (Order.newOrder req f.id).row? f.now = .ok r →
      s'.terms? o = some (termsOf r) → e.payload = Order.eventPayload req f.id →
      Wrote s s' o e .orderPlaced
  | release : Wrote s s' o e .stockRelease
  | reserved {env : Envelope} : s.Event .orderPlaced o env → e.payload = env.payload →
      Wrote s s' o e .stockReserved
  | rejected {env : Envelope} {items : List Item} : s.Event .orderPlaced o env →
      ¬ s.Handled .restaurant env → env.payload.items = some items →
      Restaurant.isShort items s.restaurant.tables →
      Wrote s s' o e .stockRejected
  | outcome (success) : Wrote s s' o e (Payment.topicOf success)

section

variable {topic : EventType} {e : Envelope}

/-- The outbox of the restaurant service as it was. -/
theorem event_of_restaurant (d' : Restaurant.Db) (h : d'.mail.outbox = s.restaurant.mail.outbox)
    (he : ({ s with restaurant := d' } : Stores).Event topic o e) : s.Event topic o e := by
  obtain ⟨i, x, hx, hxe⟩ := he
  refine ⟨i, x, ?_, hxe⟩
  cases i
  · exact hx
  · change x ∈ s.restaurant.mail.outbox.rows
    rw [← h]
    exact hx
  · exact hx

theorem wrote_restaurant {d' : Restaurant.Db} (hsound : s.post.Sound Service.produces)
    (hd : s.Delivered .restaurant env) (heff : Restaurant.Effect env f s.restaurant d')
    (he : ({ s with restaurant := d' } : Stores).Event topic o e) :
    s.Event topic o e ∨ Wrote s { s with restaurant := d' } o e topic := by
  obtain ⟨topic', -, o', hev, rfl, ho⟩ := hd.event hsound
  cases heff with
  | duplicate _ => exact .inl he
  | unknown _ _ => exact .inl he
  | @reserved o₁ items t hty ho₁ _ _ _ hout =>
    obtain rfl := Option.some.inj (ho.symm.trans ho₁)
    rw [hty] at hev
    have hw := writes_restaurant (s := s) ⟨t, _⟩
      ((Mail.adds_addOutbox (x := Restaurant.outRow .stockReserved o' env.payload f)
        hout).addProcessed env.eventId)
    rcases hw.event.1 he with he | ⟨x, hx, rfl, rfl, rfl⟩
    · exact .inl he
    · obtain rfl := Option.some.inj hx
      exact .inr (.reserved hev rfl)
  | @rejected o₁ items reason hty ho₁ hitems hshort hn hout =>
    obtain rfl := Option.some.inj (ho.symm.trans ho₁)
    rw [hty] at hev
    have hw := writes_restaurant (s := s) ⟨s.restaurant.tables, _⟩
      ((Mail.adds_addOutbox (x := Restaurant.outRow .stockRejected o'
        { orderId := some o', reason := some reason } f) hout).addProcessed env.eventId)
    rcases hw.event.1 he with he | ⟨x, hx, rfl, rfl, rfl⟩
    · exact .inl he
    · obtain rfl := Option.some.inj hx
      exact .inr (.rejected hev hn hitems hshort)
  | @released o' items t _ _ _ _ =>
    exact .inl (event_of_restaurant ⟨t, Restaurant.marked env s.restaurant.mail⟩ rfl he)
  | notFound _ _ _ _ =>
    exact .inl (event_of_restaurant
      ⟨s.restaurant.tables, Restaurant.marked env s.restaurant.mail⟩ rfl he)

theorem wrote_payment {q : Payment.Process} {d' : Payment.Db}
    (heff : Payment.Effect (s.Delivered .payment) dflt q f s.payment d')
    (he : ({ s with payment := d' } : Stores).Event topic o e) :
    s.Event topic o e ∨ Wrote s { s with payment := d' } o e topic := by
  have settle : ∀ {success o' pid}, s.payment.mail.outbox.get? f.rowId = none →
      ({ s with payment := Payment.resolved success o' pid f s.payment } : Stores).Event topic o e →
      s.Event topic o e ∨
        Wrote s { s with payment := Payment.resolved success o' pid f s.payment } o e topic := by
    intro success o' pid hr he
    have hw := writes_payment (s := s) (Payment.resolved success o' pid f s.payment)
      (Mail.adds_addOutbox (x := Payment.outcomeRow success o' f) hr)
    rcases hw.event.1 he with he | ⟨x, hx, rfl, -, -⟩
    · exact .inl he
    · obtain rfl := Option.some.inj hx
      exact .inr (.outcome success)
  cases heff with
  | unchanged => exact .inl he
  | outcome _ _ hr => exact settle hr he
  | settled _ _ _ hr => exact settle hr he
  | @intent env o' amount cents directive _ _ _ _ _ _ _ _ =>
    have hw := writes_payment (s := s) ⟨Payment.apply
      (.addPayment (Payment.intentRow o' cents directive f)) s.payment.tables, _⟩
      ((Mail.adds_refl s.payment.mail).addProcessed env.eventId)
    rcases hw.event.1 he with he | ⟨x, hx, -⟩
    · exact .inl he
    · cases hx

/-- **What a step writes.** -/
theorem event_of_commits (hsound : s.post.Sound Service.produces) (hc : Commits dflt s s')
    (he : s'.Event topic o e) : s.Event topic o e ∨ Wrote s s' o e topic := by
  cases hc with
  | same => exact .inl he
  | @place req f p d' _ hrun =>
    obtain ⟨r, hrow, hviol, hout, -, rfl⟩ := Order.placeTx_ok hrun
    have hrid : r.id = f.id := (Order.row?_eq_ok hrow).1
    have hw := writes_order (s := s) ⟨Order.apply (.addOrder r) s.order.tables, _⟩
      (Mail.adds_addOutbox (x := Order.placedRow req f) hout)
    rcases hw.event.1 he with he | ⟨x, hx, rfl, rfl, rfl⟩
    · exact .inl he
    · obtain rfl := Option.some.inj hx
      refine .inr (.placed hrow ?_ rfl)
      exact (terms?_place (Order.violates?_eq_none hviol).1).trans (if_pos hrid)
  | @order env f d' _ _ heff =>
    cases heff with
    | duplicate _ => exact .inl he
    | unknown _ => exact .inl he
    | transition o' target _ _ _ _ hout =>
      set s' : Stores := { s with order := ⟨_, _⟩ } with hs'
      have hw : Post.Writes .order _ (some env.eventId) s.post s'.post :=
        writes_order _ (adds_transitioned hout)
      rcases hw.event.1 he with he | ⟨x, hx, rfl, rfl, rfl⟩
      · exact .inl he
      · -- the only event that may be new is the compensation
        split_ifs at hx
        · obtain rfl := Option.some.inj hx
          exact .inr .release
        · cases hx
  | restaurant hd _ heff => exact wrote_restaurant hsound hd heff he
  | restart => exact .inl (event_of_restaurant _
      (congrArg Mail.outbox (Restaurant.mail_migrate s.restaurant)) he)
  | payment _ heff => exact wrote_payment heff he
  | relay hrel _ _ _ => exact .inl (hrel.event.1 he)

end

/-- A payment is an old one, or has been recorded on a `stock.reserved` event. -/
theorem payment_of_commits {p : Payment.PaymentRow} (hsound : s.post.Sound Service.produces)
    (hc : Commits dflt s s') (hp : p ∈ s'.payment.tables.payments.rows) :
    (∃ q ∈ s.payment.tables.payments.rows, q.orderId = p.orderId ∧ q.amount = p.amount ∧
      q.paymentSimulate = p.paymentSimulate) ∨
    ∃ e amount, s.Event .stockReserved p.orderId e ∧ e.payload.totalAmount = some amount ∧
      decimal amount = some p.amount ∧
      varchar? 20 e.payload.paymentSimulate = some p.paymentSimulate := by
  -- the outcome of a payment changes none of the columns in question
  have old : ∀ {success o pid f}, p ∈ (Payment.resolved success o pid f
      s.payment).tables.payments.rows → ∃ q ∈ s.payment.tables.payments.rows,
      q.orderId = p.orderId ∧ q.amount = p.amount ∧ q.paymentSimulate = p.paymentSimulate := by
    intro success o pid f hp
    obtain ⟨q, hq, rfl⟩ := Payment.mem_rows_resolved.1 hp
    refine ⟨q, hq, ?_⟩
    split_ifs <;> exact ⟨rfl, rfl, rfl⟩
  cases hc with
  | same => exact .inl ⟨p, hp, rfl, rfl, rfl⟩
  | place _ _ => exact .inl ⟨p, hp, rfl, rfl, rfl⟩
  | order _ _ _ => exact .inl ⟨p, hp, rfl, rfl, rfl⟩
  | restaurant _ _ _ => exact .inl ⟨p, hp, rfl, rfl, rfl⟩
  | restart => exact .inl ⟨p, hp, rfl, rfl, rfl⟩
  | relay _ _ _ hpay => exact .inl ⟨p, hpay ▸ hp, rfl, rfl, rfl⟩
  | payment _ heff =>
    cases heff with
    | unchanged => exact .inl ⟨p, hp, rfl, rfl, rfl⟩
    | outcome _ _ _ => exact .inl (old hp)
    | settled _ _ _ _ => exact .inl (old hp)
    | @intent env o amount cents directive hd _ ho ha hc hv _ hnone =>
      obtain ⟨topic, ht, o', hev, rfl, ho'⟩ := hd.event hsound
      obtain rfl := Option.some.inj (ho.symm.trans ho')
      have ht : env.eventType = .stockReserved := List.mem_singleton.1 ht
      rw [Payment.rows_intent hnone, List.mem_append, List.mem_singleton] at hp
      rcases hp with hp | rfl
      · exact .inl ⟨p, hp, rfl, rfl, rfl⟩
      · exact .inr ⟨env, amount, ht ▸ hev, ha, hc, hv⟩

/-! ### The steps -/

/-- **Every step of the system keeps what they have to say.** -/
theorem Faithful.step (h : Faithful dflt s) (hsound : s.post.Sound Service.produces)
    (hc : Commits dflt s s') : Faithful dflt s' where
  rounded o t ht := by
    rcases terms_of_commits hc ht with ht | hr
    · exact h.rounded o t ht
    · exact hr
  asks topic o e he htopic := by
    rcases event_of_commits hsound hc he with he | hw
    · obtain ⟨t, ht, ha⟩ := h.asks topic o e he htopic
      exact ⟨t, hc.terms_mono ht, ha⟩
    · cases hw with
      | placed hrow ht hpay => exact ⟨_, ht, hpay ▸ (asks_placed hrow).2⟩
      | reserved hev hpay =>
        obtain ⟨t, ht, ha⟩ := h.asks _ o _ hev (.inl rfl)
        exact ⟨t, hc.terms_mono ht, hpay ▸ ha⟩
      | release => simp at htopic
      | rejected _ _ _ _ => simp at htopic
      | outcome success => cases success <;> simp [Payment.topicOf] at htopic
  charges p hp := by
    rcases payment_of_commits hsound hc hp with
      ⟨q, hq, ho, ha, hd⟩ | ⟨e, amount, hev, ha, hcents, hv⟩
    · obtain ⟨t, ht, hch⟩ := h.charges q hq
      exact ⟨t, hc.terms_mono (ho ▸ ht), ha ▸ hch.amount, hd ▸ hch.directive⟩
    · -- the amount is rounded a second time, from the same sum
      obtain ⟨t, ht, hasks⟩ := h.asks _ _ _ hev (.inr rfl)
      refine ⟨t, hc.terms_mono ht, ?_, (sameDecision_varchar hv).trans hasks.directive⟩
      have hrounded := h.rounded _ t ht
      rw [← hasks.amount, ha, Option.bind_some, hcents] at hrounded
      exact Option.some.inj hrounded

/-! ### Every run -/

/-- **What the payments and the reservations say holds in every run.** -/
theorem run_faithful (ht₀ : Restaurant.Migrated ⟨t₀, .empty⟩) {n : State} {ls : List Label}
    (hr : (system dflt).Run (.start t₀) ls n) : Faithful dflt n.stores := by
  refine (run_invariant (fun s => Consistent dflt t₀ s ∧ Faithful dflt s)
    ⟨consistent_start ht₀, ?_⟩ (fun s s' h hc => ⟨h.1.step ht₀.seededTables hc, ?_⟩) hr).1.2
  · -- there is no order, event or payment at first
    constructor
    · intro o t ht
      cases ht
    · rintro topic o e ⟨i, x, hx, -⟩
      cases i <;> cases hx
    · intro p hp
      cases hp
  · exact h.2.step h.1.post hc

/-- A reservation holds the items of its order. -/
theorem Consistent.reserved_items (h : Consistent dflt t₀ s) {res : Restaurant.Reservation}
    (hres : res ∈ s.restaurant.tables.reservations.rows) :
    ∃ r ∈ s.order.tables.orders.rows, r.id = res.orderId ∧ res.items = r.items := by
  obtain ⟨g, hg⟩ := h.stage res.orderId
  have hitems := hg.items
  rw [Stores.reservedFor, Table.get?_of_mem hres] at hitems
  split_ifs at hitems
  · obtain ⟨r, hr, hi⟩ := Option.map_eq_some_iff.1 hitems.symm
    exact ⟨r, Table.mem_of_get? hr, Table.key_of_get? hr, hi.symm⟩
  · cases hitems

/-- **The customer is charged for the order that was placed.**  In every reachable state, every
payment belongs to an order, both amounts are the rounding of the sum of quantity times price of
its items (the one that the order service has computed, which is the exact one when no float is
rounded on the way), and the gateway decides for the directive stored with the payment as for the
one stored with the order; and every reservation holds exactly the items of its order. -/
theorem charged_for_order {s : State} (hs : (system dflt).Reachable s) :
    (∀ p ∈ s.payment.db.tables.payments.rows, ∃ r ∈ s.order.db.tables.orders.rows,
      r.id = p.orderId ∧ r.totalAmount = p.amount ∧
      (termsOf r).sum.bind decimal = some p.amount ∧
      (Order.ExactTotal r.items →
        decimal (r.items.map fun item => (item.quantity : ℚ) * item.price).sum = some p.amount) ∧
      SameDecision dflt p.paymentSimulate r.paymentSimulate) ∧
    ∀ res ∈ s.restaurant.db.tables.reservations.rows, ∃ r ∈ s.order.db.tables.orders.rows,
      r.id = res.orderId ∧ res.items = r.items := by
  obtain ⟨s₀, ls, ⟨t₀, ht₀, rfl⟩, hrun⟩ := hs
  have h := run_faithful ht₀ hrun
  refine ⟨fun p hp => ?_, fun res hres => (run_consistent ht₀ hrun).1.reserved_items hres⟩
  obtain ⟨t, ht, hc⟩ := h.charges p hp
  have hrounded := h.rounded _ t ht
  obtain ⟨r, hr, rfl⟩ := Option.map_eq_some_iff.1 ht
  rw [← hc.amount] at hrounded
  refine ⟨r, Table.mem_of_get? hr, Table.key_of_get? hr, hc.amount.symm, hrounded, fun hexact => ?_,
    hc.directive⟩
  rw [Terms.sum, termsOf, Order.totalAmount_exact hexact] at hrounded
  exact hrounded

/-- Three eighths of a price and a negative line, with an empty directive that is not in the event:
half a cent is rounded up for the order as for the payment, and the gateway falls back on its
default for both. -/
theorem charged_for_order_empty :
    let burger : UUID := 0x11111111111111111111111111111111
    let items : List Item := [⟨burger, 3, 3 / 8⟩, ⟨0x22222222222222222222222222222222, -1, 1 / 2⟩]
    let req : Order.Request := ⟨1, ⟨5, items.map .of⟩, some "", none⟩
    let run : List Label :=
      [.request req, .run .order 0 ⟨70, 1, 2, 0⟩, .relay .order 2 (some 0),
        .deliver .restaurant ⟨1, .orderPlaced, 0, Order.eventPayload req 70⟩,
        .run .restaurant 0 ⟨0, 11, 12, 0⟩, .relay .restaurant 12 none,
        .deliver .payment ⟨11, .stockReserved, 0, Order.eventPayload req 70⟩,
        .run .payment 0 ⟨71, 21, 22, 0⟩]
    ∃ n, (State.start seeded).runs "failure" run = some n ∧
      (∃ p ∈ n.payment.db.tables.payments.rows, p.amount = 63 ∧ p.paymentSimulate = none ∧
        ∃ r ∈ n.order.db.tables.orders.rows, r.id = p.orderId ∧ r.totalAmount = p.amount ∧
          decimal (r.items.map fun item => (item.quantity : ℚ) * item.price).sum = some 63 ∧
          r.paymentSimulate = some "" ∧
          SameDecision "failure" p.paymentSimulate r.paymentSimulate) ∧
      ∃ res ∈ n.restaurant.db.tables.reservations.rows, res.items = items := by
  intro burger items req run
  have hrun : ((State.start seeded).runs "failure" run).map (fun n =>
      (n.payment.db.tables.payments.rows.map fun p => (p.amount, p.paymentSimulate),
        decide (∀ r ∈ n.order.db.tables.orders.rows,
          r.items = items ∧ r.paymentSimulate = some ""),
        n.restaurant.db.tables.reservations.rows.length)) =
      some ([(63, none)], true, 1) := by decide +kernel
  obtain ⟨n, hn, hobs⟩ := Option.map_eq_some_iff.1 hrun
  simp only [Prod.mk.injEq] at hobs
  obtain ⟨hpays, horders, hres⟩ := hobs
  have hreach : (system "failure").Reachable n :=
    ⟨_, run, ⟨seeded, migrated_seeded, rfl⟩, run_of_runs hn⟩
  obtain ⟨hcharged, hreserved⟩ := charged_for_order hreach
  have horder := of_decide_eq_true horders
  refine ⟨n, hn, ?_, ?_⟩
  · obtain ⟨p, hp, hpe⟩ := List.mem_map.1 (hpays ▸ List.mem_singleton_self (63, none))
    obtain ⟨hamount, hdirective⟩ := Prod.mk.inj hpe
    obtain ⟨r, hr, hid, htotal, -, hexact, hsame⟩ := hcharged p hp
    obtain ⟨hitems, hempty⟩ := horder r hr
    have hsum := hexact (by rw [hitems]; decide +kernel)
    exact ⟨p, hp, hamount, hdirective, r, hr, hid, htotal, hamount ▸ hsum, hempty, hsame⟩
  · obtain ⟨res, hm⟩ := List.exists_mem_of_length_pos (hres ▸ Nat.one_pos)
    obtain ⟨r, hr, -, hitems⟩ := hreserved res hm
    exact ⟨res, hm, hitems.trans (horder r hr).1⟩

end Saga

end FoodFlow
