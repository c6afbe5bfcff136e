import FoodFlow.Saga.System

/-!
# The invariant of the saga

What ties the three databases together.  For every order the restaurant database is in one of
four stages (`Stage`, `Stores.At`), which say what has become of its reservation, which events the
restaurant service has published about it, and which events about it are in the ledger there.
`Consistent` adds what the payments and the statuses of the orders rest on: a payment on a
`stock.reserved` event, a status other than `PENDING` on the event that has this status as its
target.

* `Consistent.step` : every step keeps the invariant;
* `run_consistent` : it holds in every run.
-/

namespace FoodFlow

namespace Saga

namespace Stores

variable (s : Stores)

/-- The event `e` about the order `o` has been written for the topic. -/
def Event (topic : EventType) (o : UUID) (e : Envelope) : Prop := s.post.Event topic o e

/-- The event is in the ledger of the service. -/
def Handled (service : Service) (e : Envelope) : Prop := e.eventId ∈ (s.mail service).processed

/-- The items of an order. -/
def itemsOf (o : UUID) : Option (List Item) :=
  (s.order.tables.orders.get? o).map Order.OrderRow.items

/-- The items reserved for an order. -/
def reservedFor (o : UUID) : Option (List Item) :=
  (s.restaurant.tables.reservations.get? o).map Restaurant.Reservation.items

/-- There is a payment for an order. -/
def HasPayment (o : UUID) : Prop := (s.payment.tables.payments.get? o).isSome

end Stores

/-- What has become of an order in the restaurant service. -/
inductive Stage where
  /-- Its `order.placed` event has not been handled. -/
  | untouched
  /-- Its stock is reserved. -/
  | reserved
  /-- Its stock was reserved, and has been released. -/
  | released
  /-- Some item was short. -/
  | rejected
  deriving DecidableEq

/-- The order `o` is at the stage `g`. -/
structure Stores.At (s : Stores) (o : UUID) (g : Stage) : Prop where
  items : s.reservedFor o = if g = .reserved then s.itemsOf o else none
  reserved : (∃ e, s.Event .stockReserved o e) ↔ g = .reserved ∨ g = .released
  rejected : (∃ e, s.Event .stockRejected o e) ↔ g = .rejected
  placed : ∀ e, s.Event .orderPlaced o e → (s.Handled .restaurant e ↔ g ≠ .untouched)
  release : ∀ e, s.Event .stockRelease o e → (s.Handled .restaurant e ↔ g = .released)
  compensated : g = .released → ∃ e, s.Event .stockRelease o e

/-- What ties the databases together, when the stock at first is that of `t₀`. -/
structure Consistent (dflt : String) (t₀ : Restaurant.Tables) (s : Stores) : Prop where
  post : s.post.Sound Service.produces
  orders : Order.Sound s.order
  payments : Payment.Agreed dflt s.payment
  stock : Restaurant.Conserved t₀ s.restaurant.tables
  /-- Every event is about an order. -/
  known : ∀ topic o e, s.Event topic o e → s.order.tables.status o ≠ none
  placed : ∀ o e, s.Event .orderPlaced o e → e.payload.items = s.itemsOf o
  stage : ∀ o, ∃ g, s.At o g
  /-- A payment rests on a reservation. -/
  paid : ∀ o, s.HasPayment o → ∃ e, s.Event .stockReserved o e
  recorded : ∀ o e, s.Event .stockReserved o e → s.Handled .payment e → s.HasPayment o
  /-- A status rests on an event. -/
  caused : ∀ o status, s.order.tables.status o = some status → status ≠ .pending →
    ∃ topic e, Order.targetOf topic = some status ∧ s.Event topic o e
  settled : ∀ topic o e, s.Event topic o e → Order.targetOf topic ≠ none →
    s.Handled .order e → s.order.tables.status o ≠ some .pending

variable {dflt : String} {t₀ : Restaurant.Tables} {s s' : Stores} {o o' : UUID} {e e' : Envelope}
  {g : Stage} {topic : EventType} {service : Service} {f : Fresh} {env : Envelope}
  {new : Option OutboxRow} {done : Option UUID}

/-! ### What the invariant says about events -/

theorem produces_inj {i j : Service} (hi : topic ∈ i.produces) (hj : topic ∈ j.produces) :
    i = j := by
  cases i <;> cases j <;> first | rfl | (cases topic <;> simp [Service.produces] at hi hj)

/-- An event is in the outbox of the service that writes for its topic. -/
theorem row_of_event (hs : s.post.Sound Service.produces) (ht : topic ∈ service.produces)
    (he : s.Event topic o e) :
    ∃ x ∈ (s.mail service).outbox.rows, x.topic = topic ∧ x.key = o ∧ x.payload = e := by
  obtain ⟨i, x, hx, rfl, hxe⟩ := he
  obtain rfl := produces_inj ht (hs.shape i x hx).1
  exact ⟨x, hx, rfl, hxe⟩

/-- An event of the order service that has been counted. -/
theorem event_of_published (h : 0 < Order.published s.order topic o) :
    ∃ x ∈ s.order.mail.outbox.rows, x.topic = topic ∧ x.key = o ∧ s.Event topic o x.payload := by
  obtain ⟨x, hx, ht, hk⟩ := Order.published_pos.1 h
  exact ⟨x, hx, ht, hk, .order, x, hx, ht, hk, rfl⟩

/-- The two elements of a list that satisfy `φ` are one, when only one does. -/
theorem eq_of_countP_eq_one {α : Type} {φ : α → Bool} {l : List α} (h : l.countP φ = 1) {x y : α}
    (hx : x ∈ l) (hy : y ∈ l) (hφx : φ x) (hφy : φ y) : x = y := by
  rw [List.countP_eq_length_filter, List.length_eq_one_iff] at h
  obtain ⟨z, hz⟩ := h
  have hmem : ∀ w ∈ l, φ w → w = z := fun w hw hφ => by
    have := List.mem_filter.2 ⟨hw, hφ⟩
    rw [hz] at this
    exact List.mem_singleton.1 this
  exact (hmem x hx hφx).trans (hmem y hy hφy).symm

namespace Consistent

variable (h : Consistent dflt t₀ s)
include h

/-- An order has at most one event on each of the topics of its own service. -/
theorem event_unique (ht : topic ∈ Service.order.produces) (he : s.Event topic o e)
    (he' : s.Event topic o e') : e = e' := by
  have hr : ∃ r, s.order.tables.orders.get? o = some r := by
    have := h.known _ _ _ he
    rw [Ne, Order.status_eq_none] at this
    exact Option.ne_none_iff_exists'.1 this
  obtain ⟨r, hr⟩ := hr
  have hmem := Table.mem_of_get? hr
  have hid : r.id = o := Table.key_of_get? hr
  obtain ⟨x, hx, rfl, rfl, rfl⟩ := row_of_event h.post ht he
  obtain ⟨y, hy, hty, hky, rfl⟩ := row_of_event h.post ht he'
  have hcount : 0 < Order.published s.order x.topic x.key :=
    Order.published_pos.2 ⟨x, hx, rfl, rfl⟩
  have hone : Order.published s.order x.topic x.key = 1 := by
    simp only [Service.produces, List.mem_cons, List.not_mem_nil, or_false] at ht
    rcases ht with ht | ht
    · rw [ht, ← hid, h.orders.placed r hmem]
    · have := h.orders.release r hmem
      rw [← hid, ht] at hcount ⊢
      split_ifs at this <;> omega
  rw [eq_of_countP_eq_one hone hx hy (by simp) (by simp [hty, hky])]

/-- The payment for which an outcome has been published. -/
theorem payment_of_outcome {success : Bool} (he : s.Event (Payment.topicOf success) o e) :
    ∃ p, s.payment.tables.payments.get? o = some p ∧ p.status = Payment.statusOf success := by
  have ht : Payment.topicOf success ∈ Service.payment.produces := by cases success <;> decide
  obtain ⟨x, hx, hxt, rfl, -⟩ := row_of_event h.post ht he
  obtain ⟨b, p, hp, hout, hst⟩ := h.payments.of_outbox x hx
  obtain ⟨-, hty, ho⟩ := h.post.shape .payment x hx
  have hb : b = success := Payment.topicOf_inj (hout.1.symm.trans (hty.trans hxt))
  have hk : p.orderId = x.key := Option.some.inj (hout.2.symm.trans ho)
  exact ⟨p, hk ▸ Table.get?_of_mem hp, hb ▸ hst⟩

/-- A compensation is about an order whose stock was reserved. -/
theorem reserved_of_release (he : s.Event .stockRelease o e) :
    s.order.tables.status o = some .paymentFailed ∧ ∃ e', s.Event .stockReserved o e' := by
  have htopic : .stockRelease ∈ Service.order.produces := by decide
  obtain ⟨x, hx, hxt, hxk, -⟩ := row_of_event h.post htopic he
  obtain ⟨r, hr⟩ := Option.ne_none_iff_exists'.1 (h.known _ _ _ he)
  obtain ⟨row, hrow, hst⟩ := Option.map_eq_some_iff.1 hr
  have hid : row.id = o := Table.key_of_get? hrow
  have hfailed : row.status = .paymentFailed := by
    -- compensations are counted by the status
    have hcount := h.orders.release row (Table.mem_of_get? hrow)
    have hpos : 0 < Order.published s.order .stockRelease row.id :=
      Order.published_pos.2 ⟨x, hx, hxt, hxk.trans hid.symm⟩
    by_contra hne
    rw [if_neg hne] at hcount
    omega
  have hstatus : s.order.tables.status o = some .paymentFailed := by rw [hr, ← hst, hfailed]
  refine ⟨hstatus, ?_⟩
  -- the status rests on the failure of a payment, which rests on a reservation
  obtain ⟨topic, e₁, htarget, he₁⟩ := h.caused o _ hstatus (by decide)
  have htopic : topic = Payment.topicOf false := by
    cases topic <;> first | rfl | cases htarget
  obtain ⟨p, hp, -⟩ := h.payment_of_outcome (htopic ▸ he₁)
  exact h.paid o (by rw [Stores.HasPayment, hp]; rfl)

end Consistent

/-! ### What a commit writes -/

theorem writes_order (d' : Order.Db) (h : s.order.mail.Adds new done d'.mail) :
    Post.Writes .order new done s.post ({ s with order := d' } : Stores).post :=
  ⟨h, fun j hj => by cases j <;> first | exact absurd rfl hj | rfl, rfl⟩

theorem writes_restaurant (d' : Restaurant.Db) (h : s.restaurant.mail.Adds new done d'.mail) :
    Post.Writes .restaurant new done s.post ({ s with restaurant := d' } : Stores).post :=
  ⟨h, fun j hj => by cases j <;> first | exact absurd rfl hj | rfl, rfl⟩

theorem writes_payment (d' : Payment.Db) (h : s.payment.mail.Adds new done d'.mail) :
    Post.Writes .payment new done s.post ({ s with payment := d' } : Stores).post :=
  ⟨h, fun j hj => by cases j <;> first | exact absurd rfl hj | rfl, rfl⟩

theorem adds_transitioned {target : Order.Status} {m : Mail}
    (hr : target = .paymentFailed → m.outbox.get? f.rowId = none) :
    m.Adds (if target = .paymentFailed then some (Order.releaseRow o f) else none)
      (some env.eventId) (Order.transitioned env o target f m) := by
  unfold Order.transitioned
  split_ifs with ht
  · exact (Mail.adds_addOutbox (x := Order.releaseRow o f) (hr ht)).addProcessed _
  · exact (Mail.adds_refl m).addProcessed _

/-- A delivered message is an event about the order that it names. -/
theorem Stores.Delivered.event (hs : s.post.Sound Service.produces)
    (h : s.Delivered service env) :
    ∃ topic ∈ service.consumes, ∃ o, s.Event topic o env ∧ env.eventType = topic ∧
      env.payload.orderId = some o := by
  obtain ⟨m, hm, ht, rfl⟩ := h
  obtain ⟨o, ho⟩ := hs.sent m hm
  exact ⟨_, ht, o, ho, hs.eventType ho, hs.orderId ho⟩

/-! ### Stages after a commit -/

/-- The stage of an order stays, if nothing changes for it but that events appear which the
restaurant service has not seen yet. -/
theorem Stores.At.keep (h : s.At o g) (hitems : g = .reserved → s'.itemsOf o = s.itemsOf o)
    (hreserved : s'.reservedFor o = s.reservedFor o)
    (hold : ∀ topic e, s.Event topic o e → s'.Event topic o e)
    (hnew : ∀ topic e, s'.Event topic o e → s.Event topic o e ∨
      (topic ≠ .stockReserved ∧ topic ≠ .stockRejected ∧ ¬ s'.Handled .restaurant e ∧
        (topic = .orderPlaced → g = .untouched) ∧ (topic = .stockRelease → g ≠ .released)))
    (hhandled : ∀ topic e, s.Event topic o e →
      (s'.Handled .restaurant e ↔ s.Handled .restaurant e)) : s'.At o g where
  items := by
    rw [hreserved, h.items]
    by_cases hg : g = .reserved
    · rw [if_pos hg, if_pos hg, hitems hg]
    · rw [if_neg hg, if_neg hg]
  reserved := by
    rw [← h.reserved]
    refine ⟨fun ⟨e, he⟩ => ?_, fun ⟨e, he⟩ => ⟨e, hold _ e he⟩⟩
    rcases hnew _ e he with he | ⟨hne, -⟩
    · exact ⟨e, he⟩
    · exact absurd rfl hne
  rejected := by
    rw [← h.rejected]
    refine ⟨fun ⟨e, he⟩ => ?_, fun ⟨e, he⟩ => ⟨e, hold _ e he⟩⟩
    rcases hnew _ e he with he | ⟨-, hne, -⟩
    · exact ⟨e, he⟩
    · exact absurd rfl hne
  placed e he := by
    rcases hnew _ e he with he | ⟨-, -, hno, hg, -⟩
    · rw [hhandled _ e he, h.placed e he]
    · simp [hno, hg rfl]
  release e he := by
    rcases hnew _ e he with he | ⟨-, -, hno, -, hg⟩
    · rw [hhandled _ e he, h.release e he]
    · simp [hno, hg rfl]
  compensated hg := by
    obtain ⟨e, he⟩ := h.compensated hg
    exact ⟨e, hold _ e he⟩

theorem Stores.At.untouched (h : s.At o g) (hno : ∀ topic e, ¬ s.Event topic o e) :
    g = .untouched := by
  cases g with
  | untouched => rfl
  | reserved => obtain ⟨e, he⟩ := h.reserved.2 (.inl rfl); exact absurd he (hno _ e)
  | released => obtain ⟨e, he⟩ := h.reserved.2 (.inr rfl); exact absurd he (hno _ e)
  | rejected => obtain ⟨e, he⟩ := h.rejected.2 rfl; exact absurd he (hno _ e)

/-- The id of a new event is in no ledger. -/
theorem Consistent.not_processed (h : Consistent dflt t₀ s) (hf : s.New f) (service : Service) :
    f.eventId ∉ (s.mail service).processed :=
  fun hm => hf.not_used (h.post.ledger service _ hm)

/-! ### The steps of the order service -/

theorem Consistent.place {req : Order.Request} {p : Order.Process} {d' : Order.Db}
    (h : Consistent dflt t₀ s) (hf : s.New f)
    (hrun : (Order.placeTx req f).run s.order = .ok (p, d')) :
    Consistent dflt t₀ { s with order := d' } := by
  have horders := h.orders.place hrun
  obtain ⟨r, hrow, hviol, hout, -, rfl⟩ := Order.placeTx_ok hrun
  obtain ⟨hid, -, -, hitems, hpending, -⟩ := Order.row?_eq_ok hrow
  have hrid : r.id = f.id := hid
  have hfree := (Order.violates?_eq_none hviol).1
  have hstatus := fun o => Order.status_addOrder (o := o) hfree
  have hnone : s.order.tables.status f.id = none := Order.status_eq_none.2 (hrid ▸ hfree)
  set s' : Stores := { s with order := ⟨_, _⟩ } with hs'
  have hw : Post.Writes .order (some (Order.placedRow req f)) none s.post s'.post :=
    writes_order _ (Mail.adds_addOutbox hout)
  -- there is one new event, and there was none about the new order
  have hevent : ∀ {topic o e}, s'.Event topic o e → s.Event topic o e ∨
      (topic = .orderPlaced ∧ o = f.id ∧ e = (Order.placedRow req f).payload) := by
    intro topic o e he
    rcases hw.event.1 he with he | ⟨x, hx, rfl, rfl, rfl⟩
    · exact .inl he
    · obtain rfl := Option.some.inj hx
      exact .inr ⟨rfl, rfl, rfl⟩
  have hold : ∀ {topic o e}, s.Event topic o e → s'.Event topic o e := hw.event_mono
  -- no event is about an order that does not exist yet
  have hno : ∀ topic e, ¬ s.Event topic f.id e := fun _ _ he => h.known _ _ _ he hnone
  have hne : ∀ {topic o e}, s.Event topic o e → r.id ≠ o := by
    rintro topic o e he rfl
    exact hno _ e (hrid ▸ he)
  have hitemsOf : ∀ o, s'.itemsOf o = if r.id = o then some r.items else s.itemsOf o := by
    intro o
    change ((s.order.tables.orders.insert r).get? o).map _ = _
    rw [Table.get?_insert hfree]
    split_ifs <;> rfl
  constructor
  case post =>
    refine h.post.writes hw (fun x hx => ?_) (fun _ hx => by cases hx)
    obtain rfl := Option.some.inj hx
    exact ⟨⟨List.mem_cons_self, rfl, rfl⟩, hf.not_used, rfl⟩
  case orders => exact horders
  case payments => exact h.payments
  case stock => exact h.stock
  case known =>
    intro topic o e he
    show (Order.apply (.addOrder r) s.order.tables).status o ≠ none
    rw [hstatus]
    rcases hevent he with he | ⟨-, rfl, -⟩
    · rw [if_neg (hne he)]
      exact h.known _ _ _ he
    · simp [hrid]
  case placed =>
    intro o e he
    rw [hitemsOf]
    rcases hevent he with he | ⟨-, rfl, rfl⟩
    · rw [if_neg (hne he), h.placed o e he]
    · rw [if_pos hrid]
      exact hitems
  case stage =>
    intro o
    obtain ⟨g, hg⟩ := h.stage o
    refine ⟨g, hg.keep ?_ rfl (fun _ _ => hold) (fun topic e he => ?_) fun _ _ _ => Iff.rfl⟩
    · intro hr
      obtain ⟨e, he⟩ := hg.reserved.2 (.inl hr)
      rw [hitemsOf, if_neg (hne he)]
    · rcases hevent he with he | ⟨rfl, rfl, rfl⟩
      · exact .inl he
      · exact .inr ⟨by decide, by decide, h.not_processed hf .restaurant,
          fun _ => hg.untouched hno, by simp⟩
  case paid =>
    intro o hp
    obtain ⟨e, he⟩ := h.paid o hp
    exact ⟨e, hold he⟩
  case recorded =>
    intro o e he hh
    rcases hevent he with he | ⟨ht, -⟩
    · exact h.recorded o e he hh
    · cases ht
  case caused =>
    intro o status hst hp
    have hst' : (Order.apply (.addOrder r) s.order.tables).status o = some status := hst
    rw [hstatus] at hst'
    split_ifs at hst' with ho
    · exact absurd ((Option.some.inj hst').symm.trans hpending) hp
    · obtain ⟨topic, e, ht, he⟩ := h.caused o status hst' hp
      exact ⟨topic, e, ht, hold he⟩
  case settled =>
    intro topic o e he ht hh
    rcases hevent he with he | ⟨rfl, -⟩
    · show (Order.apply (.addOrder r) s.order.tables).status o ≠ _
      rw [hstatus, if_neg (hne he)]
      exact h.settled topic o e he ht hh
    · exact absurd rfl ht

theorem Consistent.transition {target : Order.Status} (h : Consistent dflt t₀ s) (hf : s.New f)
    (he : s.Event topic o env) (ht : Order.targetOf topic = some target)
    (hs : s.order.tables.status o = some .pending)
    (hout : target = .paymentFailed → s.order.mail.outbox.get? f.rowId = none) :
    Consistent dflt t₀ { s with order := ⟨Order.apply (.setStatus o target f.now) s.order.tables,
      Order.transitioned env o target f s.order.mail⟩ } := by
  have hne : target ≠ .pending := Order.targetOf_ne_pending ht
  set s' : Stores := { s with order := ⟨_, _⟩ } with hs'
  have hw : Post.Writes .order _ (some env.eventId) s.post s'.post :=
    writes_order _ (adds_transitioned hout)
  have hold : ∀ {topic o e}, s.Event topic o e → s'.Event topic o e := hw.event_mono
  -- the only new event is the compensation
  have hevent : ∀ {topic' o' e}, s'.Event topic' o' e → s.Event topic' o' e ∨
      (target = .paymentFailed ∧ topic' = .stockRelease ∧ o' = o ∧
        e = (Order.releaseRow o f).payload) := by
    intro topic' o' e he'
    rcases hw.event.1 he' with he' | ⟨x, hx, rfl, rfl, rfl⟩
    · exact .inl he'
    · split_ifs at hx with hfail
      · obtain rfl := Option.some.inj hx
        exact .inr ⟨hfail, rfl, rfl, rfl⟩
      · cases hx
  have hstatus : ∀ o', s'.order.tables.status o' =
      if o' = o then some target else s.order.tables.status o' := by
    intro o'
    change (Order.apply (.setStatus o target f.now) s.order.tables).status o' = _
    rw [Order.status_setStatus]
    by_cases ho : o' = o
    · rw [if_pos ho, if_pos ho, ho, hs]
      rfl
    · rw [if_neg ho, if_neg ho]
  have hitemsOf : ∀ o', s'.itemsOf o' = s.itemsOf o' := by
    intro o'
    change ((Order.apply (.setStatus o target f.now) s.order.tables).orders.get? o').map _ = _
    rw [Order.get?_setStatus, Option.map_map, Stores.itemsOf]
    congr 1
    funext r
    simp only [Function.comp]
    split_ifs <;> rfl
  constructor
  case post =>
    refine h.post.writes hw (fun x hx => ?_) (fun id hid => ?_)
    · split_ifs at hx
      · obtain rfl := Option.some.inj hx
        exact ⟨⟨List.mem_cons_of_mem _ (List.mem_singleton_self _), rfl, rfl⟩, hf.not_used, rfl⟩
      · cases hx
    · obtain rfl := Option.some.inj hid
      exact he.used
  case orders => exact h.orders.transition hs hout
  case payments => exact h.payments
  case stock => exact h.stock
  case known =>
    intro topic' o' e he'
    rw [hstatus]
    split_ifs with ho
    · simp
    · rcases hevent he' with he' | ⟨-, -, rfl, -⟩
      · exact h.known _ _ _ he'
      · exact absurd rfl ho
  case placed =>
    intro o' e he'
    rw [hitemsOf]
    rcases hevent he' with he' | ⟨-, ht', -⟩
    · exact h.placed o' e he'
    · cases ht'
  case stage =>
    intro o'
    obtain ⟨g, hg⟩ := h.stage o'
    refine ⟨g, hg.keep (fun _ => hitemsOf o') rfl (fun _ _ => hold) (fun topic' e he' => ?_)
      fun _ _ _ => Iff.rfl⟩
    rcases hevent he' with he' | ⟨-, rfl, rfl, rfl⟩
    · exact .inl he'
    · refine .inr ⟨by decide, by decide, h.not_processed hf .restaurant, by simp, fun _ hr => ?_⟩
      -- an order that is `PENDING` has no compensation yet
      obtain ⟨e', he'⟩ := hg.compensated hr
      have hfailed := (h.reserved_of_release he').1
      rw [hs] at hfailed
      cases hfailed
  case paid =>
    intro o' hp
    obtain ⟨e, he⟩ := h.paid o' hp
    exact ⟨e, hold he⟩
  case recorded =>
    intro o' e he' hh
    rcases hevent he' with he' | ⟨-, ht', -⟩
    · exact h.recorded o' e he' hh
    · cases ht'
  case caused =>
    intro o' status hst hp
    rw [hstatus] at hst
    split_ifs at hst with ho
    · obtain rfl := Option.some.inj hst
      exact ⟨topic, env, ht, hold (ho ▸ he)⟩
    · obtain ⟨topic', e, ht', he'⟩ := h.caused o' status hst hp
      exact ⟨topic', e, ht', hold he'⟩
  case settled =>
    intro topic' o' e he' ht' hh
    rw [hstatus]
    rcases hevent he' with he' | ⟨-, rfl, -⟩
    · split_ifs with ho
      · simpa using hne
      · -- the event just handled is about the order `o`
        rcases (hw.mem_processed .order).1 hh with hh | ⟨-, hid⟩
        · exact h.settled topic' o' e he' ht' hh
        · exact absurd (h.post.event_inj he' he (Option.some.inj hid).symm).2.1 ho
    · exact absurd rfl ht'

/-- The order service handles a message. -/
theorem Consistent.order {d' : Order.Db} (h : Consistent dflt t₀ s)
    (hd : s.Delivered .order env) (hf : s.New f) (he : Order.Effect env f s.order d') :
    Consistent dflt t₀ { s with order := d' } := by
  obtain ⟨topic, -, o, hev, rfl, ho⟩ := hd.event h.post
  cases he with
  | duplicate _ => exact h
  | unknown _ => exact h
  | transition o' target ho' ht _ hs hout =>
    obtain rfl := Option.some.inj (ho.symm.trans ho')
    exact h.transition hf hev ht hs hout

/-! ### The steps of the restaurant service -/

/-- A transaction of the restaurant service that handles the event `env` about the order `o`. -/
theorem Consistent.of_restaurant {d' : Restaurant.Db} (h : Consistent dflt t₀ s)
    (he : s.Event topic o env)
    (hw : Post.Writes .restaurant new (some env.eventId) s.post
      ({ s with restaurant := d' } : Stores).post)
    (hnew : ∀ x ∈ new, (x.topic ∈ Service.restaurant.produces ∧ x.payload.eventType = x.topic ∧
      x.payload.payload.orderId = some x.key) ∧ x.key = o ∧ ¬ s.post.Used x.payload.eventId ∧
      x.publishedAt = none)
    (hstock : Restaurant.Conserved t₀ d'.tables)
    (hother : ∀ o', o' ≠ o → d'.tables.reservations.get? o' =
      s.restaurant.tables.reservations.get? o')
    (hstage : ∃ g, ({ s with restaurant := d' } : Stores).At o g) :
    Consistent dflt t₀ { s with restaurant := d' } := by
  set s' : Stores := { s with restaurant := d' } with hs'
  have hold : ∀ {topic o e}, s.Event topic o e → s'.Event topic o e := hw.event_mono
  have hevent : ∀ {topic' o' e}, s'.Event topic' o' e → s.Event topic' o' e ∨
      (topic' ∈ Service.restaurant.produces ∧ o' = o ∧ ¬ s.post.Used e.eventId) := by
    intro topic' o' e he'
    rcases hw.event.1 he' with he' | ⟨x, hx, rfl, rfl, rfl⟩
    · exact .inl he'
    · obtain ⟨hshape, hk, hfresh, -⟩ := hnew x hx
      exact .inr ⟨hshape.1, hk, hfresh⟩
  -- nothing changes for the other orders
  have hhandled : ∀ {topic' o' e}, o' ≠ o → s.Event topic' o' e →
      (s'.Handled .restaurant e ↔ s.Handled .restaurant e) := by
    intro topic' o' e ho he'
    refine (hw.mem_processed .restaurant).trans ⟨?_, .inl⟩
    rintro (hm | ⟨-, hid⟩)
    · exact hm
    · exact absurd (h.post.event_inj he' he (Option.some.inj hid).symm).2.1 ho
  constructor
  case post =>
    refine h.post.writes hw (fun x hx => ?_) (fun id hid => ?_)
    · obtain ⟨hshape, -, hrest⟩ := hnew x hx
      exact ⟨hshape, hrest⟩
    · obtain rfl := Option.some.inj hid
      exact he.used
  case orders => exact h.orders
  case payments => exact h.payments
  case stock => exact hstock
  case known =>
    intro topic' o' e he'
    rcases hevent he' with he' | ⟨-, rfl, -⟩
    · exact h.known _ _ _ he'
    · exact h.known _ _ _ he
  case placed =>
    intro o' e he'
    rcases hevent he' with he' | ⟨ht, -⟩
    · exact h.placed o' e he'
    · exact absurd ht (by decide)
  case stage =>
    intro o'
    by_cases ho : o' = o
    · exact ho ▸ hstage
    · obtain ⟨g, hg⟩ := h.stage o'
      refine ⟨g, hg.keep (fun _ => rfl) ?_ (fun _ _ => hold) (fun topic' e he' => ?_)
        fun _ _ => hhandled ho⟩
      · rw [Stores.reservedFor, hother o' ho, Stores.reservedFor]
      · rcases hevent he' with he' | ⟨-, ho', -⟩
        · exact .inl he'
        · exact absurd ho' ho
  case paid =>
    intro o' hp
    obtain ⟨e, he⟩ := h.paid o' hp
    exact ⟨e, hold he⟩
  case recorded =>
    intro o' e he' hh
    rcases hevent he' with he' | ⟨-, -, hfresh⟩
    · exact h.recorded o' e he' hh
    · exact absurd (h.post.ledger .payment _ hh) hfresh
  case caused =>
    intro o' status hst hp
    obtain ⟨topic', e, ht', he'⟩ := h.caused o' status hst hp
    exact ⟨topic', e, ht', hold he'⟩
  case settled =>
    intro topic' o' e he' ht' hh
    rcases hevent he' with he' | ⟨-, -, hfresh⟩
    · exact h.settled topic' o' e he' ht' hh
    · exact absurd (h.post.ledger .order _ hh) hfresh

/-- An order whose `order.placed` event has not been handled is untouched, and has no
compensation. -/
theorem Consistent.untouched (h : Consistent dflt t₀ s) (hg : s.At o g)
    (he : s.Event .orderPlaced o env) (hn : ¬ s.Handled .restaurant env) :
    g = .untouched ∧ ∀ e, ¬ s.Event .stockRelease o e := by
  have hu : g = .untouched := by
    by_contra hne
    exact hn ((hg.placed env he).2 hne)
  refine ⟨hu, fun e he' => ?_⟩
  have := hg.reserved.1 (h.reserved_of_release he').2
  rw [hu] at this
  simp at this

/-- The verdict on an order: its stock is reserved, or rejected. -/
theorem Consistent.verdict {d' : Restaurant.Db} {x : OutboxRow} (h : Consistent dflt t₀ s)
    (he : s.Event .orderPlaced o env) (hn : ¬ s.Handled .restaurant env)
    (hg : g = .reserved ∧ x.topic = .stockReserved ∨ g = .rejected ∧ x.topic = .stockRejected)
    (hk : x.key = o)
    (hw : Post.Writes .restaurant (some x) (some env.eventId) s.post
      ({ s with restaurant := d' } : Stores).post)
    (hitems : ({ s with restaurant := d' } : Stores).reservedFor o =
      if g = .reserved then s.itemsOf o else none) :
    ({ s with restaurant := d' } : Stores).At o g := by
  obtain ⟨g₀, hg₀⟩ := h.stage o
  obtain ⟨rfl, hrel⟩ := h.untouched hg₀ he hn
  set s' : Stores := { s with restaurant := d' } with hs'
  -- the verdict is the only new event
  have hx : s'.Event x.topic o x.payload := hw.event.2 (.inr ⟨x, rfl, rfl, hk, rfl⟩)
  have hevent : ∀ {topic e}, s'.Event topic o e → s.Event topic o e ∨ topic = x.topic := by
    intro topic e he'
    rcases hw.event.1 he' with he' | ⟨y, hy, rfl, -, -⟩
    · exact .inl he'
    · exact .inr (by rw [Option.some.inj hy])
  have hreserved : ∀ e, ¬ s.Event .stockReserved o e := fun e he' => by
    simpa using hg₀.reserved.1 ⟨e, he'⟩
  have hrejected : ∀ e, ¬ s.Event .stockRejected o e := fun e he' => by
    simpa using hg₀.rejected.1 ⟨e, he'⟩
  have hplaced : x.topic ≠ .orderPlaced ∧ x.topic ≠ .stockRelease := by
    rcases hg with ⟨-, ht⟩ | ⟨-, ht⟩ <;> rw [ht] <;> decide
  constructor
  case items => exact hitems
  case reserved =>
    rcases hg with ⟨rfl, ht⟩ | ⟨rfl, ht⟩
    · exact iff_of_true ⟨_, ht ▸ hx⟩ (.inl rfl)
    · refine iff_of_false (fun ⟨e, he'⟩ => ?_) (by decide)
      rcases hevent he' with he' | ht'
      · exact hreserved e he'
      · rw [ht] at ht'
        cases ht'
  case rejected =>
    rcases hg with ⟨rfl, ht⟩ | ⟨rfl, ht⟩
    · refine iff_of_false (fun ⟨e, he'⟩ => ?_) (by decide)
      rcases hevent he' with he' | ht'
      · exact hrejected e he'
      · rw [ht] at ht'
        cases ht'
    · exact iff_of_true ⟨_, ht ▸ hx⟩ rfl
  case placed =>
    intro e he'
    have hne : g ≠ .untouched := by rcases hg with ⟨rfl, -⟩ | ⟨rfl, -⟩ <;> decide
    refine iff_of_true ?_ hne
    rcases hevent he' with he' | ht'
    · rw [h.event_unique (by decide) he' he]
      exact (hw.mem_processed .restaurant).2 (.inr ⟨rfl, rfl⟩)
    · exact absurd ht'.symm hplaced.1
  case release =>
    intro e he'
    rcases hevent he' with he' | ht'
    · exact absurd he' (hrel e)
    · exact absurd ht'.symm hplaced.2
  case compensated =>
    rintro rfl
    simp at hg

/-- A compensation that has not been handled finds the stock reserved. -/
theorem Consistent.reserved (h : Consistent dflt t₀ s) (hg : s.At o g)
    (he : s.Event .stockRelease o env) (hn : ¬ s.Handled .restaurant env) : g = .reserved := by
  rcases hg.reserved.1 (h.reserved_of_release he).2 with hr | hr
  · exact hr
  · exact absurd ((hg.release env he).2 hr) hn

/-- The stock of an order has been released. -/
theorem Consistent.released {d' : Restaurant.Db} (h : Consistent dflt t₀ s)
    (he : s.Event .stockRelease o env) (hn : ¬ s.Handled .restaurant env)
    (hw : Post.Writes .restaurant none (some env.eventId) s.post
      ({ s with restaurant := d' } : Stores).post)
    (hitems : ({ s with restaurant := d' } : Stores).reservedFor o = none) :
    ({ s with restaurant := d' } : Stores).At o .released := by
  obtain ⟨g, hg⟩ := h.stage o
  -- nothing is written but the entry into the ledger
  obtain rfl := h.reserved hg he hn
  set s' : Stores := { s with restaurant := d' } with hs'
  have hevent : ∀ {topic e}, s'.Event topic o e ↔ s.Event topic o e := by
    refine hw.event.trans ⟨?_, .inl⟩
    rintro (he' | ⟨x, hx, -⟩)
    · exact he'
    · cases hx
  have hhandled : ∀ {e}, s.Handled .restaurant e → s'.Handled .restaurant e := fun hh =>
    (hw.mem_processed .restaurant).2 (.inl hh)
  constructor
  case items => exact hitems
  case reserved =>
    obtain ⟨e, he'⟩ := hg.reserved.2 (.inl rfl)
    exact iff_of_true ⟨e, hevent.2 he'⟩ (.inr rfl)
  case rejected =>
    refine iff_of_false (fun ⟨e, he'⟩ => ?_) (by decide)
    simpa using hg.rejected.1 ⟨e, hevent.1 he'⟩
  case placed =>
    intro e he'
    exact iff_of_true (hhandled ((hg.placed e (hevent.1 he')).2 (by decide))) (by decide)
  case release =>
    intro e he'
    rw [h.event_unique (by decide) (hevent.1 he') he]
    exact iff_of_true ((hw.mem_processed .restaurant).2 (.inr ⟨rfl, rfl⟩)) rfl
  case compensated => exact fun _ => ⟨env, hevent.2 he⟩

/-- The restaurant service handles a message. -/
theorem Consistent.restaurant {d' : Restaurant.Db} (h : Consistent dflt t₀ s)
    (hd : s.Delivered .restaurant env) (hf : s.New f)
    (he : Restaurant.Effect env f s.restaurant d') :
    Consistent dflt t₀ { s with restaurant := d' } := by
  obtain ⟨topic, -, o, hev, rfl, ho⟩ := hd.event h.post
  have hstock := he.conserved h.stock
  cases he with
  | duplicate _ => exact h
  | unknown _ _ => exact h
  | @reserved o' items t hty ho' hitems hn hr hout =>
    obtain rfl := Option.some.inj (ho.symm.trans ho')
    rw [hty] at hev
    have hw := writes_restaurant (s := s) ⟨t, _⟩
      ((Mail.adds_addOutbox (x := Restaurant.outRow .stockReserved o env.payload f)
        hout).addProcessed env.eventId)
    have hget : t.reservations.get? o = some ⟨o, items⟩ := by
      rw [hr.reservations, Table.get?_insert hr.unreserved, if_pos rfl]
    refine h.of_restaurant hev hw (fun x hx => ?_) hstock (fun o' ho' => ?_)
      ⟨.reserved, h.verdict hev hn (.inl ⟨rfl, rfl⟩) rfl hw ?_⟩
    · obtain rfl := Option.some.inj hx
      exact ⟨⟨List.mem_cons_self, rfl, ho⟩, rfl, hf.not_used, rfl⟩
    · show t.reservations.get? o' = _
      rw [hr.reservations, Table.get?_insert hr.unreserved, if_neg (Ne.symm ho')]
    · rw [if_pos rfl, ← h.placed o env hev, hitems, Stores.reservedFor]
      exact congrArg _ hget
  | @rejected o' items reason hty ho' _ _ hn hout =>
    obtain rfl := Option.some.inj (ho.symm.trans ho')
    rw [hty] at hev
    have hw := writes_restaurant (s := s) ⟨s.restaurant.tables, _⟩
      ((Mail.adds_addOutbox (x := Restaurant.outRow .stockRejected o
        { orderId := some o, reason := some reason } f) hout).addProcessed env.eventId)
    refine h.of_restaurant hev hw (fun x hx => ?_) hstock (fun _ _ => rfl)
      ⟨.rejected, h.verdict hev hn (.inr ⟨rfl, rfl⟩) rfl hw ?_⟩
    · obtain rfl := Option.some.inj hx
      exact ⟨⟨List.mem_cons_of_mem _ (List.mem_singleton_self _), rfl, rfl⟩, rfl, hf.not_used, rfl⟩
    · obtain ⟨g, hg⟩ := h.stage o
      obtain ⟨rfl, -⟩ := h.untouched hg hev hn
      exact hg.items
  | @released o' items t hty ho' hn hr =>
    obtain rfl := Option.some.inj (ho.symm.trans ho')
    rw [hty] at hev
    have hw := writes_restaurant (s := s) ⟨t, _⟩
      ((Mail.adds_refl s.restaurant.mail).addProcessed env.eventId)
    refine h.of_restaurant hev hw (fun x hx => by cases hx) hstock (fun o' ho' => ?_)
      ⟨.released, h.released hev hn hw ?_⟩
    · show t.reservations.get? o' = _
      rw [hr.reservations, Table.get?_erase, if_neg (Ne.symm ho')]
    · show (t.reservations.get? o).map _ = none
      rw [hr.reservations, Table.get?_erase, if_pos rfl]
      rfl
  | @notFound o' hty ho' hn hnone =>
    -- a compensation that has not been handled finds a reservation
    obtain rfl := Option.some.inj (ho.symm.trans ho')
    rw [hty] at hev
    obtain ⟨g, hg⟩ := h.stage o
    obtain rfl := h.reserved hg hev hn
    have hitems := hg.items
    rw [if_pos rfl, Stores.reservedFor, hnone] at hitems
    refine absurd (Order.status_eq_none.2 ?_) (h.known _ _ _ hev)
    exact Option.map_eq_none_iff.1 hitems.symm

theorem Consistent.restart (h : Consistent dflt t₀ s)
    (ht₀ : Restaurant.Seeded t₀) :
    Consistent dflt t₀ { s with restaurant := Restaurant.migrate s.restaurant } := by
  rw [Restaurant.migrate_of_seeded (h.stock.seeded ht₀)]
  exact h

/-! ### The steps of the payment service -/

/-- A transaction of the payment service: it records a payment for an order whose stock is
reserved, or publishes the outcome of a payment. -/
theorem Consistent.of_payment {d' : Payment.Db} (h : Consistent dflt t₀ s)
    (hw : Post.Writes .payment new done s.post ({ s with payment := d' } : Stores).post)
    (hnew : ∀ x ∈ new, (x.topic ∈ Service.payment.produces ∧ x.payload.eventType = x.topic ∧
      x.payload.payload.orderId = some x.key) ∧ s.HasPayment x.key ∧
      ¬ s.post.Used x.payload.eventId ∧ x.publishedAt = none)
    (hdone : ∀ id ∈ done, s.post.Used id) (hagreed : Payment.Agreed dflt d')
    (hkeep : ∀ o, s.HasPayment o → ({ s with payment := d' } : Stores).HasPayment o)
    (hpaid : ∀ o, ({ s with payment := d' } : Stores).HasPayment o →
      ∃ e, s.Event .stockReserved o e)
    (hrecorded : ∀ o e, s.Event .stockReserved o e → e.eventId ∈ done →
      ({ s with payment := d' } : Stores).HasPayment o) :
    Consistent dflt t₀ { s with payment := d' } := by
  set s' : Stores := { s with payment := d' } with hs'
  have hold : ∀ {topic o e}, s.Event topic o e → s'.Event topic o e := hw.event_mono
  have hevent : ∀ {topic o e}, s'.Event topic o e → s.Event topic o e ∨
      (topic ∈ Service.payment.produces ∧ s.HasPayment o ∧ ¬ s.post.Used e.eventId) := by
    intro topic o e he
    rcases hw.event.1 he with he | ⟨x, hx, rfl, rfl, rfl⟩
    · exact .inl he
    · obtain ⟨hshape, hk, hfresh, -⟩ := hnew x hx
      exact .inr ⟨hshape.1, hk, hfresh⟩
  constructor
  case post =>
    refine h.post.writes hw (fun x hx => ?_) hdone
    obtain ⟨hshape, -, hrest⟩ := hnew x hx
    exact ⟨hshape, hrest⟩
  case orders => exact h.orders
  case payments => exact hagreed
  case stock => exact h.stock
  case known =>
    intro topic o e he
    rcases hevent he with he | ⟨-, hp, -⟩
    · exact h.known _ _ _ he
    · obtain ⟨e', he'⟩ := h.paid o hp
      exact h.known _ _ _ he'
  case placed =>
    intro o e he
    rcases hevent he with he | ⟨ht, -⟩
    · exact h.placed o e he
    · exact absurd ht (by decide)
  case stage =>
    intro o
    obtain ⟨g, hg⟩ := h.stage o
    refine ⟨g, hg.keep (fun _ => rfl) rfl (fun _ _ => hold) (fun topic e he => ?_)
      fun _ _ _ => Iff.rfl⟩
    rcases hevent he with he | ⟨ht, -, hfresh⟩
    · exact .inl he
    · refine .inr ⟨?_, ?_, fun hh => hfresh (h.post.ledger .restaurant _ hh), ?_, ?_⟩
      all_goals
        rintro rfl
        exact absurd ht (by decide)
  case paid =>
    intro o hp
    obtain ⟨e, he⟩ := hpaid o hp
    exact ⟨e, hold he⟩
  case recorded =>
    intro o e he hh
    rcases hevent he with he | ⟨ht, -⟩
    · rcases (hw.mem_processed .payment).1 hh with hh | ⟨-, hid⟩
      · exact hkeep o (h.recorded o e he hh)
      · exact hrecorded o e he hid
    · exact absurd ht (by decide)
  case caused =>
    intro o status hst hp
    obtain ⟨topic, e, ht, he⟩ := h.caused o status hst hp
    exact ⟨topic, e, ht, hold he⟩
  case settled =>
    intro topic o e he ht hh
    rcases hevent he with he | ⟨-, -, hfresh⟩
    · exact h.settled topic o e he ht hh
    · exact absurd (h.post.ledger .order _ hh) hfresh

theorem hasPayment_resolved {success : Bool} {pid : UUID} :
    ({ s with payment := Payment.resolved success o pid f s.payment } : Stores).HasPayment o' ↔
      s.HasPayment o' := by
  change ((s.payment.tables.payments.update (·.id = pid) fun r =>
    { r with status := Payment.statusOf success, updatedAt := f.now }).get? o').isSome ↔ _
  rw [Table.get?_update, Option.isSome_map, Stores.HasPayment]

/-- The outcome of a payment is published. -/
theorem Consistent.outcome {success : Bool} {pid : UUID} (h : Consistent dflt t₀ s)
    (hf : s.New f) (hh : Payment.Holds dflt s.payment o pid success)
    (hr : s.payment.mail.outbox.get? f.rowId = none)
    (hagreed : Payment.Agreed dflt (Payment.resolved success o pid f s.payment)) :
    Consistent dflt t₀ { s with payment := Payment.resolved success o pid f s.payment } := by
  obtain ⟨p, hp, -, rfl, -⟩ := hh
  have hhas : s.HasPayment p.orderId := by
    rw [Stores.HasPayment, Table.get?_of_mem hp]
    rfl
  have hw := writes_payment (s := s) (Payment.resolved success p.orderId pid f s.payment)
    (Mail.adds_addOutbox (x := Payment.outcomeRow success p.orderId f) hr)
  refine h.of_payment hw (fun x hx => ?_) (fun _ hid => by cases hid) hagreed
    (fun o => hasPayment_resolved.2) (fun o ho => h.paid o (hasPayment_resolved.1 ho))
    fun _ _ _ hid => by cases hid
  obtain rfl := Option.some.inj hx
  refine ⟨⟨?_, rfl, rfl⟩, hhas, hf.not_used, rfl⟩
  show Payment.topicOf success ∈ _
  cases success <;> decide

theorem Consistent.payment {q : Payment.Process} {d' : Payment.Db} (h : Consistent dflt t₀ s)
    (hf : s.New f) (he : Payment.Effect (s.Delivered .payment) dflt q f s.payment d') :
    Consistent dflt t₀ { s with payment := d' } := by
  have hagreed := he.agreed h.payments
  cases he with
  | unchanged => exact h
  | outcome _ hh hr => exact h.outcome hf hh hr hagreed
  | settled _ hh _ hr => exact h.outcome hf hh hr hagreed
  | @intent env o amount cents directive hd _ ho _ _ _ _ hnone =>
    obtain ⟨topic, ht, o', hev, rfl, ho'⟩ := hd.event h.post
    obtain rfl := Option.some.inj (ho.symm.trans ho')
    have ht : env.eventType = .stockReserved := List.mem_singleton.1 ht
    rw [ht] at hev
    have hw := writes_payment (s := s) ⟨Payment.apply
      (.addPayment (Payment.intentRow o cents directive f)) s.payment.tables, _⟩
      ((Mail.adds_refl s.payment.mail).addProcessed env.eventId)
    have hpay : ∀ o', ({ s with payment := ⟨Payment.apply
        (.addPayment (Payment.intentRow o cents directive f)) s.payment.tables,
        Mail.apply (.addProcessed env.eventId) s.payment.mail⟩ } : Stores).HasPayment o' ↔
          o = o' ∨ s.HasPayment o' := by
      intro o'
      change ((s.payment.tables.payments.insert _).get? o').isSome ↔ _
      rw [Table.get?_insert hnone]
      split_ifs with ho'
      · exact iff_of_true rfl (.inl ho')
      · exact ⟨.inr, fun h => h.resolve_left ho'⟩
    refine h.of_payment hw (fun _ hx => by cases hx) (fun id hid => ?_) hagreed
      (fun o' hp => (hpay o').2 (.inr hp)) (fun o' hp => ?_) fun o' e he hid => (hpay o').2 ?_
    · obtain rfl := Option.some.inj hid
      exact hev.used
    · rcases (hpay o').1 hp with rfl | hp
      · exact ⟨env, hev⟩
      · exact h.paid o' hp
    · exact .inl (h.post.event_inj hev he (Option.some.inj hid)).2.1

/-! ### The steps of the relays -/

/-- The events fit the orders, whether or not one of them has been marked. -/
theorem sound_marked {d d' : Order.Db} (h : Order.Sound d) (ht : d'.tables = d.tables)
    (hm : d.mail.Marked d'.mail) : Order.Sound d' := by
  have hcount : ∀ topic o, Order.published d' topic o = Order.published d topic o := fun _ _ =>
    hm.countP _ fun _ _ => rfl
  constructor
  case placed =>
    intro r hr
    rw [hcount]
    exact h.placed r (ht ▸ hr)
  case release =>
    intro r hr
    rw [hcount]
    exact h.release r (ht ▸ hr)
  case known =>
    intro x hx
    obtain ⟨y, hy, -, hk, -⟩ := hm.of_mem hx
    rw [ht, hk]
    exact h.known y hy

/-- The outcomes fit the payments, whether or not one of them has been marked. -/
theorem agreed_marked {d d' : Payment.Db} (h : Payment.Agreed dflt d) (ht : d'.tables = d.tables)
    (hm : d.mail.Marked d'.mail) : Payment.Agreed dflt d' := by
  constructor
  case id_unique =>
    intro p hp q hq
    exact h.id_unique p (ht ▸ hp) q (ht ▸ hq)
  case of_outbox =>
    intro x hx
    obtain ⟨y, hy, -, -, hxy⟩ := hm.of_mem hx
    obtain ⟨b, p, hp, hout, hst⟩ := h.of_outbox y hy
    exact ⟨b, p, ht ▸ hp, by rwa [Payment.IsOutcome, hxy], hst⟩
  case published =>
    intro p hp b hb
    obtain ⟨y, hy, hout⟩ := h.published p (ht ▸ hp) b hb
    obtain ⟨x, hx, -, -, hxy⟩ := hm.mem hy
    exact ⟨x, hx, by rwa [Payment.IsOutcome, hxy]⟩
  case decided =>
    intro p hp
    exact h.decided p (ht ▸ hp)

theorem Consistent.relay {x : OutboxRow} (h : Consistent dflt t₀ s)
    (hrel : s.post.Relays service x s'.post) (ho : s'.order.tables = s.order.tables)
    (hr : s'.restaurant.tables = s.restaurant.tables)
    (hp : s'.payment.tables = s.payment.tables) : Consistent dflt t₀ s' := by
  have hevent : ∀ {topic o e}, s'.Event topic o e ↔ s.Event topic o e := hrel.event
  have hhandled : ∀ {service e}, s'.Handled service e ↔ s.Handled service e := by
    intro service e
    exact iff_of_eq (congrArg (e.eventId ∈ ·) (hrel.marked service).processed)
  have hitems : ∀ o, s'.itemsOf o = s.itemsOf o := fun o => by
    rw [Stores.itemsOf, ho, Stores.itemsOf]
  have hhas : ∀ o, s'.HasPayment o ↔ s.HasPayment o := fun o => by
    rw [Stores.HasPayment, hp, Stores.HasPayment]
  constructor
  case post => exact h.post.relays hrel
  case orders => exact sound_marked h.orders ho (hrel.marked .order)
  case payments => exact agreed_marked h.payments hp (hrel.marked .payment)
  case stock => exact hr ▸ h.stock
  case known =>
    intro topic o e he
    rw [ho]
    exact h.known _ _ _ (hevent.1 he)
  case placed =>
    intro o e he
    rw [hitems]
    exact h.placed o e (hevent.1 he)
  case stage =>
    intro o
    obtain ⟨g, hg⟩ := h.stage o
    refine ⟨g, hg.keep (fun _ => hitems o) ?_ (fun _ _ => hevent.2) (fun _ _ he =>
      .inl (hevent.1 he)) fun _ _ _ => hhandled⟩
    rw [Stores.reservedFor, hr, Stores.reservedFor]
  case paid =>
    intro o ho
    obtain ⟨e, he⟩ := h.paid o ((hhas o).1 ho)
    exact ⟨e, hevent.2 he⟩
  case recorded =>
    intro o e he hh
    exact (hhas o).2 (h.recorded o e (hevent.1 he) (hhandled.1 hh))
  case caused =>
    intro o status hst hne
    obtain ⟨topic, e, ht, he⟩ := h.caused o status (ho ▸ hst) hne
    exact ⟨topic, e, ht, hevent.2 he⟩
  case settled =>
    intro topic o e he ht hh
    rw [ho]
    exact h.settled topic o e (hevent.1 he) ht (hhandled.1 hh)

/-! ### Every run -/

/-- **Every step of the system keeps the invariant.** -/
theorem Consistent.step (ht₀ : Restaurant.Seeded t₀) (h : Consistent dflt t₀ s)
    (hc : Commits dflt s s') : Consistent dflt t₀ s' := by
  cases hc with
  | same => exact h
  | place hf hrun => exact h.place hf hrun
  | order hd hf he => exact h.order hd hf he
  | restaurant hd hf he => exact h.restaurant hd hf he
  | restart => exact h.restart ht₀
  | payment hf he => exact h.payment hf he
  | relay hrel ho hr hp => exact h.relay hrel ho hr hp

theorem consistent_start (ht₀ : Restaurant.Migrated ⟨t₀, .empty⟩) :
    Consistent dflt t₀ (State.start t₀).stores := by
  -- nothing has been written or handled yet
  have hrows : ∀ i, ((State.start t₀).stores.post.mail i).outbox.rows = [] := by
    intro i
    cases i <;> rfl
  have hprocessed : ∀ i, ((State.start t₀).stores.post.mail i).processed = [] := by
    intro i
    cases i <;> rfl
  have hno : ∀ {topic o e}, ¬ (State.start t₀).stores.Event topic o e := by
    rintro topic o e ⟨i, x, hx, -⟩
    rw [hrows i] at hx
    cases hx
  have hreserved : t₀.reservations = .empty := ht₀.unreserved
  constructor
  case post =>
    constructor
    case shape =>
      intro i x hx
      rw [hrows i] at hx
      cases hx
    case unique =>
      intro i j x hx
      rw [hrows i] at hx
      cases hx
    case ledger =>
      intro i e he
      rw [hprocessed i] at he
      cases he
    case sent =>
      intro m hm
      cases hm
    case marked =>
      intro i x hx
      rw [hrows i] at hx
      cases hx
  case orders => exact Order.sound_migrated
  case payments => constructor <;> intro x hx <;> cases hx
  case stock => exact Restaurant.conserved_refl hreserved ht₀.nonNeg
  case known => exact fun _ _ _ he => absurd he hno
  case placed => exact fun _ _ he => absurd he hno
  case stage =>
    intro o
    refine ⟨.untouched, ?_, ?_, ?_, fun _ he => absurd he hno, fun _ he => absurd he hno, by simp⟩
    · show (t₀.reservations.get? o).map _ = none
      rw [hreserved]
      rfl
    · exact iff_of_false (fun ⟨_, he⟩ => hno he) (by decide)
    · exact iff_of_false (fun ⟨_, he⟩ => hno he) (by decide)
  case paid => exact fun _ hp => by cases hp
  case recorded => exact fun _ _ he => absurd he hno
  case caused => exact fun _ _ hst => by cases hst
  case settled => exact fun _ _ _ he => absurd he hno

/-- **The invariant holds in every run.** -/
theorem run_consistent (ht₀ : Restaurant.Migrated ⟨t₀, .empty⟩) {n : State} {ls : List Label}
    (hr : (system dflt).Run (.start t₀) ls n) : Consistent dflt t₀ n.stores ∧ Procs dflt n := by
  exact run_invariant (Consistent dflt t₀) (consistent_start ht₀)
    (fun _ _ h hc => h.step ht₀.seededTables hc) hr

end Saga

end FoodFlow
