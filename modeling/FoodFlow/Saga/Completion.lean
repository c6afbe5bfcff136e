import FoodFlow.Saga.Quiescence
import FoodFlow.Saga.Refusals
import FoodFlow.Saga.Offsets
import FoodFlow.Saga.Recorded
import FoodFlow.Payment.Passes
import Mathlib.Data.Finset.Order
import Mathlib.Data.Finset.Max

/-!
# Completion of the saga

From every state of every run, whatever has been killed, repeated or left half done, the services
can still bring every order to its end by themselves, as long as no order lists a negative
quantity:

* `Calm`, `calm` : the steps that the services take by themselves and that do not fail;
* `handle_restaurant`, `handle_payment`, `handle_order` : every message can be handled;
* `reconcile_all`, `drain` : every payment in process can be resolved, every outbox be published;
* `saga_completes` : **a calm run leads to a quiescent state.**

Messages only give rise to messages further down the saga, so one round through the topics is
enough.
-/

namespace FoodFlow

namespace Order

variable {env : Envelope} {f : Fresh} {d : Db} {o : UUID} {current target : Status}

/-- A transition of an order that has left `PENDING`. -/
theorem eval_transitionOrder_refused (hs : d.tables.status o = some current)
    (hc : current ≠ .pending) (saved : List Db) : (transitionOrder o target f).eval d saved =
      .thrown (.invalidTransition current target) := by
  rw [transitionOrder, Tx.bind_def, eval_selectStatusForUpdate, hs]
  simp only [mem_allowedTransitions, hc, false_and, not_false_eq_true, if_true]
  rfl

/-- A message about an order that has left `PENDING` is refused. -/
theorem run_handleTx_refused (ht : targetOf env.eventType = some target)
    (ho : env.payload.orderId = some o) (hn : env.eventId ∉ d.mail.processed)
    (hs : d.tables.status o = some current) (hc : current ≠ .pending) :
    (handleTx env f).run d = .error (.invalidTransition current target) := by
  have refused : ∀ rest : Tx db Process, ((transitionOrder o target f).bind fun _ => rest).run d =
      .error (.invalidTransition current target) := by
    intro rest
    rw [Tx.run, Tx.eval_bind, eval_transitionOrder_refused hs hc]
    rfl
  rw [Tx.run, handleTx, Tx.bind_def, Mail.eval_selectProcessed, if_neg (by simpa using hn),
    handleBody, ho]
  generalize env.eventType = ty at ht
  cases ty with
  | paymentSucceeded => obtain rfl := Option.some.inj ht; exact refused _
  | paymentFailed => obtain rfl := Option.some.inj ht; exact refused _
  | stockRejected => obtain rfl := Option.some.inj ht; exact refused _
  | orderPlaced => cases ht
  | stockReserved => cases ht
  | stockRelease => cases ht
  | other name => cases ht

end Order

namespace Saga

/-- The rows of an outbox that have not been published. -/
def State.unpublished (s : State) (service : Service) : List OutboxRow :=
  (s.stores.mail service).outbox.rows.filter fun x => x.publishedAt = none

/-- The steps that the services take by themselves and that do not fail: a message is delivered, a
reconciliation pass begins, a process runs, a relay publishes the oldest row. -/
def Calm (s : State) : Label → Prop
  | .deliver _ _ | .reconcile _ | .run _ _ _ => True
  | .relay service id publishedAt => publishedAt.isSome ∧
      ∀ x ∈ s.unpublished service, x.id = id → ∀ y ∈ s.unpublished service,
        x.createdAt ≤ y.createdAt
  | .request _ | .kill _ _ | .restart => False

/-- The system left to itself. -/
def calm (dflt : String) : LTS State Label := (system dflt).restrict Calm

/-- A state of a run in which no order lists a negative quantity. -/
structure Sane (dflt : String) (t₀ : Restaurant.Tables) (s : State) : Prop where
  run : ∃ ls, (system dflt).Run (.start t₀) ls s
  nonneg : ∀ o items, s.stores.itemsOf o = some items → ∀ item ∈ items, 0 ≤ item.quantity

/-- What is left alone when only the service `i` handles messages or resolves payments. -/
structure Only (i : Service) (s s' : State) : Prop where
  kafka : s'.kafka = s.kafka
  mail : ∀ j, j ≠ i → s'.stores.mail j = s.stores.mail j
  payment : i ≠ .payment → s'.payment.db = s.payment.db
  items : ∀ o, s'.stores.itemsOf o = s.stores.itemsOf o
  handled : ∀ j e, s.stores.Handled j e → s'.stores.Handled j e
  refused : ∀ e, s.Refused e → s'.Refused e

/-- What the relay of the service `i` leaves alone. -/
structure Relayed (i : Service) (s s' : State) : Prop where
  kafka : ∀ m ∈ s'.kafka, m ∈ s.kafka ∨ ∃ x ∈ s.unpublished i, m = ⟨x.topic, x.payload⟩
  unpublished : ∀ j, ∀ x ∈ s'.unpublished j, x ∈ s.unpublished j
  payment : s'.payment.db.tables = s.payment.db.tables
  items : ∀ o, s'.stores.itemsOf o = s.stores.itemsOf o
  handled : ∀ j e, s.stores.Handled j e → s'.stores.Handled j e
  refused : ∀ e, s.Refused e → s'.Refused e

variable {dflt : String} {t₀ : Restaurant.Tables} {s s₁ s₂ s₃ s' : State} {i : Service} {o : UUID}
  {e env : Envelope} {f : Fresh} {m : Message} {ls : List Label}

theorem itemsOf_eq (s : Stores) (o : UUID) : s.itemsOf o = (s.terms? o).map Terms.items := by
  rw [Stores.terms?, Option.map_map]
  rfl

theorem mem_unpublished {x : OutboxRow} : x ∈ s.unpublished i ↔
    x ∈ (s.stores.mail i).outbox.rows ∧ x.publishedAt = none := by
  rw [State.unpublished, List.mem_filter, decide_eq_true_eq]

theorem Only.refl (s : State) : Only i s s :=
  ⟨rfl, fun _ _ => rfl, fun _ => rfl, fun _ => rfl, fun _ _ h => h, fun _ h => h⟩

theorem Only.trans (h : Only i s₁ s₂) (h' : Only i s₂ s₃) : Only i s₁ s₃ where
  kafka := h'.kafka.trans h.kafka
  mail j hj := (h'.mail j hj).trans (h.mail j hj)
  payment hi := (h'.payment hi).trans (h.payment hi)
  items o := (h'.items o).trans (h.items o)
  handled j e hh := h'.handled j e (h.handled j e hh)
  refused e hr := h'.refused e (h.refused e hr)

theorem Relayed.refl (s : State) : Relayed i s s :=
  ⟨fun _ h => .inl h, fun _ _ h => h, rfl, fun _ => rfl, fun _ _ h => h, fun _ h => h⟩

theorem Relayed.trans (h : Relayed i s₁ s₂) (h' : Relayed i s₂ s₃) : Relayed i s₁ s₃ where
  kafka m hm := by
    rcases h'.kafka m hm with hm | ⟨x, hx, rfl⟩
    · exact h.kafka m hm
    · exact .inr ⟨x, h.unpublished _ x hx, rfl⟩
  unpublished j x hx := h.unpublished j x (h'.unpublished j x hx)
  payment := h'.payment.trans h.payment
  items o := (h'.items o).trans (h.items o)
  handled j e hh := h'.handled j e (h.handled j e hh)
  refused e hr := h'.refused e (h.refused e hr)

namespace Sane

theorem consistent (h : Sane dflt t₀ s) (ht₀ : Restaurant.Migrated ⟨t₀, .empty⟩) :
    Consistent dflt t₀ s.stores := by
  obtain ⟨ls, hr⟩ := h.run
  exact (run_consistent ht₀ hr).1

/-- A calm run on which no order is changed keeps to such states. -/
theorem runs (h : Sane dflt t₀ s) (hr : (calm dflt).Run s ls s')
    (hitems : ∀ o, s'.stores.itemsOf o = s.stores.itemsOf o) : Sane dflt t₀ s' where
  run := by
    obtain ⟨ls₀, hr₀⟩ := h.run
    exact ⟨_, hr₀.trans hr.of_restrict⟩
  nonneg o items ho := h.nonneg o items (hitems o ▸ ho)

end Sane

/-! ### What is drawn -/

/-- Ids that are new everywhere, at any time. -/
theorem exists_fresh (s : Stores) (now : Time) : ∃ f : Fresh, f.now = now ∧ s.New f ∧
    (∀ i, (s.mail i).outbox.get? f.rowId = none) ∧ s.payment.tables.byId? f.id = none := by
  have rows : ∀ g : OutboxRow → UUID, ∃ u, ∀ i, ∀ x ∈ (s.mail i).outbox.rows, g x ≠ u := by
    intro g
    obtain ⟨u, hu⟩ := Infinite.exists_notMem_finset
      (Finset.univ.biUnion fun i => ((s.mail i).outbox.rows.map g).toFinset)
    refine ⟨u, fun i x hx hxu => hu ?_⟩
    exact Finset.mem_biUnion.2 ⟨i, Finset.mem_univ i,
      List.mem_toFinset.2 (List.mem_map.2 ⟨x, hx, hxu⟩)⟩
  obtain ⟨eventId, he⟩ := rows fun x => x.payload.eventId
  obtain ⟨rowId, hr⟩ := rows OutboxRow.id
  obtain ⟨id, hid⟩ := Infinite.exists_notMem_finset
    (s.payment.tables.payments.rows.map Payment.PaymentRow.id).toFinset
  refine ⟨⟨id, eventId, rowId, now⟩, rfl, he, fun i => (Table.get?_eq_none _).2 (hr i), ?_⟩
  refine List.find?_eq_none.2 fun p hp hpid => hid ?_
  exact List.mem_toFinset.2 (List.mem_map.2 ⟨p, hp, of_decide_eq_true hpid⟩)

/-! ### Running a process -/

section Node

variable {S : Dbms} {F O R : Type} {n : Node S F O R} {t : F → Tx S (Proc S F O R)}
  {x : S.Err → Proc S F O R} {f : F} {j : ℕ}

/-- A process runs a transaction that commits. -/
theorem act_commit {p : Proc S F O R} {d : S.Db} (hj : n.procs[j]? = some (some (.txn t x)))
    (hrun : (t f).run n.db = .ok (p, d)) :
    n.act (.run j f) = some ⟨d, n.procs.set j (some p), n.calls⟩ := by
  simp only [Node.act, hj, hrun]

/-- A process runs a transaction that is rolled back. -/
theorem act_abort {e : S.Err} (hj : n.procs[j]? = some (some (.txn t x)))
    (hrun : (t f).run n.db = .error e) :
    n.act (.run j f) = some { n with procs := n.procs.set j (some (x e)) } := by
  simp only [Node.act, hj, hrun]

theorem set_snoc {α : Type} (l : List α) (y z : α) : (l ++ [y]).set l.length z = l ++ [z] := by
  rw [List.set_append_right _ _ (Nat.le_refl _), Nat.sub_self]
  rfl

/-- A process is started. -/
def started (n : Node S F O R) (p : Proc S F O R) : Node S F O R :=
  { n with procs := n.procs ++ [some p] }

/-- A process is started and runs a transaction that commits. -/
theorem act_started_commit {p : Proc S F O R} {d : S.Db} (hrun : (t f).run n.db = .ok (p, d)) :
    (started n (.txn t x)).act (.run n.procs.length f) =
      some (started { n with db := d } p) := by
  have hj : (started n (.txn t x)).procs[n.procs.length]? = some (some (.txn t x)) :=
    List.getElem?_concat_length
  rw [act_commit hj hrun, started, started, set_snoc]

/-- A process is started and runs a transaction that is rolled back. -/
theorem act_started_abort {e : S.Err} (hrun : (t f).run n.db = .error e) :
    (started n (.txn t x)).act (.run n.procs.length f) = some (started n (x e)) := by
  have hj : (started n (.txn t x)).procs[n.procs.length]? = some (some (.txn t x)) :=
    List.getElem?_concat_length
  rw [act_abort hj hrun, started, started, set_snoc]

end Node

theorem actOrder_eq {l : Node.Label Order.db Fresh Empty Order.Reply} {n}
    (h : s.order.act l = some n) : s.actOrder l = some { s with order := n } :=
  congrArg (Option.map _) h

theorem actRestaurant_eq {l : Node.Label Restaurant.db Fresh Empty Restaurant.Handled} {n}
    (h : s.restaurant.act l = some n) : s.actRestaurant l = some { s with restaurant := n } :=
  congrArg (Option.map _) h

theorem actPayment_eq {l : Node.Label Payment.db Fresh Payment.GatewayCall Payment.Reply} {n}
    (h : s.payment.act l = some n) : s.actPayment l = some { s with payment := n } :=
  congrArg (Option.map _) h

/-- The restaurant service handles a message. -/
theorem run_restaurant (dflt : String) {p : Restaurant.Process} {d' : Restaurant.Db}
    (hd : s.stores.Delivered .restaurant env) (hf : s.stores.New f)
    (hrun : (Restaurant.handleTx env f).run s.restaurant.db = .ok (p, d')) :
    ∃ ls, (calm dflt).Run s ls
      { s with restaurant := started { s.restaurant with db := d' } p } := by
  have h₁ : (calm dflt).step s (.deliver .restaurant env)
      { s with restaurant := started s.restaurant (Restaurant.handleMessage env) } :=
    ⟨trivial, trivial, if_pos hd⟩
  have h₂ : (calm dflt).step
      { s with restaurant := started s.restaurant (Restaurant.handleMessage env) }
      (.run .restaurant s.restaurant.procs.length f)
      { s with restaurant := started { s.restaurant with db := d' } p } :=
    ⟨trivial, trivial, (if_pos hf).trans
      (actRestaurant_eq (act_started_commit hrun))⟩
  exact ⟨_, (LTS.Run.single h₁).snoc h₂⟩

/-- The payment service records a payment. -/
theorem run_payment {p : Payment.Process} {amount : ℚ} {d' : Payment.Db}
    (hd : s.stores.Delivered .payment env) (hf : s.stores.New f)
    (ho : env.payload.orderId = some o) (ha : env.payload.totalAmount = some amount)
    (hrun : (Payment.recordIntent dflt env o amount f).run s.payment.db = .ok (p, d')) :
    ∃ ls, (calm dflt).Run s ls { s with payment := started { s.payment with db := d' } p } := by
  have hm : Payment.handleMessage dflt env =
      .txn (Payment.recordIntent dflt env o amount) (Payment.intentError env) := by
    rw [Payment.handleMessage, ho, ha]
  have h₁ : (calm dflt).step s (.deliver .payment env)
      { s with payment := started s.payment (.txn (Payment.recordIntent dflt env o amount)
        (Payment.intentError env)) } :=
    ⟨trivial, trivial, hm ▸ if_pos hd⟩
  have h₂ : (calm dflt).step
      { s with payment := started s.payment (.txn (Payment.recordIntent dflt env o amount)
        (Payment.intentError env)) }
      (.run .payment s.payment.procs.length f)
      { s with payment := started { s.payment with db := d' } p } :=
    ⟨trivial, trivial, (if_pos hf).trans
      (actPayment_eq (act_started_commit hrun))⟩
  exact ⟨_, (LTS.Run.single h₁).snoc h₂⟩

/-- The order service handles or refuses a message. -/
theorem run_order (dflt : String) (hd : s.stores.Delivered .order env) (hf : s.stores.New f) :
    (∀ p d', (Order.handleTx env f).run s.order.db = .ok (p, d') → ∃ ls, (calm dflt).Run s ls
      { s with order := started { s.order with db := d' } p }) ∧
    ∀ x, (Order.handleTx env f).run s.order.db = .error x → ∃ ls, (calm dflt).Run s ls
      { s with order := started s.order (Order.handleError env x) } := by
  have h₁ : (calm dflt).step s (.deliver .order env)
      { s with order := started s.order (Order.handleMessage env) } :=
    ⟨trivial, trivial, if_pos hd⟩
  refine ⟨fun p d' hrun => ?_, fun x hrun => ?_⟩
  · have h₂ : (calm dflt).step { s with order := started s.order (Order.handleMessage env) }
        (.run .order s.order.procs.length f)
        { s with order := started { s.order with db := d' } p } :=
      ⟨trivial, trivial, (if_pos hf).trans
        (actOrder_eq (act_started_commit hrun))⟩
    exact ⟨_, (LTS.Run.single h₁).snoc h₂⟩
  · have h₂ : (calm dflt).step { s with order := started s.order (Order.handleMessage env) }
        (.run .order s.order.procs.length f)
        { s with order := started s.order (Order.handleError env x) } :=
      ⟨trivial, trivial, (if_pos hf).trans
        (actOrder_eq (act_started_abort hrun))⟩
    exact ⟨_, (LTS.Run.single h₁).snoc h₂⟩

/-! ### Handling messages -/

theorem refused_started {n : Node Order.db Fresh Empty Order.Reply} {p : Order.Process}
    (h : ∃ reply ∈ n.replies, refusal reply = some env) :
    ∃ reply ∈ (started n p).replies, refusal reply = some env := by
  obtain ⟨reply, hm, hr⟩ := h
  exact ⟨reply, Node.mem_replies.2 (List.mem_append_left _ (Node.mem_replies.1 hm)), hr⟩

/-- No message makes the restaurant service fail, where no order lists a negative quantity. -/
theorem commits_restaurant {topic : EventType} (ht₀ : Restaurant.Migrated ⟨t₀, .empty⟩)
    (hfits : Restaurant.Fits t₀) (h : Sane dflt t₀ s) (he : s.stores.Event topic o env)
    (ht : topic ∈ Service.restaurant.consumes) (hn : ¬ s.stores.Handled .restaurant env)
    (hrow : s.restaurant.db.FreshRow f) :
    ∃ p d', (Restaurant.handleTx env f).run s.restaurant.db = .ok (p, d') := by
  have hc := h.consistent ht₀
  obtain ⟨ls, hr⟩ := h.run
  have hty : env.eventType = topic := hc.post.eventType he
  have ho : env.payload.orderId = some o := hc.post.orderId he
  cases hrun : (Restaurant.handleTx env f).run s.restaurant.db with
  | ok v => exact ⟨v.1, v.2, rfl⟩
  | error x =>
    exfalso
    simp only [Service.consumes, List.mem_cons, List.not_mem_nil, or_false] at ht
    rcases ht with rfl | rfl
    · -- an order that has no reservation yet, with lines in range
      obtain ⟨r, hget, -⟩ :=
        Option.map_eq_some_iff.1 (Option.ne_none_iff_exists'.1 (hc.known _ _ _ he)).choose_spec
      have hof : s.stores.itemsOf o = some r.items := congrArg (Option.map _) hget
      have hitems : env.payload.items = some r.items := (hc.placed o env he).trans hof
      have hrange := Restaurant.inRange_of_nonneg (run_fits hfits hr) (h.nonneg o _ hof)
      have hstorable : Restaurant.isStorable s.restaurant.db.tables env := by
        have := (Restaurant.inRange_iff (t := s.restaurant.db.tables) hc.stock.nonNeg).1 hrange
        simpa [Restaurant.isStorable, hty, hitems] using this
      have hread : Restaurant.isReadable env := by simp [Restaurant.isReadable, hty, ho, hitems]
      have hfree : s.restaurant.db.tables.reservations.get? o = none := (hc.undecided he hn).2
      rcases Restaurant.handleTx_error hrow hrun hread hstorable with hk | ⟨-, o', ho', hres⟩
      · rw [hty] at hk
        cases hk
      · obtain rfl := Option.some.inj (ho.symm.trans ho')
        rw [hfree] at hres
        cases hres
    · -- what is reserved can be given back
      have hstorable : Restaurant.isStorable s.restaurant.db.tables env := by
        simp only [Restaurant.isStorable, hty, ho]
        cases hres : s.restaurant.db.tables.reservations.get? o with
        | none => rfl
        | some res =>
          obtain rfl : res.orderId = o := Table.key_of_get? hres
          refine Restaurant.isAddable_iff.2 ?_
          refine hc.returnable hfits (run_stocked ht₀.unreserved hr) hres fun r hr _ item hi _ => ?_
          exact h.nonneg r.id r.items (congrArg (Option.map _) (Table.get?_of_mem hr)) item hi
      have hread : Restaurant.isReadable env := by simp [Restaurant.isReadable, hty, ho]
      rcases Restaurant.handleTx_error hrow hrun hread hstorable with hk | ⟨hp, -⟩
      · rw [hty] at hk
        cases hk
      · rw [hty] at hp
        cases hp

/-- The restaurant service can handle every message; a compensation makes it publish nothing. -/
theorem handle_restaurant (ht₀ : Restaurant.Migrated ⟨t₀, .empty⟩) (hfits : Restaurant.Fits t₀)
    (h : Sane dflt t₀ s) (hm : m ∈ s.kafka) (ht : m.topic ∈ Service.restaurant.consumes) :
    ∃ ls s', (calm dflt).Run s ls s' ∧ Only .restaurant s s' ∧
      s'.stores.Handled .restaurant m.value ∧ (m.topic = .stockRelease →
        s'.restaurant.db.mail.outbox = s.restaurant.db.mail.outbox) := by
  by_cases hh : s.stores.Handled .restaurant m.value
  · exact ⟨[], s, .refl, .refl s, hh, fun _ => rfl⟩
  have hc := h.consistent ht₀
  have hd : s.stores.Delivered .restaurant m.value := ⟨m, hm, ht, rfl⟩
  obtain ⟨o, he⟩ := hc.post.sent m hm
  have hty : m.value.eventType = m.topic := hc.post.eventType he
  obtain ⟨f, -, hf, hrow, -⟩ := exists_fresh s.stores 0
  obtain ⟨p, d', hrun⟩ := commits_restaurant ht₀ hfits h he ht hh (hrow .restaurant)
  obtain ⟨ls, hr⟩ := run_restaurant dflt hd hf hrun
  refine ⟨ls, _, hr, ⟨rfl, ?_, fun _ => rfl, fun _ => rfl, ?_, fun _ h => h⟩, ?_, fun htopic => ?_⟩
  · intro j hj
    cases j <;> first | rfl | exact absurd rfl hj
  · exact fun j e => handled_restaurant fun _ hid => Mail.mem_processed_run hrun hid
  · exact (@handled_of_commit dflt _ _).2.1 _ _ _ (hty ▸ ht) hrun
  · rw [htopic] at hty
    obtain ⟨-, heff⟩ := Restaurant.handleTx_ok hrun
    cases heff with
    | duplicate _ => rfl
    | unknown _ _ => rfl
    | reserved hp _ _ _ _ _ => rw [hty] at hp; cases hp
    | rejected hp _ _ _ _ _ => rw [hty] at hp; cases hp
    | released _ _ _ _ => rfl
    | notFound _ _ _ _ => rfl

/-- The payment service can record a payment for every message. -/
theorem handle_payment (ht₀ : Restaurant.Migrated ⟨t₀, .empty⟩) (h : Sane dflt t₀ s)
    (hm : m ∈ s.kafka) (ht : m.topic ∈ Service.payment.consumes) :
    ∃ ls s', (calm dflt).Run s ls s' ∧ Only .payment s s' ∧
      s'.stores.Handled .payment m.value := by
  by_cases hh : s.stores.Handled .payment m.value
  · exact ⟨[], s, .refl, .refl s, hh⟩
  have hc := h.consistent ht₀
  obtain ⟨ls₀, hr₀⟩ := h.run
  have hd : s.stores.Delivered .payment m.value := ⟨m, hm, ht, rfl⟩
  obtain ⟨o, he⟩ := hc.post.sent m hm
  rw [List.mem_singleton.1 ht] at he
  have ho : m.value.payload.orderId = some o := hc.post.orderId he
  -- the amount and the directive can be stored, as those of the order were
  have hrec := run_recorded ht₀ hr₀
  have hfaithful := run_faithful ht₀ hr₀
  obtain ⟨t, hterms, hasks⟩ := hfaithful.asks _ o _ he (.inr rfl)
  obtain ⟨amount, hamount, hcents⟩ := Option.bind_eq_some_iff.1 (hfaithful.rounded o t hterms)
  obtain ⟨directive, hdirective⟩ :=
    Option.isSome_iff_exists.1 (hrec.directive _ o _ he (.inr rfl))
  -- and there is no payment yet
  have hnone : s.payment.db.tables.payments.get? o = none := by
    rw [← Option.not_isSome_iff_eq_none]
    exact fun hp => hh (hrec.handled o _ hp he)
  obtain ⟨f, -, hf, hrow, hid⟩ := exists_fresh s.stores 0
  have hrun := (Payment.run_recordIntent : _ → _ → (Payment.recordIntent dflt _ _ _ f).run
    s.payment.db = _) ⟨hcents, hdirective, hh, hnone⟩ ⟨hid, hrow .payment⟩
  obtain ⟨ls, hr⟩ := run_payment hd hf ho (hasks.amount.trans hamount) hrun
  refine ⟨ls, _, hr, ⟨rfl, ?_, fun hne => absurd rfl hne, fun _ => rfl, ?_, fun _ h => h⟩, ?_⟩
  · intro j hj
    cases j <;> first | rfl | exact absurd rfl hj
  · exact fun j e => handled_payment fun _ hid => Mail.mem_processed_run hrun hid
  · exact (handled_of_commit (f := f)).2.2 _ _ _ _ _ hrun

/-- The order service can handle or refuse every message, and publishes nothing but
compensations. -/
theorem handle_order (ht₀ : Restaurant.Migrated ⟨t₀, .empty⟩) (h : Sane dflt t₀ s)
    (hm : m ∈ s.kafka) (ht : m.topic ∈ Service.order.consumes) :
    ∃ ls s', (calm dflt).Run s ls s' ∧ Only .order s s' ∧
      (s'.stores.Handled .order m.value ∨ s'.Refused m.value) ∧
      ∀ x ∈ s'.unpublished .order, x ∈ s.unpublished .order ∨ x.topic = .stockRelease := by
  by_cases hh : s.stores.Handled .order m.value
  · exact ⟨[], s, .refl, .refl s, .inl hh, fun _ => .inl⟩
  have hc := h.consistent ht₀
  have hd : s.stores.Delivered .order m.value := ⟨m, hm, ht, rfl⟩
  obtain ⟨o, he⟩ := hc.post.sent m hm
  have hty : m.value.eventType = m.topic := hc.post.eventType he
  have ho : m.value.payload.orderId = some o := hc.post.orderId he
  have htarget : Order.targetOf m.value.eventType ≠ none := by
    rw [hty]
    simp only [Service.consumes, List.mem_cons, List.not_mem_nil, or_false] at ht
    rcases ht with ht | ht | ht <;> rw [ht] <;> decide
  obtain ⟨status, hstatus⟩ := Option.ne_none_iff_exists'.1 (hc.known _ _ _ he)
  obtain ⟨f, -, hf, hrow, -⟩ := exists_fresh s.stores 0
  obtain ⟨hcommit, habort⟩ := run_order dflt hd hf
  cases hrun : (Order.handleTx m.value f).run s.order.db with
  | ok v =>
    obtain ⟨p, d'⟩ := v
    obtain ⟨ls, hr⟩ := hcommit p d' hrun
    obtain ⟨-, heff⟩ := Order.handleTx_ok hrun
    refine ⟨ls, _, hr, ⟨rfl, ?_, fun _ => rfl, fun o => ?_, ?_, fun e => refused_started⟩,
      .inl ((@handled_of_commit dflt _ _).1 _ _ _ (hty ▸ ht) hrun), fun x hx => ?_⟩
    · intro j hj
      cases j <;> first | rfl | exact absurd rfl hj
    · cases heff with
      | duplicate _ => rfl
      | unknown _ => rfl
      | transition _ _ _ _ _ _ _ =>
        rw [itemsOf_eq, itemsOf_eq]
        exact congrArg (Option.map _) (terms?_setStatus (s := s.stores))
    · exact fun j e => handled_order fun _ hid => Mail.mem_processed_run hrun hid
    · obtain ⟨hx, hnone⟩ := mem_unpublished.1 hx
      cases heff with
      | duplicate _ => exact .inl (mem_unpublished.2 ⟨hx, hnone⟩)
      | unknown _ => exact .inl (mem_unpublished.2 ⟨hx, hnone⟩)
      | transition o target _ _ _ _ hout =>
        rcases ((adds_transitioned hout).outbox x).1 hx with hx | hx
        · exact .inl (mem_unpublished.2 ⟨hx, hnone⟩)
        · split_ifs at hx
          · obtain rfl := Option.some.inj hx
            exact .inr rfl
          · cases hx
  | error x =>
    obtain ⟨ls, hr⟩ := habort x hrun
    refine ⟨ls, _, hr, ⟨rfl, ?_, fun _ => rfl, fun _ => rfl, fun _ _ h => h,
      fun e => refused_started⟩, .inr ?_, fun x hx => .inl hx⟩
    · intro j hj
      cases j <;> rfl
    · -- nothing but a terminal status makes it fail
      obtain ⟨target, htarget⟩ := Option.ne_none_iff_exists'.1 htarget
      have hleft : status ≠ .pending := by
        rcases Order.handleTx_error (hrow .order) hrun with hnone | hnone | ⟨o', ho', hne⟩
        · rw [hnone] at htarget
          cases htarget
        · rw [hnone] at ho
          cases ho
        · obtain rfl := Option.some.inj (ho.symm.trans ho')
          rintro rfl
          exact hne hstatus
      have hrefused := Order.run_handleTx_refused (f := f) htarget ho hh hstatus hleft
      obtain rfl := Except.error.inj (hrun.symm.trans hrefused)
      refine ⟨.handled m.value (.error (.invalidTransition status target)), ?_, if_neg hleft⟩
      exact Node.mem_replies.2 (List.mem_append_right _ (List.mem_singleton_self _))

/-! ### Resolving payments -/

/-- Ids of payments are unique. -/
theorem Sane.uniqueIds (h : Sane dflt t₀ s) (ht₀ : Restaurant.Migrated ⟨t₀, .empty⟩) {id : UUID}
    {p : Payment.PaymentRow} (hp : p ∈ s.payment.db.tables.payments.rows) (hid : p.id = id) :
    s.payment.db.tables.byId? id = some p := by
  cases hq : s.payment.db.tables.byId? id with
  | none => exact absurd (decide_eq_true hid) (List.find?_eq_none.1 hq p hp)
  | some q =>
    have hqid : q.id = id := by simpa using List.find?_some hq
    exact congrArg some ((h.consistent ht₀).payments.id_unique q (List.mem_of_find?_eq_some hq) p hp
      (hqid.trans hid.symm))

/-- A process of the payment service runs a transaction that commits. -/
theorem run_payment_txn {j : ℕ} {t : Fresh → Tx Payment.db Payment.Process}
    {x : Payment.Err → Payment.Process} {p : Payment.Process} {d' : Payment.Db}
    (hj : s.payment.procs[j]? = some (some (.txn t x))) (hf : s.stores.New f)
    (hrun : (t f).run s.payment.db = .ok (p, d')) :
    (calm dflt).step s (.run .payment j f) { s with payment :=
      ⟨d', s.payment.procs.set j (some p), s.payment.calls⟩ } :=
  ⟨trivial, trivial, (if_pos hf).trans (actPayment_eq (act_commit hj hrun))⟩

/-- The loop of a reconciliation pass resolves the payments it has selected. -/
theorem run_loop (ht₀ : Restaurant.Migrated ⟨t₀, .empty⟩) (ps : List Payment.Stuck) (n j : ℕ)
    (h : Sane dflt t₀ s)
    (hj : s.payment.procs[j]? = some (some (Payment.reconcileLoop dflt ps n))) :
    ∃ ls s', (calm dflt).Run s ls s' ∧ Only .payment s s' ∧
      ∀ p ∈ s'.payment.db.tables.payments.rows, p.status = .processing →
        p ∈ s.payment.db.tables.payments.rows ∧ p.id ∉ ps.map Payment.Stuck.id := by
  induction ps generalizing s n with
  | nil => exact ⟨[], s, .refl, .refl s, fun p hp _ => ⟨hp, List.not_mem_nil⟩⟩
  | cons x ps ih =>
    obtain ⟨f, -, hf, hrow, -⟩ := exists_fresh s.stores 0
    -- the gateway is called
    let k : Payment.Process := .txn
      (Payment.settleTx dflt x (Payment.reconcileLoop dflt ps) n) Payment.passError
    let s₁ : State := { s with payment := ⟨s.payment.db, s.payment.procs.set j (some k),
      s.payment.calls ++ [⟨(x.amount : ℚ) / 100, x.paymentSimulate⟩]⟩ }
    have h₁ : (calm dflt).step s (.run .payment j f) s₁ := by
      refine ⟨trivial, trivial, (if_pos hf).trans (actPayment_eq ?_)⟩
      simp only [Node.act, hj, Payment.reconcileLoop]
      rfl
    have hj₁ : s₁.payment.procs[j]? = some (some k) := by
      rw [getElem?_set_of_some hj, if_pos rfl]
    -- the payment is resolved, if it is still in process
    obtain ⟨m, d', hrun, hprocessed, hrows⟩ : ∃ m d', (Payment.settleTx dflt x
        (Payment.reconcileLoop dflt ps) n f).run s.payment.db =
          .ok (Payment.reconcileLoop dflt ps m, d') ∧
        d'.mail.processed = s.payment.db.mail.processed ∧
        ∀ p ∈ d'.tables.payments.rows, p.status = .processing →
          p ∈ s.payment.db.tables.payments.rows ∧ p.id ≠ x.id := by
      rw [Payment.run_settleTx (d := s.payment.db) (hrow .payment)]
      by_cases hst : (s.payment.db.tables.byId? x.id).map Payment.PaymentRow.status =
          some .processing
      · refine ⟨n + 1, _, if_pos hst, rfl, fun p hp hproc => ?_⟩
        obtain ⟨q, hq, rfl⟩ := Payment.mem_rows_resolved.1 hp
        split_ifs at hproc ⊢ with hid
        · exact absurd hproc (Payment.statusOf_ne _)
        · exact ⟨hq, hid⟩
      · refine ⟨n, _, if_neg hst, rfl, fun p hp hproc => ⟨hp, fun hid => hst ?_⟩⟩
        rw [h.uniqueIds ht₀ hp hid]
        exact congrArg some hproc
    let s₂ : State := { s₁ with payment :=
      ⟨d', s₁.payment.procs.set j (some (Payment.reconcileLoop dflt ps m)), s₁.payment.calls⟩ }
    have h₂ : (calm dflt).step s₁ (.run .payment j f) s₂ := run_payment_txn hj₁ hf hrun
    have hr : (calm dflt).Run s [.run .payment j f, .run .payment j f] s₂ :=
      (LTS.Run.single h₁).snoc h₂
    have honly : Only .payment s s₂ := by
      refine ⟨rfl, fun i hi => ?_, fun hne => absurd rfl hne, fun _ => rfl, fun i e => ?_,
        fun _ h => h⟩
      · cases i <;> first | rfl | exact absurd rfl hi
      · exact handled_payment fun id hid => hprocessed ▸ hid
    have hj₂ : s₂.payment.procs[j]? = some (some (Payment.reconcileLoop dflt ps m)) := by
      rw [getElem?_set_of_some hj₁, if_pos rfl]
    obtain ⟨ls, s', hr', honly', hrows'⟩ := ih m (h.runs hr honly.items) hj₂
    refine ⟨_, s', hr.trans hr', honly.trans honly', fun p hp hproc => ?_⟩
    obtain ⟨hp, hid⟩ := hrows' p hp hproc
    obtain ⟨hp, hne⟩ := hrows p hp hproc
    exact ⟨hp, fun hmem => (List.mem_cons.1 hmem).elim hne hid⟩

/-- A reconciliation pass, late enough, resolves all payments. -/
theorem reconcile_all (ht₀ : Restaurant.Migrated ⟨t₀, .empty⟩) (h : Sane dflt t₀ s) :
    ∃ ls s', (calm dflt).Run s ls s' ∧ Only .payment s s' ∧
      ∀ p ∈ s'.payment.db.tables.payments.rows, p.status ≠ .processing := by
  obtain ⟨now, hnow⟩ := Finset.exists_le
    (s.payment.db.tables.payments.rows.map Payment.PaymentRow.updatedAt).toFinset
  obtain ⟨f, hfnow, hf, -, -⟩ := exists_fresh s.stores (now + 1)
  let stuck := (s.payment.db.tables.payments.rows.filter (Payment.isStuck 0 f.now)).map
    Payment.PaymentRow.stuck
  -- the pass is started and selects what is stuck
  have hselect : (Payment.selectTx dflt 0 f).run s.payment.db =
      .ok (Payment.reconcileLoop dflt stuck 0, s.payment.db) := rfl
  let s₁ : State := { s with payment := started s.payment (Payment.reconcileLoop dflt stuck 0) }
  have hr : (calm dflt).Run s [.reconcile 0, .run .payment s.payment.procs.length f] s₁ := by
    have h₁ : (calm dflt).step s (.reconcile 0)
        { s with payment := started s.payment (Payment.reconcileStuckPayments dflt 0) } :=
      ⟨trivial, trivial, rfl⟩
    have h₂ : (calm dflt).step
        { s with payment := started s.payment (Payment.reconcileStuckPayments dflt 0) }
        (.run .payment s.payment.procs.length f) s₁ :=
      ⟨trivial, trivial, (if_pos hf).trans (actPayment_eq (act_started_commit hselect))⟩
    exact (LTS.Run.single h₁).snoc h₂
  have honly : Only .payment s s₁ := by
    refine ⟨rfl, fun i hi => ?_, fun hne => absurd rfl hne, fun _ => rfl, fun _ _ h => h,
      fun _ h => h⟩
    cases i <;> rfl
  obtain ⟨ls, s', hr', honly', hrows⟩ := run_loop ht₀ stuck 0 s.payment.procs.length
    (h.runs hr honly.items) List.getElem?_concat_length
  refine ⟨_, s', hr.trans hr', honly.trans honly', fun p hp hproc => ?_⟩
  -- a payment in process was stuck
  obtain ⟨hp, hid⟩ := hrows p hp hproc
  have hle : p.updatedAt ≤ now := hnow _ (List.mem_toFinset.2 (List.mem_map_of_mem hp))
  have hlt : p.updatedAt < f.now := by rw [hfnow]; exact Nat.lt_succ_of_le hle
  have hstuck : Payment.isStuck 0 f.now p := by simp [Payment.isStuck, hproc, hlt]
  refine hid (List.mem_map.2 ⟨p.stuck, ?_, rfl⟩)
  exact List.mem_map_of_mem (List.mem_filter.2 ⟨hp, hstuck⟩)

/-! ### Publishing -/

/-- What it means that the relay publishes a row. -/
theorem relayed_relayed {x : OutboxRow} (now : Time) (hx : x ∈ s.unpublished i) :
    Relayed i s (s.relayed i x (some now)) := by
  obtain ⟨hrow, -⟩ := mem_unpublished.1 hx
  have hrel := stores_relayed (some now) hrow
  obtain ⟨⟨ho, -, hpay⟩, hprocs, -, -⟩ := relayed_eq (s := s) i x (some now)
  have hkafka : (s.relayed i x (some now)).kafka = s.kafka ++ [⟨x.topic, x.payload⟩] := hrel.kafka
  refine ⟨fun m hm => ?_, fun j y hy => ?_, hpay, fun o => ?_, fun j e hh => ?_, fun e hr => ?_⟩
  · rw [hkafka] at hm
    rcases List.mem_append.1 hm with hm | hm
    · exact .inl hm
    · exact .inr ⟨x, hx, List.mem_singleton.1 hm⟩
  · obtain ⟨hy, hnone⟩ := mem_unpublished.1 hy
    rcases hrel.of_mem_rows j hy with hy | ⟨-, now', rfl⟩
    · exact mem_unpublished.2 ⟨hy, hnone⟩
    · cases hnone
  · show ((s.relayed i x (some now)).order.db.tables.orders.get? o).map _ = _
    rw [ho]
    rfl
  · have hprocessed : ((s.relayed i x (some now)).stores.mail j).processed =
        (s.stores.mail j).processed := (hrel.marked j).processed
    rwa [Stores.Handled, hprocessed]
  · rwa [State.Refused, Node.replies, hprocs]

/-- The row is then no longer one of those not published. -/
theorem not_mem_relayed {x : OutboxRow} (now : Time) (hx : x ∈ s.unpublished i) :
    x ∉ (s.relayed i x (some now)).unpublished i := by
  intro hmem
  obtain ⟨hrow, -⟩ := mem_unpublished.1 hx
  obtain ⟨hmem, hnone⟩ := mem_unpublished.1 hmem
  have hmail : (s.relayed i x (some now)).stores.mail i =
      Mail.publish x.id now (s.stores.mail i) := by cases i <;> rfl
  rw [hmail, Mail.mem_rows_publish] at hmem
  obtain ⟨y, hy, heq⟩ := hmem
  split_ifs at heq with hid
  · rw [← heq] at hnone
    cases hnone
  · exact hid (congrArg OutboxRow.id heq)

/-- The relay of a service empties its outbox, the oldest row first. -/
theorem drain (dflt : String) (i : Service) (s : State) :
    ∃ ls s', (calm dflt).Run s ls s' ∧ Relayed i s s' ∧ s'.unpublished i = [] := by
  induction hn : (s.unpublished i).toFinset.card using Nat.strongRecOn generalizing s with
  | ind n ih =>
    by_cases hnil : s.unpublished i = []
    · exact ⟨[], s, .refl, .refl s, hnil⟩
    · obtain ⟨x, hx, hmin⟩ := Finset.exists_min_image (s.unpublished i).toFinset
        OutboxRow.createdAt (List.toFinset_nonempty_iff _ |>.2 hnil)
      have hx := List.mem_toFinset.1 hx
      obtain ⟨hrow, hnone⟩ := mem_unpublished.1 hx
      have hst : (calm dflt).step s (.relay i x.id (some 0)) (s.relayed i x (some 0)) := by
        refine ⟨⟨rfl, fun y hy hid z hz => ?_⟩, trivial, ?_⟩
        · have hyx : y = x := Option.some.inj
            ((Table.get?_of_mem (mem_unpublished.1 hy).1).symm.trans (hid ▸ Table.get?_of_mem hrow))
          exact hyx ▸ hmin z (List.mem_toFinset.2 hz)
        · simp only [State.act, Table.get?_of_mem hrow, hnone]
          rfl
      have hrel := relayed_relayed 0 hx
      have hlt : ((s.relayed i x (some 0)).unpublished i).toFinset.card < n := by
        rw [← hn]
        refine Finset.card_lt_card ⟨fun y hy => ?_, fun hsub => ?_⟩
        · exact List.mem_toFinset.2 (hrel.unpublished i y (List.mem_toFinset.1 hy))
        · exact not_mem_relayed 0 hx (List.mem_toFinset.1 (hsub (List.mem_toFinset.2 hx)))
      obtain ⟨ls, s', hr, hrel', hnil'⟩ := ih _ hlt _ rfl
      exact ⟨_, s', hr.cons hst, hrel.trans hrel', hnil'⟩

/-! ### One round through the topics -/

/-- The message has been handled or refused. -/
def Settled (s : State) (m : Message) : Prop :=
  ∀ service, m.topic ∈ service.consumes →
    s.stores.Handled service m.value ∨ (service = .order ∧ s.Refused m.value)

/-- All messages on the topics have been handled or refused. -/
def Done (s : State) (topics : List EventType) : Prop :=
  ∀ m ∈ s.kafka, m.topic ∈ topics → Settled s m

variable {topics : List EventType} {j : Service}

theorem consumes_inj {topic : EventType} (hi : topic ∈ i.consumes) (hj : topic ∈ j.consumes) :
    i = j := by
  cases i <;> cases j <;> first | rfl | (cases topic <;> simp [Service.consumes] at hi hj)

theorem settled_of_handled (hi : m.topic ∈ i.consumes)
    (h : s.stores.Handled i m.value ∨ (i = .order ∧ s.Refused m.value)) : Settled s m := by
  intro j hj
  obtain rfl := consumes_inj hi hj
  exact h

theorem Only.settled (h : Only i s s') (hs : Settled s m) : Settled s' m := fun j hj =>
  (hs j hj).imp (h.handled j _) (And.imp_right (h.refused _))

theorem Only.done (h : Only i s s') (hd : Done s topics) : Done s' topics := fun m hm ht =>
  h.settled (hd m (h.kafka ▸ hm) ht)

theorem Only.published (h : Only i s s') (hj : j ≠ i) (hs : s.unpublished j = []) :
    s'.unpublished j = [] := by
  rwa [State.unpublished, h.mail j hj]

theorem Relayed.settled (h : Relayed i s s') (hs : Settled s m) : Settled s' m := fun j hj =>
  (hs j hj).imp (h.handled j _) (And.imp_right (h.refused _))

/-- What a relay sends is not on the topics. -/
theorem Relayed.done (h : Relayed i s s') (hi : ∀ x ∈ s.unpublished i, x.topic ∉ topics)
    (hd : Done s topics) : Done s' topics := by
  intro m hm ht
  rcases h.kafka m hm with hm | ⟨x, hx, rfl⟩
  · exact h.settled (hd m hm ht)
  · exact absurd ht (hi x hx)

theorem Relayed.published (h : Relayed i s s') (hs : s.unpublished j = []) :
    s'.unpublished j = [] :=
  List.eq_nil_iff_forall_not_mem.2 fun x hx => by
    have := h.unpublished j x hx
    rw [hs] at this
    cases this

/-- The rows of a service are on its topics. -/
theorem Sane.topic_unpublished (h : Sane dflt t₀ s) (ht₀ : Restaurant.Migrated ⟨t₀, .empty⟩)
    {x : OutboxRow} (hx : x ∈ s.unpublished i) : x.topic ∈ i.produces :=
  ((h.consistent ht₀).post.shape i x (mem_unpublished.1 hx).1).1

/-- A service handles all messages on the topics.  `K` is what else its runs keep. -/
theorem handle_all {K : State → State → Prop} (hrefl : ∀ s, K s s)
    (htrans : ∀ {s₁ s₂ s₃}, K s₁ s₂ → K s₂ s₃ → K s₁ s₃)
    (hone : ∀ s, Sane dflt t₀ s → ∀ m ∈ s.kafka, m.topic ∈ topics →
      ∃ ls s', (calm dflt).Run s ls s' ∧ Only i s s' ∧ K s s' ∧ Settled s' m)
    (h : Sane dflt t₀ s) :
    ∃ ls s', (calm dflt).Run s ls s' ∧ Sane dflt t₀ s' ∧ Only i s s' ∧ K s s' ∧
      Done s' topics := by
  obtain ⟨ls, s', hr, ⟨hs', -⟩, ⟨honly, hK⟩, hdone⟩ := LTS.exists_run_of_tasks
    (A := calm dflt) (I := fun s' => Sane dflt t₀ s' ∧ s'.kafka = s.kafka)
    (R := fun s s' => Only i s s' ∧ K s s') (D := fun m s' => Settled s' m)
    (fun s => ⟨.refl s, hrefl s⟩) (fun h h' => ⟨h.1.trans h'.1, htrans h.2 h'.2⟩)
    (fun h hs => h.1.settled hs) (s.kafka.filter (·.topic ∈ topics)) (fun m hm u hu => by
      obtain ⟨hm, ht⟩ := List.mem_filter.1 hm
      obtain ⟨ls, u', hr, honly, hK, hsettled⟩ :=
        hone u hu.1 m (hu.2 ▸ hm) (of_decide_eq_true ht)
      exact ⟨ls, u', hr, ⟨hu.1.runs hr honly.items, honly.kafka.trans hu.2⟩, ⟨honly, hK⟩,
        hsettled⟩) ⟨h, rfl⟩
  refine ⟨ls, s', hr, hs', honly, hK, fun m hm ht => hdone m ?_⟩
  rw [honly.kafka] at hm
  exact List.mem_filter.2 ⟨hm, decide_eq_true ht⟩

/-- How far the round has come: these services have published everything, and the messages on these
topics have been handled. -/
structure Through (dflt : String) (t₀ : Restaurant.Tables) (services : List Service)
    (topics : List EventType) (s : State) : Prop where
  sane : Sane dflt t₀ s
  published : ∀ i ∈ services, s.unpublished i = []
  done : Done s topics

variable {services : List Service}

theorem Through.mono {l : List Service} (h : Through dflt t₀ services topics s)
    (hl : ∀ i ∈ l, i ∈ services) : Through dflt t₀ l topics s :=
  ⟨h.sane, fun i hi => h.published i (hl i hi), h.done⟩

/-- The relay of one more service publishes everything. -/
theorem Through.drain (h : Through dflt t₀ services topics s) (i : Service)
    (hi : ∀ x ∈ s.unpublished i, x.topic ∉ topics) :
    ∃ ls s', (calm dflt).Run s ls s' ∧ Relayed i s s' ∧
      Through dflt t₀ (i :: services) topics s' := by
  obtain ⟨ls, s', hr, hrel, hnil⟩ := Saga.drain dflt i s
  refine ⟨ls, s', hr, hrel, h.sane.runs hr hrel.items, fun j hj => ?_, hrel.done hi h.done⟩
  rcases List.mem_cons.1 hj with rfl | hj
  · exact hnil
  · exact hrel.published (h.published j hj)

/-- A service handles the messages on its topics. -/
theorem Through.handle {K : State → State → Prop} (hrefl : ∀ s, K s s)
    (htrans : ∀ {s₁ s₂ s₃}, K s₁ s₂ → K s₂ s₃ → K s₁ s₃) {t : List EventType}
    (hone : ∀ s, Sane dflt t₀ s → ∀ m ∈ s.kafka, m.topic ∈ t →
      ∃ ls s', (calm dflt).Run s ls s' ∧ Only i s s' ∧ K s s' ∧ Settled s' m)
    (h : Through dflt t₀ services topics s) (hi : i ∉ services) :
    ∃ ls s', (calm dflt).Run s ls s' ∧ Only i s s' ∧ K s s' ∧
      Through dflt t₀ services (t ++ topics) s' := by
  obtain ⟨ls, s', hr, hs', honly, hK, hdone⟩ := handle_all hrefl htrans hone h.sane
  refine ⟨ls, s', hr, honly, hK, hs', fun j hj => ?_, fun m hm ht => ?_⟩
  · exact honly.published (fun hji => hi (hji ▸ hj)) (h.published j hj)
  · rcases List.mem_append.1 ht with ht | ht
    · exact hdone m hm ht
    · exact honly.done h.done m hm ht

/-- The first half of the round: the orders placed are decided on and paid for. -/
theorem settle_payments (ht₀ : Restaurant.Migrated ⟨t₀, .empty⟩) (hfits : Restaurant.Fits t₀)
    (h : Sane dflt t₀ s) :
    ∃ ls s', (calm dflt).Run s ls s' ∧ (∀ o, s'.stores.itemsOf o = s.stores.itemsOf o) ∧
      Through dflt t₀ [.payment, .restaurant, .order] [.stockReserved, .orderPlaced] s' ∧
      ∀ p ∈ s'.payment.db.tables.payments.rows, p.status ≠ .processing := by
  have h₀ : Through dflt t₀ [] [] s :=
    ⟨h, fun _ hi => absurd hi List.not_mem_nil, fun _ _ ht => absurd ht List.not_mem_nil⟩
  -- the orders are sent to the restaurant service, its verdicts to the others
  obtain ⟨ls₁, s₁, hr₁, hrel₁, h₁⟩ := h₀.drain .order fun _ _ => List.not_mem_nil
  obtain ⟨ls₂, s₂, hr₂, honly₂, -, h₂⟩ := h₁.handle (i := .restaurant) (K := fun _ _ => True)
    (t := [.orderPlaced]) (fun _ => trivial) (fun _ _ => trivial)
    (fun s hs m hm ht => by
      have ht : m.topic ∈ Service.restaurant.consumes := by
        rw [List.mem_singleton.1 ht]
        decide
      obtain ⟨ls, s', hr, honly, hh, -⟩ := handle_restaurant ht₀ hfits hs hm ht
      exact ⟨ls, s', hr, honly, trivial, settled_of_handled ht (.inl hh)⟩) (by simp)
  obtain ⟨ls₃, s₃, hr₃, hrel₃, h₃⟩ := h₂.drain .restaurant fun x hx ht =>
    absurd (h₂.sane.topic_unpublished ht₀ hx)
      ((by decide : ∀ t ∈ [.orderPlaced], t ∉ Service.restaurant.produces) _ ht)
  -- the payments are recorded and resolved, their outcomes are sent
  obtain ⟨ls₄, s₄, hr₄, honly₄, -, h₄⟩ := h₃.handle (i := .payment) (K := fun _ _ => True)
    (t := [.stockReserved]) (fun _ => trivial) (fun _ _ => trivial)
    (fun s hs m hm ht => by
      have ht : m.topic ∈ Service.payment.consumes := ht
      obtain ⟨ls, s', hr, honly, hh⟩ := handle_payment ht₀ hs hm ht
      exact ⟨ls, s', hr, honly, trivial, settled_of_handled ht (.inl hh)⟩) (by simp)
  obtain ⟨ls₅, s₅, hr₅, honly₅, hproc⟩ := reconcile_all ht₀ h₄.sane
  have h₅ : Through dflt t₀ [.restaurant, .order] [.stockReserved, .orderPlaced] s₅ := by
    refine ⟨h₄.sane.runs hr₅ honly₅.items, fun j hj => ?_, honly₅.done h₄.done⟩
    exact honly₅.published (by rintro rfl; simp at hj) (h₄.published j hj)
  obtain ⟨ls₆, s₆, hr₆, hrel₆, h₆⟩ := h₅.drain .payment fun x hx ht =>
    absurd (h₅.sane.topic_unpublished ht₀ hx)
      ((by decide : ∀ t ∈ [.stockReserved, .orderPlaced], t ∉ Service.payment.produces) _ ht)
  refine ⟨_, s₆, ((((hr₁.trans hr₂).trans hr₃).trans hr₄).trans hr₅).trans hr₆, fun o => ?_, h₆, ?_⟩
  · rw [hrel₆.items, honly₅.items, honly₄.items, hrel₃.items, honly₂.items, hrel₁.items]
  · rwa [hrel₆.payment]

/-- The second half: the orders come to their ends, and what was reserved in vain is given back. -/
theorem settle_orders (ht₀ : Restaurant.Migrated ⟨t₀, .empty⟩) (hfits : Restaurant.Fits t₀)
    (h : Through dflt t₀ [.payment, .restaurant, .order] [.stockReserved, .orderPlaced] s)
    (hproc : ∀ p ∈ s.payment.db.tables.payments.rows, p.status ≠ .processing) :
    ∃ ls s', (calm dflt).Run s ls s' ∧ (∀ o, s'.stores.itemsOf o = s.stores.itemsOf o) ∧
      Quiescent s' := by
  have h₀ := h.mono (l := [.payment, .restaurant]) (by decide)
  obtain ⟨ls₁, s₁, hr₁, honly₁, hK₁, h₁⟩ := h₀.handle (i := .order)
    (t := Service.order.consumes) (K := fun s s' => ∀ x ∈ s'.unpublished .order,
      x ∈ s.unpublished .order ∨ x.topic = .stockRelease)
    (fun _ _ => .inl) (fun hk hk' x hx => (hk' x hx).elim (hk x) .inr)
    (fun s hs m hm ht => by
      obtain ⟨ls, s', hr, honly, hh, hnew⟩ := handle_order ht₀ hs hm ht
      exact ⟨ls, s', hr, honly, hnew, settled_of_handled ht (hh.imp_right fun h => ⟨rfl, h⟩)⟩)
    (by simp)
  -- whatever the order service has to publish is a compensation
  obtain ⟨ls₂, s₂, hr₂, hrel₂, h₂⟩ := h₁.drain .order fun x hx ht => by
    have hnil : s.unpublished .order = [] := h.published .order (by simp)
    rcases hK₁ x hx with hx | hx
    · rw [hnil] at hx
      cases hx
    · rw [hx] at ht
      exact absurd ht (by decide)
  -- to which nothing is answered
  have h₂' := h₂.mono (l := [.order, .payment]) (by decide)
  obtain ⟨ls₃, s₃, hr₃, honly₃, hK₃, h₃⟩ := h₂'.handle (i := .restaurant)
    (t := [.stockRelease])
    (K := fun s s' => s'.restaurant.db.mail.outbox = s.restaurant.db.mail.outbox)
    (fun _ => rfl) (fun hk hk' => hk'.trans hk)
    (fun s hs m hm ht => by
      have htopic := List.mem_singleton.1 ht
      have ht : m.topic ∈ Service.restaurant.consumes := by simp [htopic, Service.consumes]
      obtain ⟨ls, s', hr, honly, hh, hout⟩ := handle_restaurant ht₀ hfits hs hm ht
      exact ⟨ls, s', hr, honly, hout htopic, settled_of_handled ht (.inl hh)⟩) (by simp)
  have hrestaurant : s₃.unpublished .restaurant = [] := by
    have hout : (s₃.stores.mail .restaurant).outbox = (s₂.stores.mail .restaurant).outbox := hK₃
    rw [State.unpublished, hout]
    exact h₂.published .restaurant (by simp)
  refine ⟨_, s₃, (hr₁.trans hr₂).trans hr₃, fun o => ?_, ⟨fun i x hx hnone => ?_, ?_, ?_⟩⟩
  · rw [honly₃.items, hrel₂.items, honly₁.items]
  · have hnil : s₃.unpublished i = [] := by
      cases i with
      | restaurant => exact hrestaurant
      | order => exact h₃.published .order (by simp)
      | payment => exact h₃.published .payment (by simp)
    exact List.not_mem_nil (hnil ▸ mem_unpublished.2 ⟨hx, hnone⟩)
  · rwa [honly₃.payment (by simp), hrel₂.payment, honly₁.payment (by simp)]
  · intro m hm i hi
    exact h₃.done m hm ((by decide : ∀ i : Service, ∀ t ∈ i.consumes, t ∈ [.stockRelease] ++
      (Service.order.consumes ++ [.stockReserved, .orderPlaced])) i _ hi) i hi

/-- **The saga can always be completed.**  From every state of every run, whatever was killed,
delivered twice or left half done, the services by themselves can reach a quiescent state, as long
as no order lists a negative quantity; nothing of what was ordered is changed on the way, and in the
end every order has come to exactly one of its ends. -/
theorem saga_completes (ht₀ : Restaurant.Migrated ⟨t₀, .empty⟩) (hfits : Restaurant.Fits t₀)
    (hr : (system dflt).Run (.start t₀) ls s)
    (hpos : ∀ r ∈ s.order.db.tables.orders.rows, ∀ item ∈ r.items, 0 ≤ item.quantity) :
    ∃ ls' s', (calm dflt).Run s ls' s' ∧ Quiescent s' ∧
      (∀ o, s'.stores.itemsOf o = s.stores.itemsOf o) ∧
      ∀ r ∈ s'.order.db.tables.orders.rows, ∃! status, s'.stores.Ended r status := by
  have h : Sane dflt t₀ s := by
    refine ⟨⟨ls, hr⟩, fun o items ho => ?_⟩
    obtain ⟨r, hget, rfl⟩ := Option.map_eq_some_iff.1 ho
    exact hpos r (Table.mem_of_get? hget)
  obtain ⟨ls₁, s₁, hr₁, hitems₁, h₁, hproc⟩ := settle_payments ht₀ hfits h
  obtain ⟨ls₂, s₂, hr₂, hitems₂, hq⟩ := settle_orders ht₀ hfits h₁ hproc
  have hrun := hr.trans (hr₁.trans hr₂).of_restrict
  refine ⟨_, s₂, hr₁.trans hr₂, hq, fun o => (hitems₂ o).trans (hitems₁ o), fun r hrow => ?_⟩
  obtain ⟨hc, hp⟩ := run_consistent ht₀ hrun
  exact ⟨r.status, hq.ended hc hp (Table.get?_of_mem hrow), fun _ h => h.status_eq⟩

/-- The payment service is killed before it calls the gateway, the relay before it marks a row. -/
theorem saga_completes_killed :
    let burger : UUID := 0x11111111111111111111111111111111
    let req : Order.Request := ⟨1, ⟨5, [⟨burger, 2, 10⟩]⟩, some "failure", none⟩
    let run : List Label :=
      [.request req, .run .order 0 ⟨70, 1, 2, 0⟩, .relay .order 2 none,
        .deliver .restaurant ⟨1, .orderPlaced, 0, Order.eventPayload req 70⟩,
        .run .restaurant 0 ⟨0, 11, 12, 1⟩, .relay .restaurant 12 (some 2),
        .deliver .payment ⟨11, .stockReserved, 1, Order.eventPayload req 70⟩,
        .run .payment 0 ⟨71, 101, 0, 2⟩, .kill .payment 0]
    ∃ n, (State.start seeded).runs "success" run = some n ∧
      ∃ ls n', (calm "success").Run n ls n' ∧ Quiescent n' ∧
        (∀ o, n'.stores.itemsOf o = n.stores.itemsOf o) ∧
        ∀ r ∈ n'.order.db.tables.orders.rows, ∃! status, n'.stores.Ended r status := by
  intro burger req run
  have hrun : ((State.start seeded).runs "success" run).map (fun n =>
      decide (∀ r ∈ n.order.db.tables.orders.rows, ∀ item ∈ r.items, 0 ≤ item.quantity)) =
      some true := by decide +kernel
  obtain ⟨n, hn, hpos⟩ := Option.map_eq_some_iff.1 hrun
  exact ⟨n, hn, saga_completes migrated_seeded fits_seeded (run_of_runs hn)
    (of_decide_eq_true hpos)⟩

end Saga

end FoodFlow
