import FoodFlow.Shared.Post
import FoodFlow.Order.Lifecycle
import FoodFlow.Restaurant.Conservation
import FoodFlow.Payment.Outcome
import Mathlib.Data.Fintype.Defs

/-!
# The three services together

The closed system of the order, restaurant and payment services.  Requests come from outside;
messages come from the outboxes only, through the relays, and once sent they may be delivered to
their consumer at any time, any number of times and in any order.  Each transaction is one step; a
process may be killed before any of its transactions, and the reconciliation may run at any time.

* `State.act`, `system` : the system;
* `Commits` : what a step can do to the three databases and the messages;
* `run_invariant` : what is known of every process in every run, and the proof rule for what is
  known of the databases.
-/

namespace FoodFlow

namespace Saga

/-- The services. -/
inductive Service where
  | order
  | restaurant
  | payment
  deriving DecidableEq, Repr

instance : Fintype Service := ⟨{.order, .restaurant, .payment}, fun s => by cases s <;> decide⟩

namespace Service

/-- The topics that a service writes for. -/
def produces : Service → List EventType
  | .order => [.orderPlaced, .stockRelease]
  | .restaurant => [.stockReserved, .stockRejected]
  | .payment => [.paymentSucceeded, .paymentFailed]

/-- The topics of its consumer. -/
def consumes : Service → List EventType
  | .order => [.paymentSucceeded, .paymentFailed, .stockRejected]
  | .restaurant => [.orderPlaced, .stockRelease]
  | .payment => [.stockReserved]

end Service

/-! ### The databases -/

/-- The databases of the services, and the messages sent. -/
structure Stores where
  order : Order.Db
  restaurant : Restaurant.Db
  payment : Payment.Db
  kafka : List Message

namespace Stores

/-- The outbox and the ledger of a service. -/
def mail (s : Stores) : Service → Mail
  | .order => s.order.mail
  | .restaurant => s.restaurant.mail
  | .payment => s.payment.mail

/-- The mail of all services. -/
def post (s : Stores) : Post Service := ⟨s.mail, s.kafka⟩

/-- The consumer of the service can receive the envelope. -/
def Delivered (s : Stores) (service : Service) (env : Envelope) : Prop :=
  ∃ m ∈ s.kafka, m.topic ∈ service.consumes ∧ m.value = env

instance (s : Stores) (service : Service) (env : Envelope) :
    Decidable (s.Delivered service env) :=
  inferInstanceAs (Decidable (∃ m ∈ s.kafka, _))

/-- The id drawn for an event is new in all outboxes.  The other ids drawn are primary keys: a
transaction that draws one a second time is refused. -/
def New (s : Stores) (f : Fresh) : Prop :=
  ∀ service, ∀ x ∈ (s.mail service).outbox.rows, x.payload.eventId ≠ f.eventId

instance (s : Stores) (f : Fresh) : Decidable (s.New f) :=
  inferInstanceAs (Decidable (∀ service, ∀ x ∈ (s.mail service).outbox.rows, _))

theorem New.not_used {s : Stores} {f : Fresh} (h : s.New f) : ¬ s.post.Used f.eventId := by
  rintro ⟨service, x, hx, hid⟩
  exact h service x hx hid

end Stores

/-! ### The system -/

/-- The three services with their processes, and the messages sent. -/
structure State where
  order : Node Order.db Fresh Empty Order.Reply
  restaurant : Node Restaurant.db Fresh Empty Restaurant.Handled
  payment : Node Payment.db Fresh Payment.GatewayCall Payment.Reply
  kafka : List Message

/-- What can happen. -/
inductive Label where
  /-- `POST /orders`. -/
  | request (req : Order.Request)
  /-- A message is delivered to the consumer of a service. -/
  | deliver (service : Service) (env : Envelope)
  /-- A reconciliation pass begins. -/
  | reconcile (stuckDuration : ℕ)
  /-- Process `i` of a service runs its next transaction, drawing `f`, or calls the gateway. -/
  | run (service : Service) (i : ℕ) (f : Fresh)
  /-- Process `i` of a service is killed. -/
  | kill (service : Service) (i : ℕ)
  /-- The restaurant service starts again and runs its migrations. -/
  | restart
  /-- The relay of a service sends the event of an outbox row and then marks the row as published,
  at the time given, or fails to. -/
  | relay (service : Service) (id : UUID) (publishedAt : Option Time)

namespace State

variable (s : State)

/-- The databases. -/
def stores : Stores := ⟨s.order.db, s.restaurant.db, s.payment.db, s.kafka⟩

/-- A step of the order service. -/
def actOrder (l : Node.Label Order.db Fresh Empty Order.Reply) : Option State :=
  (s.order.act l).map fun n => { s with order := n }

/-- A step of the restaurant service. -/
def actRestaurant (l : Node.Label Restaurant.db Fresh Empty Restaurant.Handled) : Option State :=
  (s.restaurant.act l).map fun n => { s with restaurant := n }

/-- A step of the payment service. -/
def actPayment (l : Node.Label Payment.db Fresh Payment.GatewayCall Payment.Reply) :
    Option State :=
  (s.payment.act l).map fun n => { s with payment := n }

/-- A change of the mail of a service. -/
def mapMail (g : Mail → Mail) : Service → State
  | .order => { s with order.db.mail := g s.order.db.mail }
  | .restaurant => { s with restaurant.db.mail := g s.restaurant.db.mail }
  | .payment => { s with payment.db.mail := g s.payment.db.mail }

/-- The state after the relay has sent the event of the row `x`. -/
def relayed (service : Service) (x : OutboxRow) (publishedAt : Option Time) : State :=
  let sent := { s with kafka := s.kafka ++ [⟨x.topic, x.payload⟩] }
  match publishedAt with
  | none => sent
  | some now => sent.mapMail (Mail.publish x.id now) service

/-- Performing a label. -/
def act (dflt : String) : Label → Option State
  | .request req => s.actOrder (.start (Order.createOrder req))
  | .deliver service env =>
    if s.stores.Delivered service env then
      match service with
      | .order => s.actOrder (.start (Order.handleMessage env))
      | .restaurant => s.actRestaurant (.start (Restaurant.handleMessage env))
      | .payment => s.actPayment (.start (Payment.handleMessage dflt env))
    else none
  | .reconcile stuckDuration =>
    s.actPayment (.start (Payment.reconcileStuckPayments dflt stuckDuration))
  | .run service i f =>
    if s.stores.New f then
      match service with
      | .order => s.actOrder (.run i f)
      | .restaurant => s.actRestaurant (.run i f)
      | .payment => s.actPayment (.run i f)
    else none
  | .kill service i =>
    match service with
    | .order => s.actOrder (.kill i)
    | .restaurant => s.actRestaurant (.kill i)
    | .payment => s.actPayment (.kill i)
  | .restart => s.actRestaurant (.env Restaurant.migrate)
  | .relay service id publishedAt =>
    match (s.stores.mail service).outbox.get? id with
    | none => none
    | some x => if x.publishedAt.isSome then none else some (s.relayed service x publishedAt)

/-- Performing labels one after the other. -/
def runs (dflt : String) (ls : List Label) : Option State :=
  LTS.runAct (fun s l => s.act dflt l) s ls

/-- The system before the first request, with the restaurant database that the migrations
leave. -/
def start (t₀ : Restaurant.Tables) : State :=
  ⟨.idle Order.migrated, .idle ⟨t₀, .empty⟩, .idle ⟨⟨.empty⟩, .empty⟩, []⟩

end State

/-- The closed system of the three services. -/
def system (dflt : String) : LTS State Label :=
  .ofAct (fun s => ∃ t₀, Restaurant.Migrated ⟨t₀, .empty⟩ ∧ s = .start t₀) (fun _ _ => True)
    fun s l => s.act dflt l

/-- The stock that the seed leaves. -/
def seeded : Restaurant.Tables := (Restaurant.migrate ⟨⟨.empty, .empty⟩, .empty⟩).tables

theorem migrated_seeded : Restaurant.Migrated ⟨seeded, .empty⟩ := by
  refine ⟨⟨_, rfl⟩, fun i q hq => ?_, rfl⟩
  obtain ⟨r, hr, rfl⟩ := Option.map_eq_some_iff.1 hq
  have hall : ∀ r ∈ seeded.stock.rows, 0 ≤ r.quantity := by decide +kernel
  exact hall r (Table.mem_of_get? hr)

/-- A run given by its labels. -/
theorem run_of_runs {dflt : String} {ls : List Label} {s s' : State}
    (h : s.runs dflt ls = some s') : (system dflt).Run s ls s' :=
  LTS.run_of_runAct (fun _ _ _ => trivial) h

/-! ### Steps of the system as steps of its services -/

/-- What may start and be drawn at the order service. -/
def orderRules (s : Stores) : Node.Rules Order.db Fresh Empty Order.Reply where
  start p := (∃ req, p = Order.createOrder req) ∨
    ∃ env, s.Delivered .order env ∧ p = Order.handleMessage env
  draw _ f := s.New f

/-- What may start and be drawn at the restaurant service. -/
def restaurantRules (s : Stores) : Node.Rules Restaurant.db Fresh Empty Restaurant.Handled where
  start p := ∃ env, s.Delivered .restaurant env ∧ p = Restaurant.handleMessage env
  draw _ f := s.New f
  env g := g = Restaurant.migrate

/-- What may start and be drawn at the payment service. -/
def paymentRules (dflt : String) (s : Stores) :
    Node.Rules Payment.db Fresh Payment.GatewayCall Payment.Reply where
  start p := (∃ env, s.Delivered .payment env ∧ p = Payment.handleMessage dflt env) ∨
    ∃ stuckDuration, p = Payment.reconcileStuckPayments dflt stuckDuration
  draw _ f := s.New f

/-- A step of one service, or of a relay. -/
inductive Moves (dflt : String) (s : State) : State → Prop
  | order {l n} : (Node.lts (orderRules s.stores) fun _ => True).step s.order l n →
      Moves dflt s { s with order := n }
  | restaurant {l n} :
      (Node.lts (restaurantRules s.stores) fun _ => True).step s.restaurant l n →
      Moves dflt s { s with restaurant := n }
  | payment {l n} : (Node.lts (paymentRules dflt s.stores) fun _ => True).step s.payment l n →
      Moves dflt s { s with payment := n }
  | relay {service x} (publishedAt) : x ∈ (s.stores.mail service).outbox.rows →
      Moves dflt s (s.relayed service x publishedAt)

variable {dflt : String} {s s' : State} {l : Label}

theorem moves_order {l : Node.Label Order.db Fresh Empty Order.Reply}
    (hg : (orderRules s.stores).guard s.order l) (h : s.actOrder l = some s') :
    Moves dflt s s' := by
  obtain ⟨n, hn, rfl⟩ := Option.map_eq_some_iff.1 h
  exact .order ⟨hg, hn⟩

theorem moves_restaurant {l : Node.Label Restaurant.db Fresh Empty Restaurant.Handled}
    (hg : (restaurantRules s.stores).guard s.restaurant l) (h : s.actRestaurant l = some s') :
    Moves dflt s s' := by
  obtain ⟨n, hn, rfl⟩ := Option.map_eq_some_iff.1 h
  exact .restaurant ⟨hg, hn⟩

theorem moves_payment {l : Node.Label Payment.db Fresh Payment.GatewayCall Payment.Reply}
    (hg : (paymentRules dflt s.stores).guard s.payment l) (h : s.actPayment l = some s') :
    Moves dflt s s' := by
  obtain ⟨n, hn, rfl⟩ := Option.map_eq_some_iff.1 h
  exact .payment ⟨hg, hn⟩

theorem moves_of_step (h : (system dflt).step s l s') : Moves dflt s s' := by
  have ha : s.act dflt l = some s' := h.2
  cases l with
  | request req => exact moves_order (l := .start _) (.inl ⟨req, rfl⟩) ha
  | deliver service env =>
    simp only [State.act] at ha
    split_ifs at ha with hd
    cases service with
    | order => exact moves_order (l := .start _) (.inr ⟨env, hd, rfl⟩) ha
    | restaurant => exact moves_restaurant (l := .start _) ⟨env, hd, rfl⟩ ha
    | payment => exact moves_payment (l := .start _) (.inl ⟨env, hd, rfl⟩) ha
  | reconcile stuckDuration => exact moves_payment (l := .start _) (.inr ⟨stuckDuration, rfl⟩) ha
  | run service i f =>
    simp only [State.act] at ha
    split_ifs at ha with hf
    cases service with
    | order => exact moves_order (l := .run i f) hf ha
    | restaurant => exact moves_restaurant (l := .run i f) hf ha
    | payment => exact moves_payment (l := .run i f) hf ha
  | kill service i =>
    cases service with
    | order => exact moves_order (l := .kill i) trivial ha
    | restaurant => exact moves_restaurant (l := .kill i) trivial ha
    | payment => exact moves_payment (l := .kill i) trivial ha
  | restart => exact moves_restaurant (l := .env Restaurant.migrate) rfl ha
  | relay service id publishedAt =>
    simp only [State.act] at ha
    split at ha
    · cases ha
    · rename_i x hx
      split_ifs at ha
      obtain rfl := Option.some.inj ha
      exact .relay publishedAt (Table.mem_of_get? hx)

/-! ### What a step does to the databases -/

/-- What a step can do to the databases and the messages. -/
inductive Commits (dflt : String) (s : Stores) : Stores → Prop
  | same : Commits dflt s s
  /-- An order is created. -/
  | place {req f p d'} : s.New f → (Order.placeTx req f).run s.order = .ok (p, d') →
      Commits dflt s { s with order := d' }
  /-- The order service has handled a message. -/
  | order {env f d'} : s.Delivered .order env → s.New f → Order.Effect env f s.order d' →
      Commits dflt s { s with order := d' }
  /-- The restaurant service has handled a message. -/
  | restaurant {env f d'} : s.Delivered .restaurant env → s.New f →
      Restaurant.Effect env f s.restaurant d' → Commits dflt s { s with restaurant := d' }
  | restart : Commits dflt s { s with restaurant := Restaurant.migrate s.restaurant }
  /-- The payment service has recorded a payment or an outcome. -/
  | payment {q f d'} : s.New f → Payment.Effect (s.Delivered .payment) dflt q f s.payment d' →
      Commits dflt s { s with payment := d' }
  | relay {service x s'} : s.post.Relays service x s'.post →
      s'.order.tables = s.order.tables → s'.restaurant.tables = s.restaurant.tables →
      s'.payment.tables = s.payment.tables → Commits dflt s s'

/-- The order of the event has left `PENDING`. -/
def Left (t : Order.Tables) (env : Envelope) : Prop :=
  ∃ o current, env.payload.orderId = some o ∧ t.status o = some current ∧ current ≠ .pending

/-- Where a process of the order service can be, when the envelopes delivered are those in `src`:
what it has refused is about an order that has left `PENDING`. -/
inductive OrderPoint (src : Envelope → Prop) (t : Order.Tables) : Order.Process → Prop
  | create (req) : OrderPoint src t (Order.createOrder req)
  | place (req) : OrderPoint src t (Order.placeOrder req)
  | handle {env} : src env → OrderPoint src t (Order.handleMessage env)
  | response (req res) : OrderPoint src t (.done (.response req res))
  | handled {env res} :
      (∀ current requested, res = .error (.invalidTransition current requested) → Left t env) →
      OrderPoint src t (.done (.handled env res))

/-- Where a process of the restaurant service can be. -/
def RestaurantPoint (src : Envelope → Prop) (p : Restaurant.Process) : Prop :=
  (∃ env, src env ∧ p = Restaurant.handleMessage env) ∨ ∃ r, p = .done r

/-- What is known of the processes. -/
structure Procs (dflt : String) (s : State) : Prop where
  order : ∀ p, some p ∈ s.order.procs →
    OrderPoint (s.stores.Delivered .order) s.order.db.tables p
  restaurant : ∀ p, some p ∈ s.restaurant.procs →
    RestaurantPoint (s.stores.Delivered .restaurant) p
  payment : ∀ p, some p ∈ s.payment.procs →
    Payment.Point (s.stores.Delivered .payment) dflt s.payment.db p

theorem OrderPoint.mono {src src' : Envelope → Prop} {t t' : Order.Tables} {p : Order.Process}
    (hsrc : ∀ env, src env → src' env) (hleft : ∀ env, Left t env → Left t' env)
    (hp : OrderPoint src t p) : OrderPoint src' t' p := by
  cases hp with
  | create req => exact .create req
  | place req => exact .place req
  | handle hs => exact .handle (hsrc _ hs)
  | response req res => exact .response req res
  | handled h => exact .handled fun c r hr => hleft _ (h c r hr)

/-- An order that has left `PENDING` does not come back. -/
theorem Left.mono {d d' : Order.Db} {env : Envelope} (hc : Order.Commit d d')
    (h : Left d.tables env) : Left d'.tables env := by
  obtain ⟨o, current, ho, hs, hne⟩ := h
  refine ⟨o, current, ho, ?_, hne⟩
  -- its status would have changed from one other than `PENDING`
  by_contra hne'
  rcases hc.status o (by rwa [hs]) with ⟨hnone, -⟩ | ⟨hpending, -⟩
  · rw [hs] at hnone
    cases hnone
  · exact hne (Option.some.inj (hs.symm.trans hpending))

/-- A transaction of the order service. -/
theorem order_commit {d' : Order.Db} {src : Envelope → Prop} {t : Fresh → Tx Order.db Order.Process}
    {e : Order.Err → Order.Process} {f : Fresh} {p : Order.Process} {d : Order.Db}
    (hp : OrderPoint src d.tables (.txn t e)) (hrun : (t f).run d = .ok (p, d')) :
    (d' = d ∨ (∃ req, (Order.placeTx req f).run d = .ok (p, d')) ∨
      ∃ env, src env ∧ Order.Effect env f d d') ∧ OrderPoint src d'.tables p := by
  -- the transaction that creates the order, with or without a key
  have place : ∀ {req}, (Order.placeTx req f).run d = .ok (p, d') →
      (d' = d ∨ (∃ req, (Order.placeTx req f).run d = .ok (p, d')) ∨
        ∃ env, src env ∧ Order.Effect env f d d') ∧ OrderPoint src d'.tables p := by
    intro req h
    obtain ⟨-, -, -, -, hp, -⟩ := Order.placeTx_ok h
    exact ⟨.inr (.inl ⟨req, h⟩), hp ▸ .response _ _⟩
  generalize hq : Proc.txn t e = q at hp
  cases hp with
  | create req =>
    obtain ⟨-, ⟨key, -, rfl⟩ | rfl⟩ := Order.txn_eq_createOrder hq
    · obtain ⟨rfl, ⟨r, -, rfl⟩ | ⟨-, rfl⟩⟩ := Order.lookupTx_ok hrun
      · exact ⟨.inl rfl, .response _ _⟩
      · exact ⟨.inl rfl, .place _⟩
    · exact place hrun
  | place req =>
    obtain ⟨rfl, -⟩ := Order.txn_eq_placeOrder hq
    exact place hrun
  | @handle env hs =>
    cases hq
    obtain ⟨rfl, he⟩ := Order.handleTx_ok hrun
    exact ⟨.inr (.inr ⟨env, hs, he⟩), .handled fun c r hr => by cases hr⟩
  | response req res => cases hq
  | handled h => cases hq

/-- An exception of a transaction of the order service. -/
theorem order_abort {src : Envelope → Prop} {t : Fresh → Tx Order.db Order.Process}
    {e : Order.Err → Order.Process} {f : Fresh} {d : Order.Db} {x : Order.Err}
    (hp : OrderPoint src d.tables (.txn t e)) (hrun : (t f).run d = .error x) :
    OrderPoint src d.tables (e x) := by
  generalize hq : Proc.txn t e = q at hp
  cases hp with
  | create req =>
    obtain ⟨rfl, -⟩ := Order.txn_eq_createOrder hq
    exact .response _ _
  | place req =>
    obtain ⟨-, rfl⟩ := Order.txn_eq_placeOrder hq
    exact .response _ _
  | handle hs =>
    cases hq
    refine .handled fun c r hr => ?_
    obtain rfl := Except.error.inj hr
    obtain ⟨o, ho, hs, hne⟩ := Order.handleTx_refused hrun
    exact ⟨o, c, ho, hs, hne⟩
  | response req res => cases hq
  | handled h => cases hq

theorem step_order {l : Node.Label Order.db Fresh Empty Order.Reply} {n}
    (hp : Procs dflt s) (hst : (Node.lts (orderRules s.stores) fun _ => True).step s.order l n) :
    Commits dflt s.stores { s.stores with order := n.db } ∧ ∀ p, some p ∈ n.procs →
      OrderPoint (s.stores.Delivered .order) n.db.tables p := by
  refine Node.step_rule (fun d => Commits dflt s.stores { s.stores with order := d })
    (fun (d : Order.Db) p => OrderPoint (s.stores.Delivered .order) d.tables p) .same ?_ ?_ ?_ ?_ ?_
    hp.order hst
  · rintro p (⟨req, rfl⟩ | ⟨env, hd, rfl⟩)
    · exact .create req
    · exact .handle hd
  · exact fun o => o.elim
  · intro f t e p d' hf hJ hrun
    obtain ⟨rfl | ⟨req, hplace⟩ | ⟨env, hd, he⟩, hp'⟩ := order_commit hJ hrun
    · exact ⟨.same, hp', fun _ h => h⟩
    · have hc : Order.Commit s.order.db d' := .place req f p d' hplace
      exact ⟨.place hf hplace, hp', fun _ h => h.mono (fun _ h => h) fun _ h => h.mono hc⟩
    · have hc : Order.Commit s.order.db d' := .handle env f d' he
      exact ⟨.order hd hf he, hp', fun _ h => h.mono (fun _ h => h) fun _ h => h.mono hc⟩
  · exact fun f t e x _ hJ hrun => order_abort hJ hrun
  · rintro g ⟨⟩

theorem step_restaurant {l : Node.Label Restaurant.db Fresh Empty Restaurant.Handled} {n}
    (hp : Procs dflt s)
    (hst : (Node.lts (restaurantRules s.stores) fun _ => True).step s.restaurant l n) :
    Commits dflt s.stores { s.stores with restaurant := n.db } ∧ ∀ p, some p ∈ n.procs →
      RestaurantPoint (s.stores.Delivered .restaurant) p := by
  refine Node.step_rule (fun d => Commits dflt s.stores { s.stores with restaurant := d })
    (fun _ p => RestaurantPoint (s.stores.Delivered .restaurant) p) .same ?_ ?_ ?_ ?_ ?_
    hp.restaurant hst
  · exact fun p hp => .inl hp
  · exact fun o => o.elim
  · rintro f t e p d' hf (⟨env, hd, h⟩ | ⟨r, h⟩) hrun
    · cases h
      obtain ⟨rfl, he⟩ := Restaurant.handleTx_ok hrun
      exact ⟨.restaurant hd hf he, .inr ⟨_, rfl⟩, fun _ h => h⟩
    · cases h
  · rintro f t e x - (⟨env, hd, h⟩ | ⟨r, h⟩) -
    · cases h
      exact .inr (Restaurant.handleError_done env x)
    · cases h
  · rintro g rfl
    exact ⟨.restart, fun _ h => h⟩

theorem step_payment {l : Node.Label Payment.db Fresh Payment.GatewayCall Payment.Reply} {n}
    (hp : Procs dflt s)
    (hst : (Node.lts (paymentRules dflt s.stores) fun _ => True).step s.payment l n) :
    Commits dflt s.stores { s.stores with payment := n.db } ∧ ∀ p, some p ∈ n.procs →
      Payment.Point (s.stores.Delivered .payment) dflt n.db p := by
  refine Node.step_rule (fun d => Commits dflt s.stores { s.stores with payment := d })
    (fun d p => Payment.Point (s.stores.Delivered .payment) dflt d p) .same ?_ ?_ ?_ ?_ ?_
    hp.payment hst
  · rintro p (⟨env, hd, rfl⟩ | ⟨stuckDuration, rfl⟩)
    · exact .handle hd
    · exact .reconcile stuckDuration
  · exact fun o k hJ => Payment.call_point hJ
  · intro f t e p d' hf hJ hrun
    obtain ⟨he, hp'⟩ := Payment.commit_effect hJ hrun
    exact ⟨.payment hf he, hp', fun _ h => h.mono (fun _ h => h) he.keeps⟩
  · intro f t e x _ hJ _
    obtain ⟨r, hr⟩ := Payment.abort_point hJ x
    rw [hr]
    exact .done r
  · rintro g ⟨⟩

/-- What a relay does to the databases. -/
theorem stores_relayed {service : Service} {x : OutboxRow} (publishedAt : Option Time)
    (hx : x ∈ (s.stores.mail service).outbox.rows) :
    s.stores.post.Relays service x (s.relayed service x publishedAt).stores.post := by
  cases publishedAt with
  | none => exact ⟨hx, .inl rfl, fun _ _ => rfl, rfl⟩
  | some now =>
    refine ⟨hx, .inr ⟨now, ?_⟩, fun j hj => ?_, ?_⟩
    · cases service <;> rfl
    · cases service <;> cases j <;> first | exact absurd rfl hj | rfl
    · cases service <;> rfl

/-- A relay leaves the tables of the services and their processes alone. -/
theorem relayed_eq (service : Service) (x : OutboxRow) (publishedAt : Option Time) :
    ((s.relayed service x publishedAt).order.db.tables = s.order.db.tables ∧
      (s.relayed service x publishedAt).restaurant.db.tables = s.restaurant.db.tables ∧
      (s.relayed service x publishedAt).payment.db.tables = s.payment.db.tables) ∧
    (s.relayed service x publishedAt).order.procs = s.order.procs ∧
      (s.relayed service x publishedAt).restaurant.procs = s.restaurant.procs ∧
      (s.relayed service x publishedAt).payment.procs = s.payment.procs := by
  cases publishedAt with
  | none => exact ⟨⟨rfl, rfl, rfl⟩, rfl, rfl, rfl⟩
  | some now => cases service <;> exact ⟨⟨rfl, rfl, rfl⟩, rfl, rfl, rfl⟩

/-- **What a step of the system does to the databases, and what is then known of the
processes.** -/
theorem step_commits (hp : Procs dflt s) (hst : (system dflt).step s l s') :
    Commits dflt s.stores s'.stores ∧ Procs dflt s' := by
  cases moves_of_step hst with
  | order hn =>
    obtain ⟨hc, hp'⟩ := step_order hp hn
    exact ⟨hc, hp', hp.restaurant, hp.payment⟩
  | restaurant hn =>
    obtain ⟨hc, hp'⟩ := step_restaurant hp hn
    exact ⟨hc, hp.order, hp', hp.payment⟩
  | payment hn =>
    obtain ⟨hc, hp'⟩ := step_payment hp hn
    exact ⟨hc, hp.order, hp.restaurant, hp'⟩
  | @relay service x publishedAt hx =>
    obtain ⟨⟨ho, hr, hpay⟩, hpo, hpr, hpp⟩ := relayed_eq (s := s) service x publishedAt
    have hrel := stores_relayed publishedAt hx
    -- what could be delivered still can
    have hdel : ∀ service' env, s.stores.Delivered service' env →
        (s.relayed service x publishedAt).stores.Delivered service' env := by
      rintro service' env ⟨m, hm, hme⟩
      have hk : (s.relayed service x publishedAt).stores.kafka = _ := hrel.kafka
      exact ⟨m, hk ▸ List.mem_append_left _ hm, hme⟩
    refine ⟨.relay hrel ho hr hpay, fun p hm => ?_, fun p hm => ?_, fun p hm => ?_⟩
    · rw [ho]
      exact (hp.order p (hpo ▸ hm)).mono (hdel .order) fun _ h => h
    · exact (hp.restaurant p (hpr ▸ hm)).imp_left fun ⟨env, hd, he⟩ => ⟨env, hdel _ _ hd, he⟩
    · refine (hp.payment p (hpp ▸ hm)).mono (hdel .payment) fun q hq => ?_
      rw [hpay]
      exact ⟨q, hq, rfl, rfl, rfl, id⟩

/-- The proof rule for invariants of the databases. -/
theorem run_invariant (I : Stores → Prop) {t₀ : Restaurant.Tables} {ls : List Label}
    (h₀ : I (State.start t₀).stores) (hstep : ∀ s s', I s → Commits dflt s s' → I s')
    (h : (system dflt).Run (.start t₀) ls s) : I s.stores ∧ Procs dflt s := by
  refine h.invariant (I := fun s => I s.stores ∧ Procs dflt s) ⟨h₀, ?_⟩ ?_
  · constructor <;> intro p hp <;> cases hp
  · rintro s l s' ⟨hI, hp⟩ hst
    obtain ⟨hc, hp'⟩ := step_commits hp hst
    exact ⟨hstep _ _ hI hc, hp'⟩

end Saga

end FoodFlow
