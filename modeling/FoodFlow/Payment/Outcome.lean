import FoodFlow.Payment.Reconciliation
import FoodFlow.Sql.Node

/-!
# Payment outcomes

The payment service as a node on which deliveries of arbitrary envelopes and reconciliation
passes interleave, transaction by transaction, and may be killed at any point.

* `outcomes_agree` : the status of a payment, the outcome events in the outbox and the directive
  of the event that created the payment agree in every reachable state, and a terminal status
  stays;
* `outcome_once` : as long as every Transaction 2 finds its payment in the state `PROCESSING`, at
  most one outcome is published for an order;
* `outcome_twice` : without that, a reconciliation pass and the Transaction 2 it overtakes both
  publish.
-/

namespace FoodFlow

namespace Payment

/-- What may run at the service: deliveries and reconciliation passes. -/
def rules (dflt : String) : Node.Rules db Fresh GatewayCall Reply where
  start p := (∃ env, p = handleMessage dflt env) ∨
    ∃ stuckDuration, p = reconcileStuckPayments dflt stuckDuration

/-- The database before the first payment. -/
structure Initial (d : Db) : Prop where
  payments : d.tables.payments = .empty
  outbox : d.mail.outbox = .empty

/-- The states of the payment service. -/
abbrev State := Node db Fresh GatewayCall Reply

/-- The payment service. -/
def system (dflt : String) : LTS State (Node.Label db Fresh GatewayCall Reply) :=
  Node.lts (rules dflt) Initial

/-- `r` is the outcome `success` for the order `o`. -/
def IsOutcome (success : Bool) (o : UUID) (r : OutboxRow) : Prop :=
  r.payload.eventType = topicOf success ∧ r.payload.payload.orderId = some o

instance (success : Bool) (o : UUID) (r : OutboxRow) : Decidable (IsOutcome success o r) :=
  inferInstanceAs (Decidable (_ ∧ _))

/-- What the gateway says to the directive stored with a payment. -/
def PaymentRow.decision (dflt : String) (p : PaymentRow) : Bool :=
  processPayment dflt 0 p.paymentSimulate

/-- The payment `pid` is that of the order `o`, and its directive means `success`. -/
def Holds (dflt : String) (d : Db) (o pid : UUID) (success : Bool) : Prop :=
  ∃ p ∈ d.tables.payments.rows, p.id = pid ∧ p.orderId = o ∧ p.decision dflt = success

/-- The agreement of payments and outbox. -/
structure Agreed (dflt : String) (d : Db) : Prop where
  id_unique : ∀ p ∈ d.tables.payments.rows, ∀ q ∈ d.tables.payments.rows, p.id = q.id → p = q
  /-- Every event published is the outcome of a payment that has it as its status. -/
  of_outbox : ∀ r ∈ d.mail.outbox.rows, ∃ success, ∃ p ∈ d.tables.payments.rows,
    IsOutcome success p.orderId r ∧ p.status = statusOf success
  /-- Every payment with an outcome has published it. -/
  published : ∀ p ∈ d.tables.payments.rows, ∀ success, p.status = statusOf success →
    ∃ r ∈ d.mail.outbox.rows, IsOutcome success p.orderId r
  /-- The outcome is the one that the stored directive asks for. -/
  decided : ∀ p ∈ d.tables.payments.rows, p.status ≠ .processing →
    p.status = statusOf (p.decision dflt)

/-- Where a process of the service can be, and what it knows, when the envelopes delivered are
those in `src`. -/
inductive Point (src : Envelope → Prop) (dflt : String) (d : Db) : Process → Prop
  | handle {env} : src env → Point src dflt d (handleMessage dflt env)
  | gateway {env o amount pid} :
      Holds dflt d o pid (processPayment dflt amount env.payload.paymentSimulate) →
      Point src dflt d (callGateway dflt env o amount pid)
  | outcome {env success o pid} : Holds dflt d o pid success →
      Point src dflt d (recordOutcome env success o pid)
  | reconcile (stuckDuration) : Point src dflt d (reconcileStuckPayments dflt stuckDuration)
  | loop {ps n} : (∀ s ∈ ps, Holds dflt d s.orderId s.id (s.success dflt)) →
      Point src dflt d (reconcileLoop dflt ps n)
  | settle {s ps n} : Holds dflt d s.orderId s.id (s.success dflt) →
      (∀ s ∈ ps, Holds dflt d s.orderId s.id (s.success dflt)) →
      Point src dflt d (.txn (settleTx dflt s (reconcileLoop dflt ps) n) passError)
  | done (r) : Point src dflt d (.done r)

/-- What a transaction of the process `q` has done when it commits. -/
inductive Effect (src : Envelope → Prop) (dflt : String) (q : Process) (f : Fresh) (d : Db) :
    Db → Prop
  /-- Nothing. -/
  | unchanged : Effect src dflt q f d d
  /-- Transaction 1 has recorded a payment. -/
  | intent {env o amount cents directive} : src env → q = handleMessage dflt env →
      env.payload.orderId = some o → env.payload.totalAmount = some amount →
      decimal amount = some cents → varchar? 20 env.payload.paymentSimulate = some directive →
      d.tables.byId? f.id = none → d.tables.payments.get? o = none →
      Effect src dflt q f d ⟨apply (.addPayment (intentRow o cents directive f)) d.tables,
        Mail.apply (.addProcessed env.eventId) d.mail⟩
  /-- Transaction 2 has written an outcome. -/
  | outcome {env success o pid} : q = recordOutcome env success o pid →
      Holds dflt d o pid success → d.mail.outbox.get? f.rowId = none →
      Effect src dflt q f d (resolved success o pid f d)
  /-- The reconciliation has written an outcome. -/
  | settled {s : Stuck} {next n} : q = .txn (settleTx dflt s next n) passError →
      Holds dflt d s.orderId s.id (s.success dflt) →
      (d.tables.byId? s.id).map PaymentRow.status = some .processing →
      d.mail.outbox.get? f.rowId = none →
      Effect src dflt q f d (resolved (s.success dflt) s.orderId s.id f d)

variable {src : Envelope → Prop} {dflt : String} {d d' : Db} {f : Fresh} {p q : Process}
  {o pid : UUID} {success : Bool}

/-! ### Payments are kept -/

/-- Every payment of `d` is in `d'`, with the columns that never change; one with an outcome still
has one. -/
def Keeps (d d' : Db) : Prop :=
  ∀ p ∈ d.tables.payments.rows, ∃ p' ∈ d'.tables.payments.rows, p'.id = p.id ∧
    p'.orderId = p.orderId ∧ p'.paymentSimulate = p.paymentSimulate ∧
    (p.status ≠ .processing → p'.status ≠ .processing)

theorem Keeps.refl (d : Db) : Keeps d d := fun p hp => ⟨p, hp, rfl, rfl, rfl, id⟩

theorem Keeps.trans {d₁ : Db} (h : Keeps d d₁) (h' : Keeps d₁ d') : Keeps d d' := by
  intro p hp
  obtain ⟨p₁, hp₁, hid, ho, hs, ht⟩ := h p hp
  obtain ⟨p', hp', hid', ho', hs', ht'⟩ := h' p₁ hp₁
  exact ⟨p', hp', hid'.trans hid, ho'.trans ho, hs'.trans hs, fun h => ht' (ht h)⟩

theorem Holds.mono (h : Keeps d d') (hh : Holds dflt d o pid success) :
    Holds dflt d' o pid success := by
  obtain ⟨p, hp, rfl, rfl, rfl⟩ := hh
  obtain ⟨p', hp', hid, ho, hs, -⟩ := h p hp
  exact ⟨p', hp', hid, ho, by rw [PaymentRow.decision, hs, PaymentRow.decision]⟩

theorem Point.mono {src' : Envelope → Prop} (hsrc : ∀ env, src env → src' env)
    (h : Keeps d d') (hp : Point src dflt d p) : Point src' dflt d' p := by
  cases hp with
  | handle hs => exact .handle (hsrc _ hs)
  | gateway hh => exact .gateway (hh.mono h)
  | outcome hh => exact .outcome (hh.mono h)
  | reconcile n => exact .reconcile n
  | loop hs => exact .loop fun s hm => (hs s hm).mono h
  | settle hh hs => exact .settle (hh.mono h) fun s hm => (hs s hm).mono h
  | done r => exact .done r

theorem statusOf_ne (success : Bool) : statusOf success ≠ .processing := by
  cases success <;> simp [statusOf]

theorem rows_intent {cents : ℤ} {directive : Option String} (h : d.tables.payments.get? o = none) :
    (apply (.addPayment (intentRow o cents directive f)) d.tables).payments.rows =
      d.tables.payments.rows ++ [intentRow o cents directive f] := Table.rows_insert h

theorem mem_rows_resolved {p : PaymentRow} :
    p ∈ (resolved success o pid f d).tables.payments.rows ↔
      ∃ p₀ ∈ d.tables.payments.rows,
        (if p₀.id = pid then { p₀ with status := statusOf success, updatedAt := f.now } else p₀)
          = p := by
  change p ∈ (d.tables.payments.update (·.id = pid) fun r =>
    { r with status := statusOf success, updatedAt := f.now }).rows ↔ _
  rw [Table.mem_rows_update]
  simp only [decide_eq_true_eq]

theorem keeps_resolved : Keeps d (resolved success o pid f d) := by
  intro p hp
  refine ⟨_, mem_rows_resolved.2 ⟨p, hp, rfl⟩, ?_⟩
  split_ifs with h
  · exact ⟨rfl, rfl, rfl, fun _ => statusOf_ne success⟩
  · exact ⟨rfl, rfl, rfl, id⟩

theorem Effect.keeps (h : Effect src dflt q f d d') : Keeps d d' := by
  cases h with
  | unchanged => exact .refl d
  | intent _ _ _ _ _ _ _ ho =>
    intro p hp
    refine ⟨p, ?_, rfl, rfl, rfl, id⟩
    rw [rows_intent ho]
    exact List.mem_append_left _ hp
  | outcome _ _ _ => exact keeps_resolved
  | settled _ _ _ _ => exact keeps_resolved

/-! ### A single commit -/

theorem byId?_eq_none (h : d.tables.byId? pid = none) {p : PaymentRow}
    (hp : p ∈ d.tables.payments.rows) : p.id ≠ pid := by
  simpa using List.find?_eq_none.1 h p hp

theorem Agreed.intent (hI : Agreed dflt d) {cents : ℤ} {directive : Option String} {e : UUID}
    (hid : d.tables.byId? f.id = none) (ho : d.tables.payments.get? o = none) :
    Agreed dflt ⟨apply (.addPayment (intentRow o cents directive f)) d.tables,
      Mail.apply (.addProcessed e) d.mail⟩ := by
  -- a payment is an old one, or the new one in the state `PROCESSING`
  have hrows : ∀ {p}, p ∈ (apply (.addPayment (intentRow o cents directive f))
      d.tables).payments.rows ↔ p ∈ d.tables.payments.rows ∨ p = intentRow o cents directive f := by
    intro p
    rw [rows_intent ho, List.mem_append, List.mem_singleton]
  constructor
  · intro p hp q hq hpq
    rcases hrows.1 hp with hp | rfl <;> rcases hrows.1 hq with hq | rfl
    · exact hI.id_unique p hp q hq hpq
    · exact absurd hpq (byId?_eq_none hid hp)
    · exact absurd hpq.symm (byId?_eq_none hid hq)
    · rfl
  · intro r hr
    obtain ⟨b, p, hp, h⟩ := hI.of_outbox r hr
    exact ⟨b, p, hrows.2 (.inl hp), h⟩
  · intro p hp b hb
    rcases hrows.1 hp with hp | rfl
    · exact hI.published p hp b hb
    · exact absurd hb.symm (statusOf_ne b)
  · intro p hp hne
    rcases hrows.1 hp with hp | rfl
    · exact hI.decided p hp hne
    · exact absurd rfl hne

theorem rows_outbox_resolved (h : d.mail.outbox.get? f.rowId = none) :
    (resolved success o pid f d).mail.outbox.rows =
      d.mail.outbox.rows ++ [outcomeRow success o f] := Table.rows_insert h

theorem Agreed.resolved (hI : Agreed dflt d) (hh : Holds dflt d o pid success)
    (hr : d.mail.outbox.get? f.rowId = none) : Agreed dflt (resolved success o pid f d) := by
  obtain ⟨p₁, hp₁, rfl, rfl, rfl⟩ := hh
  -- the only payment that changes is `p₁`
  have hrow : ∀ p ∈ (resolved (p₁.decision dflt) p₁.orderId p₁.id f d).tables.payments.rows,
      (p = { p₁ with status := statusOf (p₁.decision dflt), updatedAt := f.now }) ∨
        (p ∈ d.tables.payments.rows ∧ p.id ≠ p₁.id) := by
    intro p hp
    obtain ⟨p₀, hp₀, rfl⟩ := mem_rows_resolved.1 hp
    split_ifs with h
    · exact .inl (by rw [hI.id_unique p₀ hp₀ p₁ hp₁ h])
    · exact .inr ⟨hp₀, h⟩
  have hnew : { p₁ with status := statusOf (p₁.decision dflt), updatedAt := f.now } ∈
      (resolved (p₁.decision dflt) p₁.orderId p₁.id f d).tables.payments.rows :=
    mem_rows_resolved.2 ⟨p₁, hp₁, if_pos rfl⟩
  constructor
  · intro p hp q hq hpq
    rcases hrow p hp with rfl | ⟨hp, hne⟩ <;> rcases hrow q hq with rfl | ⟨hq, hne'⟩
    · rfl
    · exact absurd hpq.symm hne'
    · exact absurd hpq hne
    · exact hI.id_unique p hp q hq hpq
  · intro r hr'
    rw [rows_outbox_resolved hr, List.mem_append, List.mem_singleton] at hr'
    rcases hr' with hr' | rfl
    · obtain ⟨b, p, hp, hout, hst⟩ := hI.of_outbox r hr'
      -- an outcome published before: of this payment, where it was the same, or of another
      by_cases hid : p.id = p₁.id
      · obtain rfl := hI.id_unique p hp p₁ hp₁ hid
        have hb : p.status ≠ .processing := hst ▸ statusOf_ne b
        refine ⟨b, _, hnew, hout, ?_⟩
        exact (hI.decided p hp hb).symm.trans hst
      · exact ⟨b, p, mem_rows_resolved.2 ⟨p, hp, if_neg hid⟩, hout, hst⟩
    · exact ⟨_, _, hnew, ⟨rfl, rfl⟩, rfl⟩
  · intro p hp b hb
    rw [rows_outbox_resolved hr]
    rcases hrow p hp with rfl | ⟨hp, -⟩
    · refine ⟨_, List.mem_append_right _ (List.mem_singleton_self _), ?_, rfl⟩
      have : p₁.decision dflt = b := by
        cases hd : p₁.decision dflt <;> cases b <;> simp [statusOf, hd] at hb ⊢
      rw [← this]
      rfl
    · obtain ⟨r, hr', h⟩ := hI.published p hp b hb
      exact ⟨r, List.mem_append_left _ hr', h⟩
  · intro p hp hne
    rcases hrow p hp with rfl | ⟨hp, -⟩
    · rfl
    · exact hI.decided p hp hne

theorem Effect.agreed (h : Effect src dflt q f d d') (hI : Agreed dflt d) : Agreed dflt d' := by
  cases h with
  | unchanged => exact hI
  | intent _ _ _ _ _ _ hid ho => exact hI.intent hid ho
  | outcome _ hh hr => exact hI.resolved hh hr
  | settled _ hh _ hr => exact hI.resolved hh hr

/-- What the rest of the loop knows. -/
theorem point_loop {s : Stuck} {ps : List Stuck} {n : ℕ}
    (hs : ∀ s' ∈ s :: ps, Holds dflt d s'.orderId s'.id (s'.success dflt)) :
    Point src dflt d (.txn (settleTx dflt s (reconcileLoop dflt ps) n) passError) :=
  .settle (hs s List.mem_cons_self) fun s' hs' => hs s' (List.mem_cons_of_mem _ hs')

/-- **What a transaction of the service can do, and where its process is then.** -/
theorem commit_effect {t : Fresh → Tx db Process} {e : Err → Process}
    (hp : Point src dflt d (.txn t e)) (hrun : (t f).run d = .ok (p, d')) :
    Effect src dflt (.txn t e) f d d' ∧ Point src dflt d' p := by
  generalize hq : Proc.txn t e = q at hp
  cases hp with
  | @handle env hs =>
    unfold handleMessage at hq
    split at hq
    · cases hq
    · rename_i o ho
      split at hq
      · cases hq
      · rename_i amount ha
        cases hq
        -- Transaction 1: the directive stored decides as the one in the envelope
        rcases recordIntent_ok hrun with ⟨-, rfl, rfl⟩ |
          ⟨cents, directive, hc, hv, -, hid, hnone, rfl, rfl⟩
        · exact ⟨.unchanged, .done _⟩
        · refine ⟨.intent hs (by rw [handleMessage, ho, ha]) ho ha hc hv hid hnone, .gateway ?_⟩
          refine ⟨intentRow o cents directive f, ?_, rfl, rfl, ?_⟩
          · rw [rows_intent hnone]
            exact List.mem_append_right _ (List.mem_singleton_self _)
          · exact processPayment_varchar hv
  | gateway _ => cases hq
  | outcome hh =>
    cases hq
    obtain ⟨rfl, hr, rfl⟩ := outcomeTx_ok hrun
    exact ⟨.outcome rfl hh hr, .done _⟩
  | reconcile n =>
    cases hq
    obtain ⟨rfl, rfl⟩ := selectTx_ok hrun
    refine ⟨.unchanged, .loop fun s hs => ?_⟩
    -- what is selected are payments with their own directives
    obtain ⟨r, hr, rfl⟩ := List.mem_map.1 hs
    exact ⟨r, (List.mem_filter.1 hr).1, rfl, rfl, rfl⟩
  | @loop ps n _ => cases ps <;> cases hq
  | settle hh hs =>
    cases hq
    obtain ⟨⟨m, rfl⟩, rfl | ⟨hst, hr, rfl⟩⟩ := settleTx_ok hrun
    · exact ⟨.unchanged, .loop hs⟩
    · exact ⟨.settled rfl hh hst hr, .loop fun s hs' => (hs s hs').mono keeps_resolved⟩
  | done r => cases hq

/-- Where the exception of a transaction leads. -/
theorem abort_point {t : Fresh → Tx db Process} {e : Err → Process}
    (hp : Point src dflt d (.txn t e)) (x : Err) : ∃ r, e x = .done r := by
  generalize hq : Proc.txn t e = q at hp
  cases hp with
  | @handle env hs =>
    unfold handleMessage at hq
    split at hq
    · cases hq
    · split at hq
      · cases hq
      · cases hq
        exact intentError_done env x
  | gateway _ => cases hq
  | outcome _ => cases hq; exact ⟨_, rfl⟩
  | reconcile _ => cases hq; exact ⟨_, rfl⟩
  | @loop ps n _ => cases ps <;> cases hq
  | settle _ _ => cases hq; exact ⟨_, rfl⟩
  | done r => cases hq

/-- A call of the gateway leads on to the transaction that records its answer. -/
theorem call_point {c : GatewayCall} {k : Process} (hp : Point src dflt d (.call c k)) :
    Point src dflt d k := by
  generalize hq : Proc.call c k = q at hp
  cases hp with
  | @handle env hs =>
    unfold handleMessage at hq
    split at hq
    · cases hq
    · split at hq <;> cases hq
  | gateway hh => cases hq; exact .outcome hh
  | outcome _ => cases hq
  | reconcile _ => cases hq
  | @loop ps n hs =>
    cases ps with
    | nil => cases hq
    | cons s ps => cases hq; exact point_loop hs
  | settle _ _ => cases hq
  | done r => cases hq

/-! ### Every run -/

/-- The invariant of the service. -/
theorem invariant {n : State} (h : (system dflt).Reachable n) :
    Agreed dflt n.db ∧ ∀ p, some p ∈ n.procs → Point (fun _ => True) dflt n.db p := by
  refine Node.invariant (fun d : Db => Agreed dflt d) (fun d p => Point (fun _ => True) dflt d p)
    ?_ ?_ ?_ ?_ ?_ ?_ h
  · rintro d ⟨hp, ho⟩
    constructor <;> simp [hp, ho, Table.empty]
  · rintro d p - (⟨env, rfl⟩ | ⟨n, rfl⟩)
    · exact .handle trivial
    · exact .reconcile n
  · exact fun d o k _ hp => call_point hp
  · intro d f t e p d' hI _ hp hrun
    obtain ⟨he, hp'⟩ := commit_effect hp hrun
    exact ⟨he.agreed hI, hp', fun p' h' => h'.mono (fun _ h => h) he.keeps⟩
  · intro d f t e x _ _ hp _
    obtain ⟨r, hr⟩ := abort_point hp x
    rw [hr]
    exact .done r
  · rintro d g _ ⟨⟩

/-- What a step can do to the database. -/
theorem step_effect {n n' : State} {l : Node.Label db Fresh GatewayCall Reply}
    (h : (system dflt).Reachable n) (hst : (system dflt).step n l n') :
    n'.db = n.db ∨ ∃ i f q, l = .run i f ∧ n.procs[i]? = some (some q) ∧
      Effect (fun _ => True) dflt q f n.db n'.db := by
  cases Node.step_cases hst with
  | start _ => exact .inl rfl
  | call _ => exact .inl rfl
  | @commit i f t e p d _ hi hrun =>
    have hp := (invariant h).2 _ (List.mem_of_getElem? hi)
    exact .inr ⟨i, f, _, rfl, hi, (commit_effect hp hrun).1⟩
  | abort _ _ _ => exact .inl rfl
  | kill => exact .inl rfl
  | env hg => cases hg

theorem step_keeps {n n' : State} {l : Node.Label db Fresh GatewayCall Reply}
    (h : (system dflt).Reachable n) (hst : (system dflt).step n l n') : Keeps n.db n'.db := by
  rcases step_effect h hst with hd | ⟨i, f, q, -, -, he⟩
  · rw [hd]; exact .refl _
  · exact he.keeps

/-- A step of a delivery of `env` that inserts the payment of the order `o`. -/
structure Creates (dflt : String) (env : Envelope) (o : UUID) (n : State)
    (l : Node.Label db Fresh GatewayCall Reply) (n' : State) : Prop where
  step : (system dflt).step n l n'
  delivery : ∃ i f, l = .run i f ∧ n.procs[i]? = some (some (handleMessage dflt env))
  absent : n.db.tables.payments.get? o = none
  present : (n'.db.tables.payments.get? o).isSome

/-- At some point of the run, a delivery of `env` inserts the payment of the order `o`. -/
def Records (dflt : String) (env : Envelope) (o : UUID) (n₀ : State)
    (ls : List (Node.Label db Fresh GatewayCall Reply)) (n : State) : Prop :=
  ∃ ls₁ n₁ l n₂ ls₂, ls = ls₁ ++ l :: ls₂ ∧ (system dflt).Run n₀ ls₁ n₁ ∧
    Creates dflt env o n₁ l n₂ ∧ (system dflt).Run n₂ ls₂ n

/-- A payment after a commit is one from before, or the one that Transaction 1 has recorded. -/
theorem Effect.rows (h : Effect src dflt q f d d') {p : PaymentRow}
    (hp : p ∈ d'.tables.payments.rows) :
    (∃ p₀ ∈ d.tables.payments.rows, p₀.orderId = p.orderId ∧
      p₀.paymentSimulate = p.paymentSimulate) ∨
    ∃ env amount, q = handleMessage dflt env ∧ env.payload.totalAmount = some amount ∧
      varchar? 20 env.payload.paymentSimulate = some p.paymentSimulate ∧
      d.tables.payments.get? p.orderId = none := by
  have old : ∀ {b o pid}, p ∈ (resolved b o pid f d).tables.payments.rows →
      ∃ p₀ ∈ d.tables.payments.rows, p₀.orderId = p.orderId ∧
        p₀.paymentSimulate = p.paymentSimulate := by
    intro b o pid hp
    obtain ⟨p₀, hp₀, rfl⟩ := mem_rows_resolved.1 hp
    refine ⟨p₀, hp₀, ?_⟩
    split_ifs <;> exact ⟨rfl, rfl⟩
  cases h with
  | unchanged => exact .inl ⟨p, hp, rfl, rfl⟩
  | @intent env o amount cents directive _ hq _ ha _ hv _ ho =>
    rw [rows_intent ho, List.mem_append, List.mem_singleton] at hp
    rcases hp with hp | rfl
    · exact .inl ⟨p, hp, rfl, rfl⟩
    · exact .inr ⟨env, amount, hq, ha, hv, ho⟩
  | outcome _ _ _ => exact .inl (old hp)
  | settled _ _ _ _ => exact .inl (old hp)

/-- Every payment was recorded at some point of the run, with the directive of the event that was
delivered there. -/
theorem recorded {n₀ n : State} {ls : List (Node.Label db Fresh GatewayCall Reply)}
    (h₀ : (system dflt).init n₀) (hr : (system dflt).Run n₀ ls n) :
    ∀ p ∈ n.db.tables.payments.rows, ∃ env amount, Records dflt env p.orderId n₀ ls n ∧
      env.payload.totalAmount = some amount ∧
      varchar? 20 env.payload.paymentSimulate = some p.paymentSimulate := by
  induction hr with
  | refl =>
    obtain ⟨d, hd, rfl⟩ := h₀
    intro p hp
    simp [Node.idle, hd.payments, Table.empty] at hp
  | @snoc ls n n' l hr hst ih =>
    intro p hp
    -- a payment that was there before the step was recorded before
    have old : ∀ p₀ ∈ n.db.tables.payments.rows, p₀.orderId = p.orderId →
        p₀.paymentSimulate = p.paymentSimulate →
        ∃ env amount, Records dflt env p.orderId n₀ (ls ++ [l]) n' ∧
          env.payload.totalAmount = some amount ∧
          varchar? 20 env.payload.paymentSimulate = some p.paymentSimulate := by
      intro p₀ hp₀ ho hs
      obtain ⟨env, amount, ⟨ls₁, n₁, l₁, n₂, ls₂, rfl, hr₁, hc, hr₂⟩, ha, hv⟩ := ih p₀ hp₀
      exact ⟨env, amount, ⟨ls₁, n₁, l₁, n₂, ls₂ ++ [l], by simp, hr₁, ho ▸ hc, hr₂.snoc hst⟩, ha,
        hs ▸ hv⟩
    rcases step_effect ⟨n₀, ls, h₀, hr⟩ hst with hd | ⟨i, f, q, rfl, hi, he⟩
    · exact old p (hd ▸ hp) rfl rfl
    · rcases he.rows hp with ⟨p₀, hp₀, ho, hs⟩ | ⟨env, amount, rfl, ha, hv, ho⟩
      · exact old p₀ hp₀ ho hs
      · refine ⟨env, amount, ⟨ls, n, _, n', [], rfl, hr, ⟨hst, ⟨i, f, rfl, hi⟩, ho, ?_⟩, .refl⟩,
          ha, hv⟩
        rw [Table.get?_of_mem hp]
        rfl

theorem statusOf_inj {b b' : Bool} (h : statusOf b = statusOf b') : b = b' := by
  cases b <;> cases b' <;> simp [statusOf] at h ⊢

theorem topicOf_inj {b b' : Bool} (h : topicOf b = topicOf b') : b = b' := by
  cases b <;> cases b' <;> simp [topicOf] at h ⊢

/-- An outcome published for a payment is its status. -/
theorem Agreed.status_eq (hI : Agreed dflt d) {p : PaymentRow} {r : OutboxRow}
    (hp : p ∈ d.tables.payments.rows) (hr : r ∈ d.mail.outbox.rows)
    (hout : IsOutcome success p.orderId r) : p.status = statusOf success := by
  obtain ⟨b, p', hp', hout', hst⟩ := hI.of_outbox r hr
  have hb : b = success := topicOf_inj (hout'.1.symm.trans hout.1)
  have ho : p'.orderId = p.orderId := Option.some.inj (hout'.2.symm.trans hout.2)
  have hpp : p = p' := by
    have h := Table.get?_of_mem hp'
    rw [ho, Table.get?_of_mem hp] at h
    exact Option.some.inj h
  rw [hpp, hst, hb]

/-- A status other than `PROCESSING` stays. -/
theorem status_stays {n n' : State} {ls : List (Node.Label db Fresh GatewayCall Reply)}
    (h : (system dflt).Reachable n) (hr : (system dflt).Run n ls n') {p : PaymentRow}
    (hp : p ∈ n.db.tables.payments.rows) (hne : p.status ≠ .processing) :
    ∃ p' ∈ n'.db.tables.payments.rows, p'.id = p.id ∧ p'.orderId = p.orderId ∧
      p'.status = p.status := by
  have hk : (system dflt).Reachable n' ∧ Keeps n.db n'.db := by
    refine hr.invariant (I := fun m => (system dflt).Reachable m ∧ Keeps n.db m.db)
      ⟨h, .refl _⟩ ?_
    rintro m l m' ⟨hm, hk⟩ hst
    exact ⟨hm.tail hst, hk.trans (step_keeps hm hst)⟩
  obtain ⟨p', hp', hid, ho, hs, ht⟩ := hk.2 p hp
  refine ⟨p', hp', hid, ho, ?_⟩
  rw [(invariant h).1.decided p hp hne, (invariant hk.1).1.decided p' hp' (ht hne),
    PaymentRow.decision, PaymentRow.decision, hs]

/-- **Payment outcomes agree**: in every state of every run and for every payment, the status and
the events published for the order agree; the status, once it is not `PROCESSING`, is what the
gateway decides for the directive of the event whose delivery recorded the payment; and it never
changes afterwards. -/
theorem outcomes_agree {n₀ n : State} {ls : List (Node.Label db Fresh GatewayCall Reply)}
    (h₀ : (system dflt).init n₀) (hr : (system dflt).Run n₀ ls n) {p : PaymentRow}
    (hp : p ∈ n.db.tables.payments.rows) :
    (p.status = .processing →
      ∀ r ∈ n.db.mail.outbox.rows, ∀ success, ¬ IsOutcome success p.orderId r) ∧
    (p.status = .succeeded → (∃ r ∈ n.db.mail.outbox.rows, IsOutcome true p.orderId r) ∧
      ∀ r ∈ n.db.mail.outbox.rows, ¬ IsOutcome false p.orderId r) ∧
    (p.status = .failed → (∃ r ∈ n.db.mail.outbox.rows, IsOutcome false p.orderId r) ∧
      ∀ r ∈ n.db.mail.outbox.rows, ¬ IsOutcome true p.orderId r) ∧
    (∃ env amount, Records dflt env p.orderId n₀ ls n ∧
      env.payload.totalAmount = some amount ∧ (p.status ≠ .processing →
        p.status = statusOf (processPayment dflt amount env.payload.paymentSimulate))) ∧
    (p.status ≠ .processing → ∀ ls' n', (system dflt).Run n ls' n' →
      ∃ p' ∈ n'.db.tables.payments.rows, p'.id = p.id ∧ p'.orderId = p.orderId ∧
        p'.status = p.status) := by
  have hreach : (system dflt).Reachable n := ⟨n₀, ls, h₀, hr⟩
  have hI := (invariant hreach).1
  refine ⟨?_, ?_, ?_, ?_, fun hne ls' n' hr' => status_stays hreach hr' hp hne⟩
  · intro hst r hr success hout
    exact statusOf_ne success ((hI.status_eq hp hr hout).symm.trans hst)
  · intro hst
    refine ⟨hI.published p hp true hst, fun r hr hout => ?_⟩
    simpa using statusOf_inj (b := true) (hst.symm.trans (hI.status_eq hp hr hout))
  · intro hst
    refine ⟨hI.published p hp false hst, fun r hr hout => ?_⟩
    simpa using statusOf_inj (b := false) (hst.symm.trans (hI.status_eq hp hr hout))
  · obtain ⟨env, amount, hrec, ha, hv⟩ := recorded h₀ hr p hp
    refine ⟨env, amount, hrec, ha, fun hne => ?_⟩
    rw [hI.decided p hp hne, PaymentRow.decision, processPayment_varchar hv]
    rfl

/-- A payment of 25 with the directive `Failure`, whose Transaction 2 never runs: the process is
killed, and a pass four minutes later resolves it. -/
theorem outcomes_agree_killed :
    let env : Envelope := ⟨1, .stockReserved, 0,
      { orderId := some 7, totalAmount := some 25, paymentSimulate := some "Failure" }⟩
    let d₀ : Db := ⟨⟨.empty⟩, .empty⟩
    let run : List (Node.Label db Fresh GatewayCall Reply) :=
      [.start (handleMessage "success" env), .run 0 ⟨70, 2, 3, 0⟩, .run 0 ⟨0, 0, 0, 0⟩, .kill 0,
        .start (reconcileStuckPayments "success" 180), .run 1 ⟨4, 5, 6, 240⟩,
        .run 1 ⟨0, 0, 0, 0⟩, .run 1 ⟨7, 8, 9, 240⟩]
    let p : PaymentRow := ⟨70, 7, 2500, .failed, some "Failure", 0, 240⟩
    ∃ n, LTS.runAct Node.act (Node.idle d₀) run = some n ∧
      p ∈ n.db.tables.payments.rows ∧ (∃ r ∈ n.db.mail.outbox.rows, IsOutcome false 7 r) ∧
      ∀ r ∈ n.db.mail.outbox.rows, ¬ IsOutcome true 7 r := by
  intro env d₀ run p
  have hrun : ((LTS.runAct Node.act (Node.idle d₀) run).map fun n =>
      n.db.tables.payments.rows) = some [p] := by decide +kernel
  obtain ⟨n, hn, hrows⟩ := Option.map_eq_some_iff.1 hrun
  have hp : p ∈ n.db.tables.payments.rows := by rw [hrows]; exact List.mem_singleton_self _
  have hr : (system "success").Run (Node.idle d₀) run n := by
    refine LTS.run_of_runAct ?_ hn
    intro s l hl
    simp only [run, List.mem_cons, List.not_mem_nil, or_false] at hl
    rcases hl with rfl | rfl | rfl | rfl | rfl | rfl | rfl | rfl
    exacts [.inl ⟨env, rfl⟩, trivial, trivial, trivial, .inr ⟨180, rfl⟩, trivial, trivial, trivial]
  have h := outcomes_agree (p := p) ⟨_, ⟨rfl, rfl⟩, rfl⟩ hr hp
  exact ⟨n, hn, hp, h.2.2.1 rfl⟩

/-! ### How often an outcome is published -/

/-- The outcomes published for an order. -/
def outcomes (o : UUID) (d : Db) : List OutboxRow :=
  d.mail.outbox.rows.filter fun r => IsOutcome true o r ∨ IsOutcome false o r

/-- A Transaction 2 that runs finds its payment in the state `PROCESSING`. -/
def OnTime (n : State) (l : Node.Label db Fresh GatewayCall Reply) : Prop :=
  ∀ i f env success o pid, l = .run i f →
    n.procs[i]? = some (some (recordOutcome env success o pid)) →
    (n.db.tables.byId? pid).map PaymentRow.status = some .processing

theorem outcomes_resolved (h : d.mail.outbox.get? f.rowId = none) (o' : UUID) :
    outcomes o' (resolved success o pid f d) =
      outcomes o' d ++ if o = o' then [outcomeRow success o f] else [] := by
  rw [outcomes, rows_outbox_resolved h, List.filter_append]
  congr 1
  by_cases ho : o = o'
  · cases success <;> simp [ho, IsOutcome, outcomeRow, wrapEvent]
  · simp [ho, IsOutcome, outcomeRow, wrapEvent]

/-- Nothing is published for a payment in the state `PROCESSING`. -/
theorem Agreed.outcomes_eq_nil (hI : Agreed dflt d) (hh : Holds dflt d o pid success)
    (hst : (d.tables.byId? pid).map PaymentRow.status = some .processing) : outcomes o d = [] := by
  obtain ⟨p, hp, rfl, rfl, -⟩ := hh
  obtain ⟨p', hp', hst'⟩ := Option.map_eq_some_iff.1 hst
  have hid : p'.id = p.id := by simpa using List.find?_some hp'
  obtain rfl := hI.id_unique p' (List.mem_of_find?_eq_some hp') p hp hid
  refine List.filter_eq_nil_iff.2 fun r hr hout => ?_
  rcases of_decide_eq_true hout with hout | hout
  · exact statusOf_ne true ((hI.status_eq hp hr hout).symm.trans hst')
  · exact statusOf_ne false ((hI.status_eq hp hr hout).symm.trans hst')

theorem length_outcomes_resolved (hI : Agreed dflt d) (hh : Holds dflt d o pid success)
    (hst : (d.tables.byId? pid).map PaymentRow.status = some .processing)
    (hr : d.mail.outbox.get? f.rowId = none) (h : ∀ o, (outcomes o d).length ≤ 1) (o' : UUID) :
    (outcomes o' (resolved success o pid f d)).length ≤ 1 := by
  rw [outcomes_resolved hr]
  split_ifs with ho
  · subst ho
    rw [hI.outcomes_eq_nil hh hst]
    exact le_rfl
  · simpa using h o'

/-- **At most one outcome is published for an order**, in every run in which each Transaction 2
finds its payment in the state `PROCESSING`. -/
theorem outcome_once {n : State} (h : ((system dflt).restrict OnTime).Reachable n) (o : UUID) :
    (outcomes o n.db).length ≤ 1 := by
  revert o
  have hinv : (system dflt).Reachable n ∧ ∀ o, (outcomes o n.db).length ≤ 1 := by
    refine h.invariant (I := fun n => (system dflt).Reachable n ∧
      ∀ o, (outcomes o n.db).length ≤ 1) ?_ ?_
    · rintro _ ⟨d, hd, rfl⟩
      refine ⟨.init ⟨d, hd, rfl⟩, fun o => ?_⟩
      simp [outcomes, Node.idle, hd.outbox, Table.empty]
    · rintro n l n' ⟨hn, h⟩ ⟨htime, hst⟩
      refine ⟨hn.tail hst, fun o => ?_⟩
      -- a transaction that publishes finds the payment in the state `PROCESSING`, and then there is
      -- no outcome yet
      have hI := (invariant hn).1
      rcases step_effect hn hst with hd | ⟨i, f, q, rfl, hi, he⟩
      · rw [hd]; exact h o
      · generalize n'.db = d' at he ⊢
        cases he with
        | unchanged => exact h o
        | intent _ _ _ _ _ _ _ _ => exact h o
        | outcome hq hh hr =>
          exact length_outcomes_resolved hI hh (htime _ _ _ _ _ _ rfl (hq ▸ hi)) hr h o
        | settled _ hh hst hr => exact length_outcomes_resolved hI hh hst hr h o
  exact hinv.2

/-- A delivery that has not begun is not about to run Transaction 2. -/
theorem handleMessage_ne_recordOutcome (env env' : Envelope) :
    handleMessage dflt env ≠ recordOutcome env' success o pid := by
  unfold handleMessage recordOutcome
  split
  · simp
  · split
    · simp
    · intro h
      have := congrFun (Proc.txn.inj h).1 ⟨0, 0, 0, 0⟩
      cases (Tx.stmt.inj this).1

theorem recordOutcome_inj {env env' : Envelope} {success' : Bool} {o' pid' : UUID}
    (h : recordOutcome env success o pid = recordOutcome env' success' o' pid') : pid = pid' := by
  have := congrFun (Proc.txn.inj h).1 ⟨0, 0, 0, 0⟩
  exact (Stmt.updateStatus.inj (Sum.inl.inj (Tx.stmt.inj this).1)).2.1

/-- A payment whose Transaction 2 comes at once. -/
theorem outcome_once_prompt :
    let env : Envelope := ⟨1, .stockReserved, 0,
      { orderId := some 7, totalAmount := some 25, paymentSimulate := none }⟩
    let d₀ : Db := ⟨⟨.empty⟩, .empty⟩
    let run : List (Node.Label db Fresh GatewayCall Reply) :=
      [.start (handleMessage "success" env), .run 0 ⟨70, 2, 3, 0⟩, .run 0 ⟨0, 0, 0, 0⟩,
        .run 0 ⟨4, 5, 6, 1⟩]
    ∃ n, LTS.runAct Node.act (Node.idle d₀) run = some n ∧ outcomes 7 n.db ≠ [] ∧
      (outcomes 7 n.db).length ≤ 1 := by
  intro env d₀ run
  let f : Fresh := ⟨70, 2, 3, 0⟩
  let d₁ : Db := ⟨apply (.addPayment (intentRow 7 2500 none f)) d₀.tables,
    Mail.apply (.addProcessed 1) d₀.mail⟩
  let n₁ : State := ⟨d₀, [some (handleMessage "success" env)], []⟩
  let n₂ : State := ⟨d₁, [some (callGateway "success" env 7 25 70)], []⟩
  let success := processPayment "success" 25 none
  let n₃ : State := ⟨d₁, [some (recordOutcome env success 7 70)], [⟨25, none⟩]⟩
  let n₄ : State := ⟨resolved success 7 70 ⟨4, 5, 6, 1⟩ d₁, [some (returned env)], [⟨25, none⟩]⟩
  have h₁ : Node.act (Node.idle d₀) (.start (handleMessage "success" env)) = some n₁ := rfl
  have h₂ : Node.act n₁ (.run 0 f) = some n₂ := by with_unfolding_all rfl
  have h₃ : Node.act n₂ (.run 0 ⟨0, 0, 0, 0⟩) = some n₃ := rfl
  have h₄ : Node.act n₃ (.run 0 ⟨4, 5, 6, 1⟩) = some n₄ := by with_unfolding_all rfl
  have t₁ : OnTime (Node.idle d₀) (.start (handleMessage "success" env)) := by
    rintro i f _ _ _ _ ⟨⟩
  have t₂ : OnTime n₁ (.run 0 f) := by
    rintro i f env' b o pid ⟨⟩ hp
    exact absurd (Option.some.inj (Option.some.inj hp)) (handleMessage_ne_recordOutcome env env')
  have t₃ : OnTime n₂ (.run 0 ⟨0, 0, 0, 0⟩) := by
    rintro i f env' b o pid ⟨⟩ hp
    cases Option.some.inj (Option.some.inj hp)
  have t₄ : OnTime n₃ (.run 0 ⟨4, 5, 6, 1⟩) := by
    rintro i f env' b o pid ⟨⟩ hp
    obtain rfl := recordOutcome_inj (Option.some.inj (Option.some.inj hp))
    decide +kernel
  have r₀ : ((system "success").restrict OnTime).Reachable (Node.idle d₀) :=
    .init ⟨d₀, ⟨rfl, rfl⟩, rfl⟩
  have r₁ : ((system "success").restrict OnTime).Reachable n₁ :=
    r₀.tail ⟨t₁, .inl ⟨env, rfl⟩, h₁⟩
  have r₂ : ((system "success").restrict OnTime).Reachable n₂ := r₁.tail ⟨t₂, trivial, h₂⟩
  have r₃ : ((system "success").restrict OnTime).Reachable n₃ := r₂.tail ⟨t₃, trivial, h₃⟩
  have r₄ : ((system "success").restrict OnTime).Reachable n₄ := r₃.tail ⟨t₄, trivial, h₄⟩
  refine ⟨n₄, ?_, by decide +kernel, outcome_once r₄ 7⟩
  simp only [run, LTS.runAct, h₁, Option.bind_some]
  rw [show (⟨70, 2, 3, 0⟩ : Fresh) = f from rfl, h₂, Option.bind_some, h₃, Option.bind_some, h₄]
  rfl

/-- A payment whose gateway call takes longer than three minutes: a pass resolves it, and the
Transaction 2 that follows publishes a second outcome. -/
theorem outcome_twice :
    let env : Envelope := ⟨1, .stockReserved, 0,
      { orderId := some 7, totalAmount := some 25, paymentSimulate := none }⟩
    let d₀ : Db := ⟨⟨.empty⟩, .empty⟩
    let run : List (Node.Label db Fresh GatewayCall Reply) :=
      [.start (handleMessage "success" env), .run 0 ⟨70, 2, 3, 0⟩, .run 0 ⟨0, 0, 0, 0⟩,
        .start (reconcileStuckPayments "success" 180), .run 1 ⟨4, 5, 6, 240⟩,
        .run 1 ⟨0, 0, 0, 0⟩, .run 1 ⟨7, 8, 9, 240⟩, .run 0 ⟨10, 11, 12, 241⟩]
    ∃ n, LTS.runAct Node.act (Node.idle d₀) run = some n ∧
      (system "success").Reachable n ∧ ¬ (outcomes 7 n.db).length ≤ 1 := by
  intro env d₀ run
  have hrun : ((LTS.runAct Node.act (Node.idle d₀) run).map fun n =>
      (outcomes 7 n.db).length) = some 2 := by decide +kernel
  obtain ⟨n, hn, hlen⟩ := Option.map_eq_some_iff.1 hrun
  refine ⟨n, hn, LTS.reachable_of_runAct ⟨_, ⟨rfl, rfl⟩, rfl⟩ ?_ hn, by omega⟩
  intro s l hl
  simp only [run, List.mem_cons, List.not_mem_nil, or_false] at hl
  rcases hl with rfl | rfl | rfl | rfl | rfl | rfl | rfl | rfl
  exacts [.inl ⟨env, rfl⟩, trivial, trivial, .inr ⟨180, rfl⟩, trivial, trivial, trivial, trivial]

end Payment

end FoodFlow
