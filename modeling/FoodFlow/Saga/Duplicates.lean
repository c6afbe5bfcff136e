import FoodFlow.Order.Consumers
import FoodFlow.Restaurant.Consumers
import FoodFlow.Payment.Consumers

/-!
# Concurrent deliveries of one envelope

The three consumers, statement by statement, when any number of deliveries of the same envelope
run at the same time.

* `Order.handleMessage_absorbing` and its like: each handler either has nothing to do or commits
  by entering the event into the ledger;
* `Order.handleMessage_determined` and its like: what a single delivery leaves does not depend on
  the ids and times that it draws, but for these ids and times themselves;
* `Saga.duplicates_absorbed` : **all the deliveries together leave what one of them leaves**, and
  the gateway has been called at most once.
-/

namespace FoodFlow

/-! ### The order service -/

namespace Order

theorem handleBody_quiet_or_guarded (env : Envelope) (f : Fresh) :
    (handleBody env f).Quiet ∨
      (handleBody env f).Guarded (Mail.ledger tables .sql env.eventId).claim := by
  -- the entry into the ledger comes last on every path that commits
  have mark : (markProcessed env).Guarded (Mail.ledger tables .sql env.eventId).claim :=
    Mail.insertProcessed_guarded _
  unfold handleBody
  split
  · exact .inr trivial
  · split
    · exact .inr (Tx.guarded_bind fun _ => mark)
    · exact .inr (Tx.guarded_bind fun _ => Tx.guarded_bind fun _ => mark)
    · exact .inr (Tx.guarded_bind fun _ => mark)
    · exact .inl ⟨_, rfl⟩

theorem handleMessage_absorbing (env : Envelope) :
    (Mail.ledger tables .sql env.eventId).Absorbing (handleMessage env) :=
  .txn (Mail.protects (fun _ => rfl) (handleBody_quiet_or_guarded env) fun _ => ⟨_, rfl⟩)

/-- The database without ids of events and times of changes. -/
def forget (d : Db) : List OrderRow × List OutboxRow × List UUID :=
  (d.tables.orders.rows.map fun r => { r with updatedAt := 0 }, d.mail.forget)

variable {env : Envelope} {d : Db} {f : Fresh} {o : UUID} {target : Status}

/-- A transition, and what follows it when that commits. -/
theorem after_transition {rest : Tx db Process} {p : Process} {d' : Db} {saved' : List Db}
    (ht : target ≠ .pending)
    (hrest : rest.eval { d with tables := apply (.setStatus o target f.now) d.tables } [] =
      .ok p d' saved') :
    ((transitionOrder o target f).bind fun _ => rest).after d =
      if d.tables.status o = some .pending then d' else d := by
  rw [Tx.after, Tx.run, Tx.eval_bind, transitionOrder, Tx.bind_def, eval_selectStatusForUpdate]
  cases hs : d.tables.status o with
  | none => rfl
  | some current =>
    simp only [mem_allowedTransitions, ht, ne_eq, not_false_eq_true, and_true, ite_not,
      Option.some.injEq]
    split_ifs
    · have he : (updateStatus target o f).eval d [] =
          .ok () { d with tables := apply (.setStatus o target f.now) d.tables } [] := rfl
      rw [he]
      simp only [hrest]
      rfl
    · rfl

theorem eval_markProcessed (he : env.eventId ∉ d.mail.processed) :
    (markProcessed env).eval d [] =
      .ok (returned env) ⟨d.tables, Mail.apply (.addProcessed env.eventId) d.mail⟩ [] := by
  rw [markProcessed, Tx.bind_def, Mail.eval_insertProcessed, if_neg he]
  rfl

theorem eval_releaseAndMark (he : env.eventId ∉ d.mail.processed) (hf : d.FreshRow f) :
    (releaseAndMark env o f).eval d [] =
      .ok (returned env) ⟨d.tables, transitioned env o .paymentFailed f d.mail⟩ [] := by
  have hr : ¬ (d.mail.outbox.get? f.rowId).isSome = true := by simp [show _ = _ from hf]
  rw [releaseAndMark, Tx.bind_def, Mail.eval_insertOutbox, if_neg hr]
  exact eval_markProcessed he

/-- What a delivery leaves. -/
theorem after_handleTx (hf : d.FreshRow f) : (handleTx env f).after d =
    if env.eventId ∈ d.mail.processed then d
    else match env.payload.orderId, targetOf env.eventType with
      | some o, some target =>
        if d.tables.status o = some .pending then
          ⟨apply (.setStatus o target f.now) d.tables, transitioned env o target f d.mail⟩
        else d
      | _, _ => d := by
  have hcheck : (handleTx env f).after d =
      if env.eventId ∈ d.mail.processed then d else (handleBody env f).after d :=
    Mail.after_check _ _ _ _
  rw [hcheck]
  split_ifs with he
  · rfl
  · unfold handleBody
    cases env.payload.orderId with
    | none => rfl
    | some o =>
      cases env.eventType with
      | paymentSucceeded => exact after_transition (by decide) (eval_markProcessed he)
      | paymentFailed => exact after_transition (by decide) (eval_releaseAndMark he hf)
      | stockRejected => exact after_transition (by decide) (eval_markProcessed he)
      | orderPlaced => rfl
      | stockReserved => rfl
      | stockRelease => rfl
      | other name => rfl

theorem forget_setStatus (now now' : Time) (t : Tables) :
    (apply (.setStatus o target now) t).orders.rows.map (fun r => { r with updatedAt := 0 }) =
      (apply (.setStatus o target now') t).orders.rows.map fun r => { r with updatedAt := 0 } := by
  simp only [apply, Table.update, List.map_map]
  refine List.map_congr_left fun r _ => ?_
  by_cases hr : r.id = o <;> simp [hr]

theorem forget_transitioned (hf : d.FreshRow f) :
    (transitioned env o target f d.mail).forget =
      (d.mail.forget.1 ++
        (if target = .paymentFailed then [(releaseRow o ⟨0, 0, 0, 0⟩).forget] else []),
        env.eventId :: d.mail.processed) := by
  rw [transitioned, Mail.forget_addProcessed]
  split_ifs
  · rw [Mail.forget_addOutbox (r := releaseRow o f) hf]
    rfl
  · rw [List.append_nil]

theorem handleMessage_determined (env : Envelope) :
    Proc.Determined WithMail.FreshRow forget (handleMessage env) := by
  refine .of_txn (fun d f p d' hrun => ⟨_, (handleTx_ok hrun).1⟩) (fun e => ⟨_, rfl⟩) ?_
  intro d f f' hf hf'
  rw [after_handleTx hf, after_handleTx hf']
  split_ifs
  · rfl
  · cases env.payload.orderId with
    | none => rfl
    | some o =>
      cases targetOf env.eventType with
      | none => rfl
      | some target =>
        simp only
        split_ifs
        · simp only [forget, forget_setStatus f.now f'.now, forget_transitioned hf,
            forget_transitioned hf']
        · rfl

end Order

/-! ### The restaurant service -/

namespace Restaurant

theorem handleBody_quiet_or_guarded (env : Envelope) (f : Fresh) :
    (handleBody env f).Quiet ∨
      (handleBody env f).Guarded (Mail.ledger tables .sql env.eventId).claim := by
  have mark : (markProcessed env).Guarded (Mail.ledger tables .sql env.eventId).claim :=
    Mail.insertProcessed_guarded _
  unfold handleBody
  split
  · exact .inr trivial
  · split
    · split
      · exact .inr trivial
      · refine .inr (Tx.guarded_nested (fun _ => Tx.guarded_bind fun _ => mark) fun e => ?_)
        split
        · exact Tx.guarded_bind fun _ => mark
        · trivial
    · exact .inr (Tx.guarded_bind fun _ => mark)
    · exact .inl ⟨_, rfl⟩

theorem handleMessage_absorbing (env : Envelope) :
    (Mail.ledger tables .sql env.eventId).Absorbing (handleMessage env) :=
  .txn (Mail.protects (fun _ => rfl) (handleBody_quiet_or_guarded env) (handleError_done env))

/-- The database without ids and times of events. -/
def forget (d : Db) : Tables × List OutboxRow × List UUID := (d.tables, d.mail.forget)

variable {env : Envelope} {d : Db} {f f' : Fresh} {o : UUID}

/-- What a delivery leaves when it publishes an event. -/
theorem forget_published {ty : EventType} {payload : Payload} {t : Tables} (hf : d.FreshRow f) :
    forget ⟨t, marked env (Mail.apply (.addOutbox (outRow ty o payload f)) d.mail)⟩ =
      (t, d.mail.forget.1 ++ [(outRow ty o payload ⟨0, 0, 0, 0⟩).forget],
        env.eventId :: d.mail.processed) := by
  simp only [forget, marked, Mail.forget_addProcessed]
  rw [Mail.forget_addOutbox (r := outRow ty o payload f) hf]
  rfl

theorem forget_after_handleBody (he : env.eventId ∉ d.mail.processed) (hf : d.FreshRow f)
    (hf' : d.FreshRow f') :
    forget ((handleBody env f).after d) = forget ((handleBody env f').after d) := by
  unfold handleBody
  split
  · rfl
  · rename_i o ho
    split
    · split
      · rfl
      · -- what the reservation does does not depend on what is drawn
        rename_i items hitems
        simp only [Tx.after, Tx.run, Tx.eval_nested (flat_reserveStock o items)]
        cases hres : (reserveStock o items).eval d [] with
        | ok a d₁ saved₁ =>
          obtain ⟨rfl, -, t, rfl, -⟩ := reserveStock_ok hres
          have hpub : ∀ f, d.FreshRow f →
              (publishAndMark env .stockReserved o env.payload f).eval ⟨t, d.mail⟩ [] = _ :=
            fun f hf => eval_publishAndMark (d := ⟨t, d.mail⟩) he hf
          simp only [hpub f hf, hpub f' hf', Tx.Outcome.toExcept]
          rw [forget_published hf, forget_published hf']
        | thrown e =>
          obtain ⟨⟨x, rfl⟩, -⟩ := reserveStock_thrown hres
          simp only [eval_publishAndMark he hf, eval_publishAndMark he hf', Tx.Outcome.toExcept]
          rw [forget_published hf, forget_published hf']
        | failed e => rfl
    · rfl
    · rfl

theorem handleMessage_determined (env : Envelope) :
    Proc.Determined WithMail.FreshRow forget (handleMessage env) := by
  refine .of_txn (fun d f p d' hrun => ⟨_, (handleTx_ok hrun).1⟩) (handleError_done env) ?_
  intro d f f' hf hf'
  have hcheck : ∀ f, (handleTx env f).after d =
      if env.eventId ∈ d.mail.processed then d else (handleBody env f).after d :=
    fun _ => Mail.after_check _ _ _ _
  rw [hcheck f, hcheck f']
  split_ifs with he
  · rfl
  · exact forget_after_handleBody he hf hf'

end Restaurant

/-! ### The payment service -/

namespace Payment

/-- A delivery whose envelope is not complete has nothing to do. -/
theorem handleMessage_eq (dflt : String) (env : Envelope) :
    (∃ r, handleMessage dflt env = .done r) ∨ ∃ o amount,
      handleMessage dflt env = .txn (recordIntent dflt env o amount) (intentError env) := by
  unfold handleMessage
  split
  · exact .inl ⟨_, rfl⟩
  · split
    · exact .inl ⟨_, rfl⟩
    · exact .inr ⟨_, _, rfl⟩

theorem handleMessage_absorbing (dflt : String) (env : Envelope) :
    (Mail.ledger tables .sql env.eventId).Absorbing (handleMessage dflt env) := by
  rcases handleMessage_eq dflt env with ⟨r, hr⟩ | ⟨o, amount, hm⟩
  · rw [hr]
    exact .done r
  · rw [hm]
    refine .txn (Mail.protects (fun _ => rfl) (fun f => .inr ?_) (intentError_done env))
    exact Tx.guarded_bind fun _ => Mail.insertProcessed_guarded _

/-- The ids of the payment and of the outbox row are new. -/
def FreshIn (d : Db) (f : Fresh) : Prop :=
  d.tables.byId? f.id = none ∧ d.mail.outbox.get? f.rowId = none

/-- A payment without its id and times. -/
def PaymentRow.forget (r : PaymentRow) : PaymentRow :=
  { r with id := 0, createdAt := 0, updatedAt := 0 }

/-- The database without ids and times of payments and events. -/
def forget (d : Db) : List PaymentRow × List OutboxRow × List UUID :=
  (d.tables.payments.rows.map PaymentRow.forget, d.mail.forget)

variable {dflt : String} {env : Envelope} {d d' : Db} {f f' : Fresh} {o : UUID} {amount : ℚ}
  {cents : ℤ} {directive : Option String} {success : Bool}

/-- Transaction 1 records the payment: its values can be stored, and neither the event nor the
order has been seen. -/
structure Recordable (d : Db) (env : Envelope) (o : UUID) (amount : ℚ) (cents : ℤ)
    (directive : Option String) : Prop where
  cents : decimal amount = some cents
  directive : varchar? 20 env.payload.paymentSimulate = some directive
  event : env.eventId ∉ d.mail.processed
  order : d.tables.payments.get? o = none

/-- The database when the payment has been recorded. -/
def withIntent (d : Db) (env : Envelope) (o : UUID) (cents : ℤ) (directive : Option String)
    (f : Fresh) : Db :=
  ⟨apply (.addPayment (intentRow o cents directive f)) d.tables,
    Mail.apply (.addProcessed env.eventId) d.mail⟩

theorem run_recordIntent (h : Recordable d env o amount cents directive) (hf : FreshIn d f) :
    (recordIntent dflt env o amount f).run d =
      .ok (callGateway dflt env o amount f.id, withIntent d env o cents directive f) := by
  simp only [Tx.run, recordIntent, Tx.bind_def, Mail.eval_selectProcessed, h.event,
    decide_false, Bool.false_eq_true, if_false]
  have he : ((insertPayment o amount env.payload.paymentSimulate f).bind fun paymentId =>
      (Mail.insertProcessed env.eventId).bind fun _ =>
        pure (callGateway dflt env o amount paymentId)).eval d [] = _ := Mail.eval_own _ _ _ _
  rw [he]
  simp only [exec, h.cents, h.directive, hf.1, h.order, Option.isSome_none, Bool.false_eq_true,
    if_false]
  rw [Mail.eval_insertProcessed, if_neg h.event]
  rfl

theorem run_outcomeTx {pid : UUID} (hf : d.mail.outbox.get? f.rowId = none) :
    (outcomeTx env success o pid f).run d = .ok (returned env, resolved success o pid f d) := by
  have hw : (writeOutcome success o pid f).eval d [] = .ok () (resolved success o pid f d) [] := by
    simp only [writeOutcome, Tx.bind_def, eval_updateStatus]
    rw [Mail.eval_insertOutbox_pure, if_neg (by simp [hf])]
    rfl
  rw [Tx.run, outcomeTx, Tx.bind_def, Tx.eval_bind, hw]
  rfl

/-- What both transactions leave. -/
theorem forget_resolved (h : Recordable d env o amount cents directive) (hf : FreshIn d f)
    (hf' : d.mail.outbox.get? f'.rowId = none) :
    forget (resolved success o f.id f' (withIntent d env o cents directive f)) =
      (d.tables.payments.rows.map PaymentRow.forget ++
        [⟨0, o, cents, statusOf success, directive, 0, 0⟩],
        d.mail.forget.1 ++ [(outcomeRow success o ⟨0, 0, 0, 0⟩).forget],
        env.eventId :: d.mail.processed) := by
  have hrows : (apply (.setStatus f.id (statusOf success) f'.now)
      (withIntent d env o cents directive f).tables).payments.rows.map PaymentRow.forget =
        d.tables.payments.rows.map PaymentRow.forget ++
          [⟨0, o, cents, statusOf success, directive, 0, 0⟩] := by
    -- the `UPDATE` by id reaches the new payment only
    have hold : ∀ r ∈ d.tables.payments.rows, r.id ≠ f.id := by
      intro r hr he
      exact List.find?_eq_none.1 hf.1 r hr (by simpa using he)
    simp only [apply, withIntent, Table.update, Table.rows_insert (t := d.tables.payments)
      (r := intentRow o cents directive f) h.order, List.map_append, List.map_map]
    congr 1
    · refine List.map_congr_left fun r hr => ?_
      simp [hold r hr]
    · simp [intentRow, PaymentRow.forget]
  have hmail : (Mail.apply (.addOutbox (outcomeRow success o f'))
      (withIntent d env o cents directive f).mail).forget = _ :=
    Mail.forget_addOutbox (r := outcomeRow success o f') hf'
  rw [forget, resolved, hrows, hmail]
  rfl

/-- What a delivery whose envelope is complete leaves, and the calls it makes. -/
theorem finishes_recordIntent {r : Reply} {os : List GatewayCall}
    (h : Proc.Finishes FreshIn d (.txn (recordIntent dflt env o amount) (intentError env))
      d' r os) :
    ((¬ ∃ cents directive, Recordable d env o amount cents directive) ∧ d' = d ∧ os = []) ∨
      ∃ cents directive f f', Recordable d env o amount cents directive ∧ FreshIn d f ∧
        d.mail.outbox.get? f'.rowId = none ∧
        d' = resolved (processPayment dflt amount env.payload.paymentSimulate) o f.id f'
          (withIntent d env o cents directive f) ∧
        os = [⟨amount, env.payload.paymentSimulate⟩] := by
  obtain ⟨f, hf, ⟨p, d₁, hrun, hp⟩ | ⟨x, hrun, hp⟩⟩ := h.of_txn
  · rcases recordIntent_ok hrun with
      ⟨he, rfl, rfl⟩ | ⟨cents, directive, hc, hv, he, -, ho, rfl, rfl⟩
    · obtain ⟨hd, -, hos⟩ := hp.of_done
      exact .inl ⟨fun ⟨_, _, hrec⟩ => hrec.event he, hd, hos⟩
    · obtain ⟨os', rfl, hcall⟩ := hp.of_call
      obtain ⟨f', hf', hend⟩ := hcall.of_txn
      rw [run_outcomeTx hf'.2] at hend
      obtain ⟨p, d₂, hp₂, hdone⟩ | ⟨x, hx, -⟩ := hend
      · cases hp₂
        obtain ⟨rfl, -, rfl⟩ := hdone.of_done
        exact .inr ⟨cents, directive, f, f', ⟨hc, hv, he, ho⟩, hf, hf'.2, rfl, rfl⟩
      · cases hx
  -- a Transaction 1 that is refused writes nothing
  · obtain ⟨r', hr'⟩ := intentError_done env x
    rw [hr'] at hp
    obtain ⟨hd, -, hos⟩ := hp.of_done
    refine .inl ⟨?_, hd, hos⟩
    rintro ⟨cents, directive, hrec⟩
    rw [run_recordIntent hrec hf] at hrun
    cases hrun

/-- The calls of a single delivery: at most one. -/
theorem finishes_calls {r : Reply} {os : List GatewayCall}
    (h : Proc.Finishes FreshIn d (handleMessage dflt env) d' r os) : os.length ≤ 1 := by
  rcases handleMessage_eq dflt env with ⟨r, hr⟩ | ⟨o, amount, hm⟩
  · rw [hr] at h
    obtain ⟨-, -, rfl⟩ := h.of_done
    exact Nat.zero_le _
  · rw [hm] at h
    rcases finishes_recordIntent h with ⟨-, -, rfl⟩ | ⟨_, _, _, _, -, -, -, -, rfl⟩
    · exact Nat.zero_le _
    · exact Nat.le_refl _

theorem handleMessage_determined (dflt : String) (env : Envelope) :
    Proc.Determined FreshIn forget (handleMessage dflt env) := by
  rcases handleMessage_eq dflt env with ⟨r, hr⟩ | ⟨o, amount, hm⟩
  · rw [hr]
    intro d d₁ d₂ r₁ r₂ os₁ os₂ h₁ h₂
    obtain ⟨rfl, -, rfl⟩ := h₁.of_done
    obtain ⟨rfl, -, rfl⟩ := h₂.of_done
    exact ⟨rfl, rfl⟩
  · rw [hm]
    intro d d₁ d₂ r₁ r₂ os₁ os₂ h₁ h₂
    rcases finishes_recordIntent h₁ with
      ⟨hnot, rfl, rfl⟩ | ⟨c₁, v₁, f₁, f₁', hrec₁, hf₁, hf₁', rfl, rfl⟩
    · rcases finishes_recordIntent h₂ with ⟨-, rfl, rfl⟩ | ⟨c₂, v₂, _, _, hrec₂, -⟩
      · exact ⟨rfl, rfl⟩
      · exact absurd ⟨c₂, v₂, hrec₂⟩ hnot
    · rcases finishes_recordIntent h₂ with
        ⟨hnot, -⟩ | ⟨c₂, v₂, f₂, f₂', hrec₂, hf₂, hf₂', rfl, rfl⟩
      · exact absurd ⟨c₁, v₁, hrec₁⟩ hnot
      · obtain rfl := Option.some.inj (hrec₁.cents.symm.trans hrec₂.cents)
        obtain rfl := Option.some.inj (hrec₁.directive.symm.trans hrec₂.directive)
        rw [forget_resolved hrec₁ hf₁ hf₁', forget_resolved hrec₂ hf₂ hf₂']
        exact ⟨rfl, rfl⟩

end Payment

namespace Saga

/-- **Concurrent duplicates are absorbed.**  For each of the three consumers, any tables, any
envelope and any interleaving of the statements of any number of deliveries of it: once all of
them have ended, the tables are those that one delivery leaves (and they all leave the same, up to
new ids and timestamps), and the gateway has been called at most once. -/
theorem duplicates_absorbed (dflt : String) (env : Envelope) :
    (Order.handleMessage env).Absorbs WithMail.FreshRow Order.forget ∧
    (Restaurant.handleMessage env).Absorbs WithMail.FreshRow Restaurant.forget ∧
    (Payment.handleMessage dflt env).Absorbs Payment.FreshIn Payment.forget ∧
    ∀ d w, (World.lts (World.Rules.deliveries Payment.FreshIn (Payment.handleMessage dflt env))
      (· = d)).Reachable w → w.Ended → w.calls.length ≤ 1 := by
  have hpay := (Payment.handleMessage_absorbing dflt env).determined
    (Payment.handleMessage_determined dflt env)
  refine ⟨?_, ?_, hpay, fun d w hr hend => ?_⟩
  · exact (Order.handleMessage_absorbing env).determined (Order.handleMessage_determined env)
  · exact (Restaurant.handleMessage_absorbing env).determined
      (Restaurant.handleMessage_determined env)
  · obtain ⟨r, hfin⟩ := (hpay d w hr hend).1
    exact Payment.finishes_calls hfin

/-- Two deliveries of an event in each of two services.  The two of an `order.placed` event both
find the ledger without it, and both deduct the stock: the second is stopped by the unique
constraint of the reservations and rolled back.  The two of a `stock.reserved` event both find the
ledger without it: the second has to wait for the first to commit its payment, is stopped by the
unique constraint of the payments, and does not call the gateway. -/
theorem duplicates_absorbed_twice :
    let d : Restaurant.Db := ⟨⟨Table.empty.insert ⟨1, 5⟩, .empty⟩, .empty⟩
    let env : Envelope := ⟨11, .orderPlaced, 0, { orderId := some 7, items := some [⟨1, 2, 10⟩] }⟩
    let run : List (World.Label Restaurant.db Fresh Empty Restaurant.Handled) :=
      [.start (Restaurant.handleMessage env), .start (Restaurant.handleMessage env),
        .begin 0 ⟨0, 3, 4, 0⟩, .begin 1 ⟨0, 5, 6, 0⟩, .step 0, .step 1] ++
        List.replicate 8 (.step 0) ++ List.replicate 4 (.step 1)
    let d' : Payment.Db := ⟨⟨.empty⟩, .empty⟩
    let env' : Envelope := ⟨12, .stockReserved, 0, { orderId := some 7, totalAmount := some 20 }⟩
    let handle : Payment.Process := Payment.handleMessage "success" env'
    let run' : List (World.Label Payment.db Fresh Payment.GatewayCall Payment.Reply) :=
      [.start handle, .start handle, .begin 0 ⟨70, 0, 0, 0⟩, .begin 1 ⟨71, 0, 0, 0⟩,
        .step 0, .step 1, .step 0, .step 0, .step 0, .step 1, .step 0, .begin 0 ⟨0, 3, 4, 0⟩,
        .step 0, .step 0, .step 0]
    (∃ w, (World.lts (World.Rules.deliveries WithMail.FreshRow (Restaurant.handleMessage env))
        (· = d)).Run (World.idle d) run w ∧ w.Ended ∧ w.db.tables.quantity 1 = some 3 ∧
      ∃ r, (Restaurant.handleMessage env).Finishes WithMail.FreshRow d w.db r w.calls) ∧
    ∃ w, (World.lts (World.Rules.deliveries Payment.FreshIn handle) (· = d')).Run
        (World.idle d') run' w ∧ w.Ended ∧
      w.db.tables.payments.rows.map (·.status) = [.succeeded] ∧ w.calls.length = 1 ∧
      ∃ r, handle.Finishes Payment.FreshIn d' w.db r w.calls := by
  intro d env run d' env' handle run'
  constructor
  · let check (d : Restaurant.db.Db) (f : Fresh) : Bool := (d.mail.outbox.get? f.rowId).isNone
    have hrun : (LTS.runAct (fun w l => if World.checksDraw check w l then World.act w l else none)
        (World.idle d) run).map (fun w => (w.db.tables.quantity 1, w.slots.length,
          w.slots.all Slot.returned)) = some (some 3, 2, true) := by decide +kernel
    obtain ⟨w, hw, hobs⟩ := Option.map_eq_some_iff.1 hrun
    obtain ⟨hquantity, hobs⟩ := Prod.mk.inj hobs
    obtain ⟨hlength, hreturned⟩ := Prod.mk.inj hobs
    have hr : (World.lts (World.Rules.deliveries WithMail.FreshRow (Restaurant.handleMessage env))
        (· = d)).Run (World.idle d) run w :=
      World.run_deliveries (fun _ _ hc => Option.isNone_iff_eq_none.1 hc) (by simp [run])
        (by simp [run]) hw
    have hend : w.Ended := .of_returned (fun hnil => by simp [hnil] at hlength) hreturned
    obtain ⟨-, habsorbs, -⟩ := duplicates_absorbed "success" env
    exact ⟨w, hr, hend, hquantity, (habsorbs d w ⟨_, _, ⟨d, rfl, rfl⟩, hr⟩ hend).1⟩
  · let check (d : Payment.db.Db) (f : Fresh) : Bool :=
      (d.tables.byId? f.id).isNone && (d.mail.outbox.get? f.rowId).isNone
    have hrun : (LTS.runAct (fun w l => if World.checksDraw check w l then World.act w l else none)
        (World.idle d') run').map (fun w => (w.db.tables.payments.rows.map (·.status),
          decide (1 ≤ w.calls.length), w.slots.length, w.slots.all Slot.returned)) =
        some ([.succeeded], true, 2, true) := by decide +kernel
    obtain ⟨w, hw, hobs⟩ := Option.map_eq_some_iff.1 hrun
    obtain ⟨hstatus, hobs⟩ := Prod.mk.inj hobs
    obtain ⟨hcalls, hobs⟩ := Prod.mk.inj hobs
    obtain ⟨hlength, hreturned⟩ := Prod.mk.inj hobs
    have hr : (World.lts (World.Rules.deliveries Payment.FreshIn handle) (· = d')).Run
        (World.idle d') run' w :=
      World.run_deliveries (fun _ _ hc => by simpa [check, Payment.FreshIn] using hc)
        (by simp [run']) (by simp [run']) hw
    have hend : w.Ended := .of_returned (fun hnil => by simp [hnil] at hlength) hreturned
    have hreach : (World.lts (World.Rules.deliveries Payment.FreshIn handle)
        (· = d')).Reachable w := ⟨_, _, ⟨d', rfl, rfl⟩, hr⟩
    obtain ⟨-, -, habsorbs, hcall⟩ := duplicates_absorbed "success" env'
    exact ⟨w, hr, hend, hstatus, le_antisymm (hcall d' w hreach hend) (of_decide_eq_true hcalls),
      (habsorbs d' w hreach hend).1⟩

end Saga

end FoodFlow
