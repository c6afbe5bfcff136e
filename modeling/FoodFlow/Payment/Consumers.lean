import FoodFlow.Payment.Basic
import FoodFlow.Payment.Gateway

/-!
# The consumer of the payment service

`_handle_message` as a process: Transaction 1 records the intent to pay and marks the event as
processed, the gateway is called, Transaction 2 records the outcome and publishes it.
-/

namespace FoodFlow

namespace Payment

/-- What a process of the service ends with. -/
inductive Reply where
  /-- A delivery: its envelope, and the exception that was logged, if any. -/
  | handled (envelope : Envelope) (result : Except Err Unit)
  /-- A reconciliation pass: the number of payments resolved, or the exception. -/
  | reconciled (result : Except Err ℕ)

/-- The processes of the service. -/
abbrev Process := Proc db Fresh GatewayCall Reply

/-- A delivery that returns. -/
def returned (env : Envelope) : Process := .done (.handled env (.ok ()))

/-- The status for what the gateway answers. -/
def statusOf (success : Bool) : Status := if success then .succeeded else .failed

/-- The event for what the gateway answers. -/
def topicOf (success : Bool) : EventType := if success then .paymentSucceeded else .paymentFailed

/-- Setting the status of a payment and publishing its outcome: what Transaction 2 and the
reconciliation have in common. -/
def writeOutcome (success : Bool) (orderId paymentId : UUID) (f : Fresh) : Tx db Unit := do
  updateStatus (statusOf success) paymentId f
  Mail.insertOutbox (topicOf success) orderId
    (wrapEvent (topicOf success) { orderId := some orderId } f) f

/-- Transaction 2. -/
def outcomeTx (env : Envelope) (success : Bool) (orderId paymentId : UUID) (f : Fresh) :
    Tx db Process := do
  writeOutcome success orderId paymentId f
  pure (returned env)

/-- The process that is about to run Transaction 2. -/
def recordOutcome (env : Envelope) (success : Bool) (orderId paymentId : UUID) : Process :=
  .txn (outcomeTx env success orderId paymentId) fun e => .done (.handled env (.error e))

/-- The gateway call, and what follows it. -/
def callGateway (dflt : String) (env : Envelope) (orderId : UUID) (amount : ℚ)
    (paymentId : UUID) : Process :=
  .call ⟨amount, env.payload.paymentSimulate⟩
    (recordOutcome env (processPayment dflt amount env.payload.paymentSimulate) orderId paymentId)

/-- Transaction 1. -/
def recordIntent (dflt : String) (env : Envelope) (orderId : UUID) (amount : ℚ) (f : Fresh) :
    Tx db Process := do
  let existing ← Mail.selectProcessed env.eventId
  if existing then pure (returned env)
  else do
    let paymentId ← insertPayment orderId amount env.payload.paymentSimulate f
    Mail.insertProcessed env.eventId
    pure (callGateway dflt env orderId amount paymentId)

/-- What `_handle_message` does with an exception of Transaction 1: a second payment for the order
is skipped. -/
def intentError (env : Envelope) : Err → Process
  | .sql (.uniqueViolation c) =>
    if c = "payments_order_id_key" then returned env
    else .done (.handled env (.error (.sql (.uniqueViolation c))))
  | e => .done (.handled env (.error e))

/-- `_handle_message`. -/
def handleMessage (dflt : String) (env : Envelope) : Process :=
  match env.payload.orderId with
  | none => .done (.handled env (.error (.keyError "order_id")))
  | some orderId =>
    match env.payload.totalAmount with
    | none => .done (.handled env (.error (.keyError "total_amount")))
    | some amount => .txn (recordIntent dflt env orderId amount) (intentError env)

/-! ### What a committed transaction has done -/

/-- The outbox row with an outcome. -/
def outcomeRow (success : Bool) (orderId : UUID) (f : Fresh) : OutboxRow :=
  ⟨f.rowId, topicOf success, orderId,
    wrapEvent (topicOf success) { orderId := some orderId } f, f.now, none⟩

/-- The database after the outcome of a payment has been written. -/
def resolved (success : Bool) (orderId paymentId : UUID) (f : Fresh) (d : Db) : Db where
  tables := apply (.setStatus paymentId (statusOf success) f.now) d.tables
  mail := Mail.apply (.addOutbox (outcomeRow success orderId f)) d.mail

/-- The row that Transaction 1 inserts. -/
def intentRow (orderId : UUID) (cents : ℤ) (directive : Option String) (f : Fresh) : PaymentRow :=
  ⟨f.id, orderId, cents, .processing, directive, f.now, f.now⟩

variable {dflt : String} {env : Envelope} {o pid : UUID} {success : Bool} {f : Fresh} {d d' : Db}
  {p : Process}

theorem writeOutcome_ok {saved saved' : List Db}
    (h : (writeOutcome success o pid f).eval d saved = .ok () d' saved') :
    saved' = saved ∧ d.mail.outbox.get? f.rowId = none ∧ d' = resolved success o pid f d := by
  simp only [writeOutcome, Tx.bind_def, eval_updateStatus] at h
  rw [Mail.eval_insertOutbox_pure] at h
  split_ifs at h with hr
  cases h
  exact ⟨rfl, by simpa using hr, rfl⟩

/-- **What Transaction 1 has done when it commits**: nothing, or the payment is recorded and the
gateway is to be called. -/
theorem recordIntent_ok {amount : ℚ}
    (hrun : (recordIntent dflt env o amount f).run d = .ok (p, d')) :
    (env.eventId ∈ d.mail.processed ∧ p = returned env ∧ d' = d) ∨
      ∃ cents directive, decimal amount = some cents ∧
        varchar? 20 env.payload.paymentSimulate = some directive ∧
        env.eventId ∉ d.mail.processed ∧ d.tables.byId? f.id = none ∧
        d.tables.payments.get? o = none ∧
        p = callGateway dflt env o amount f.id ∧
        d' = ⟨apply (.addPayment (intentRow o cents directive f)) d.tables,
          Mail.apply (.addProcessed env.eventId) d.mail⟩ := by
  obtain ⟨saved', h⟩ := Tx.run_eq_ok.1 hrun
  clear hrun
  simp only [recordIntent, Tx.bind_def, Mail.eval_selectProcessed, decide_eq_true_eq] at h
  split_ifs at h with hp
  · cases h
    exact .inl ⟨hp, rfl, rfl⟩
  · rcases eval_insertPayment d [] o amount env.payload.paymentSimulate f fun paymentId =>
      (Mail.insertProcessed env.eventId).bind fun _ =>
        pure (callGateway dflt env o amount paymentId) with
      ⟨e, he⟩ | ⟨cents, directive, hc, hv, hid, ho, he⟩
    · rw [he] at h
      cases h
    · rw [he, Mail.eval_insertProcessed] at h
      split_ifs at h
      cases h
      exact .inr ⟨cents, directive, hc, hv, hp, hid, ho, rfl, rfl⟩

/-- What Transaction 2 has done when it commits. -/
theorem outcomeTx_ok (hrun : (outcomeTx env success o pid f).run d = .ok (p, d')) :
    p = returned env ∧ d.mail.outbox.get? f.rowId = none ∧ d' = resolved success o pid f d := by
  obtain ⟨saved', h⟩ := Tx.run_eq_ok.1 hrun
  rw [outcomeTx, Tx.bind_def, Tx.eval_bind] at h
  split at h
  · rename_i a d₁ saved₁ hw
    obtain ⟨rfl, hr, rfl⟩ := writeOutcome_ok hw
    cases h
    exact ⟨rfl, hr, rfl⟩
  · cases h
  · cases h

theorem intentError_done (env : Envelope) (e : Err) : ∃ r, intentError env e = .done r := by
  unfold intentError
  split
  · split_ifs <;> exact ⟨_, rfl⟩
  · exact ⟨_, rfl⟩

end Payment

end FoodFlow
