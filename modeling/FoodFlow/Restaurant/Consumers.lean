import FoodFlow.Restaurant.Stock

/-!
# The consumer of the restaurant service

`_handle_message` as a process of one transaction, and what its transaction can do to the
database when it commits (`Effect`, `handleTx_ok`).
-/

namespace FoodFlow

namespace Restaurant

/-- What a delivery ends with: its envelope, and the exception that was logged, if any. -/
structure Handled where
  envelope : Envelope
  result : Except Err Unit

/-- The processes of the service. -/
abbrev Process := Proc db Fresh Empty Handled

/-- A delivery that returns. -/
def returned (env : Envelope) : Process := .done ⟨env, .ok ()⟩

/-- Mark as processed, commit and return. -/
def markProcessed (env : Envelope) : Tx db Process := do
  Mail.insertProcessed env.eventId
  pure (returned env)

/-- Publish an event about the order `orderId`, then mark as processed. -/
def publishAndMark (env : Envelope) (eventType : EventType) (orderId : UUID) (payload : Payload)
    (f : Fresh) : Tx db Process := do
  Mail.insertOutbox eventType orderId (wrapEvent eventType payload f) f
  markProcessed env

/-- The business logic of `_handle_message`. -/
def handleBody (env : Envelope) (f : Fresh) : Tx db Process :=
  match env.payload.orderId with
  | none => .throw (Err.keyError "order_id")
  | some orderId =>
    match env.eventType with
    | .orderPlaced =>
      match env.payload.items with
      | none => .throw (Err.keyError "items")
      | some items =>
        Tx.nested (reserveStock orderId items)
          (fun _ => publishAndMark env .stockReserved orderId env.payload f)
          fun
            | Err.insufficientStock e =>
              publishAndMark env .stockRejected orderId
                { orderId := some orderId, reason := some e.str } f
            | e => .throw e
    | .stockRelease => do
      releaseStock orderId
      markProcessed env
    | _ => pure (returned env)

/-- The transaction of `_handle_message`. -/
def handleTx (env : Envelope) (f : Fresh) : Tx db Process := do
  let existing ← Mail.selectProcessed env.eventId
  if existing then pure (returned env)
  else handleBody env f

/-- What `_handle_message` does with an exception of its transaction: the violation of the unique
constraint of `stock_reservations` is swallowed. -/
def handleError (env : Envelope) : Err → Process
  | .sql (.uniqueViolation c) =>
    if c = "stock_reservations_order_id_key" then returned env
    else .done ⟨env, .error (.sql (.uniqueViolation c))⟩
  | e => .done ⟨env, .error e⟩

/-- `_handle_message`. -/
def handleMessage (env : Envelope) : Process := .txn (handleTx env) (handleError env)

/-! ### What a committed transaction has done -/

/-- The tables `m` with the event in the ledger. -/
def marked (env : Envelope) (m : Mail) : Mail := Mail.apply (.addProcessed env.eventId) m

/-- The outbox row that a handler writes. -/
def outRow (eventType : EventType) (orderId : UUID) (payload : Payload) (f : Fresh) : OutboxRow :=
  ⟨f.rowId, eventType, orderId, wrapEvent eventType payload f, f.now, none⟩

/-- The effects of a committed transaction of `_handle_message`. -/
inductive Effect (env : Envelope) (f : Fresh) (d : Db) : Db → Prop
  /-- The event had been processed. -/
  | duplicate : env.eventId ∈ d.mail.processed → Effect env f d d
  /-- The event is of no interest. -/
  | unknown : env.eventType ≠ .orderPlaced → env.eventType ≠ .stockRelease → Effect env f d d
  /-- The order was placed, and its stock is reserved. -/
  | reserved {o items t} : env.eventType = .orderPlaced → env.payload.orderId = some o →
      env.payload.items = some items → env.eventId ∉ d.mail.processed →
      Reserves o items d.tables t → d.mail.outbox.get? f.rowId = none →
      Effect env f d ⟨t, marked env
        (Mail.apply (.addOutbox (outRow .stockReserved o env.payload f)) d.mail)⟩
  /-- The order was placed, and some item was short. -/
  | rejected {o items reason} : env.eventType = .orderPlaced → env.payload.orderId = some o →
      env.payload.items = some items → isShort items d.tables →
      env.eventId ∉ d.mail.processed → d.mail.outbox.get? f.rowId = none →
      Effect env f d ⟨d.tables, marked env (Mail.apply (.addOutbox
        (outRow .stockRejected o { orderId := some o, reason := some reason } f)) d.mail)⟩
  /-- The reservation of the order was released. -/
  | released {o items t} : env.eventType = .stockRelease → env.payload.orderId = some o →
      env.eventId ∉ d.mail.processed → Releases o items d.tables t →
      Effect env f d ⟨t, marked env d.mail⟩
  /-- There was no reservation to release. -/
  | notFound {o} : env.eventType = .stockRelease → env.payload.orderId = some o →
      env.eventId ∉ d.mail.processed → d.tables.reservations.get? o = none →
      Effect env f d ⟨d.tables, marked env d.mail⟩

variable {env : Envelope} {f : Fresh} {d d' : Db} {saved saved' : List Db} {p : Process}

theorem markProcessed_ok (h : (markProcessed env).eval d saved = .ok p d' saved') :
    p = returned env ∧ env.eventId ∉ d.mail.processed ∧
      d' = { d with mail := marked env d.mail } := by
  simp only [markProcessed, Tx.bind_def, Mail.eval_insertProcessed] at h
  split_ifs at h with he
  cases h
  exact ⟨rfl, he, rfl⟩

theorem publishAndMark_ok {ty : EventType} {o : UUID} {payload : Payload}
    (h : (publishAndMark env ty o payload f).eval d saved = .ok p d' saved') :
    p = returned env ∧ env.eventId ∉ d.mail.processed ∧ d.mail.outbox.get? f.rowId = none ∧
      d' = { d with
        mail := marked env (Mail.apply (.addOutbox (outRow ty o payload f)) d.mail) } := by
  simp only [publishAndMark, Tx.bind_def, Mail.eval_insertOutbox] at h
  split_ifs at h with hr
  obtain ⟨hp, he, hd⟩ := markProcessed_ok h
  exact ⟨hp, he, by simpa using hr, hd⟩

theorem eval_markProcessed (he : env.eventId ∉ d.mail.processed) :
    (markProcessed env).eval d [] = .ok (returned env) ⟨d.tables, marked env d.mail⟩ [] := by
  rw [markProcessed, Tx.bind_def, Mail.eval_insertProcessed, if_neg he]
  rfl

theorem eval_publishAndMark {ty : EventType} {o : UUID} {payload : Payload}
    (he : env.eventId ∉ d.mail.processed) (hf : d.FreshRow f) :
    (publishAndMark env ty o payload f).eval d [] = .ok (returned env)
      ⟨d.tables, marked env (Mail.apply (.addOutbox (outRow ty o payload f)) d.mail)⟩ [] := by
  have hr : ¬ (d.mail.outbox.get? f.rowId).isSome = true := by simp [show _ = _ from hf]
  rw [publishAndMark, Tx.bind_def, Mail.eval_insertOutbox, if_neg hr]
  exact eval_markProcessed he

/-- What the business logic has done when it returns. -/
theorem handleBody_ok (h : (handleBody env f).eval d [] = .ok p d' saved') :
    p = returned env ∧ Effect env f d d' := by
  unfold handleBody at h
  split at h
  · cases h
  · rename_i o ho
    split at h
    · rename_i hty
      split at h
      · cases h
      · rename_i items hitems
        -- the block with the savepoint: the reservation, or nothing of it
        rw [Tx.eval_nested (flat_reserveStock o items)] at h
        split at h
        · rename_i a d₁ saved₁ hres
          obtain ⟨rfl, -, t, rfl, ht⟩ := reserveStock_ok hres
          obtain ⟨rfl, hp, hr, rfl⟩ := publishAndMark_ok h
          exact ⟨rfl, .reserved hty ho hitems hp ht hr⟩
        · rename_i e hres
          obtain ⟨⟨x, rfl⟩, hshort⟩ := reserveStock_thrown hres
          obtain ⟨rfl, hp, hr, rfl⟩ := publishAndMark_ok h
          exact ⟨rfl, .rejected hty ho hitems hshort hp hr⟩
        · cases h
    · rename_i hty
      rw [Tx.bind_def, Tx.eval_bind] at h
      split at h
      · rename_i a d₁ saved₁ hrel
        obtain ⟨rfl, ⟨rfl, hnone⟩ | ⟨items, t, rfl, ht⟩⟩ := releaseStock_ok hrel
        · obtain ⟨rfl, hp, rfl⟩ := markProcessed_ok h
          exact ⟨rfl, .notFound hty ho hp hnone⟩
        · obtain ⟨rfl, hp, rfl⟩ := markProcessed_ok h
          exact ⟨rfl, .released hty ho hp ht⟩
      · cases h
      · cases h
    · rename_i h₁ h₂
      cases h
      exact ⟨rfl, .unknown h₁ h₂⟩

/-- **What a transaction of `_handle_message` has done when it commits.** -/
theorem handleTx_ok (hrun : (handleTx env f).run d = .ok (p, d')) :
    p = returned env ∧ Effect env f d d' := by
  obtain ⟨saved', h⟩ := Tx.run_eq_ok.1 hrun
  simp only [handleTx, Tx.bind_def, Mail.eval_selectProcessed, decide_eq_true_eq] at h
  split_ifs at h with hp
  · cases h
    exact ⟨rfl, .duplicate hp⟩
  · exact handleBody_ok h

/-- A handler that raises has ended. -/
theorem handleError_done (env : Envelope) (e : Err) : ∃ r, handleError env e = .done r := by
  unfold handleError
  split
  · split_ifs <;> exact ⟨_, rfl⟩
  · exact ⟨_, rfl⟩

end Restaurant

end FoodFlow
