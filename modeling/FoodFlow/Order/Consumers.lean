import FoodFlow.Order.StateMachine
import FoodFlow.Order.Routes

/-!
# The consumer of the order service

`_handle_message` as a process of one transaction, and what its transaction can do to the
database when it commits (`Effect`, `handleTx_ok`).
-/

namespace FoodFlow

namespace Order

/-- A delivery that returns. -/
def returned (env : Envelope) : Process := .done (.handled env (.ok ()))

/-- A delivery that ends with an exception. -/
def handleError (env : Envelope) (e : Err) : Process := .done (.handled env (.error e))

/-- Mark as processed, commit and return. -/
def markProcessed (env : Envelope) : Tx db Process := do
  Mail.insertProcessed env.eventId
  pure (returned env)

/-- The compensation of a failed payment, then mark as processed. -/
def releaseAndMark (env : Envelope) (orderId : UUID) (f : Fresh) : Tx db Process := do
  Mail.insertOutbox .stockRelease orderId
    (wrapEvent .stockRelease { orderId := some orderId } f) f
  markProcessed env

/-- The business logic of `_handle_message`. -/
def handleBody (env : Envelope) (f : Fresh) : Tx db Process :=
  match env.payload.orderId with
  | none => .throw (Err.keyError "order_id")
  | some orderId =>
    match env.eventType with
    | .paymentSucceeded => do
      transitionOrder orderId .confirmed f
      markProcessed env
    | .paymentFailed => do
      transitionOrder orderId .paymentFailed f
      releaseAndMark env orderId f
    | .stockRejected => do
      transitionOrder orderId .stockUnavailable f
      markProcessed env
    | _ => pure (returned env)

/-- The transaction of `_handle_message`. -/
def handleTx (env : Envelope) (f : Fresh) : Tx db Process := do
  let existing ← Mail.selectProcessed env.eventId
  if existing then pure (returned env)
  else handleBody env f

/-- `_handle_message`. -/
def handleMessage (env : Envelope) : Process := .txn (handleTx env) (handleError env)

/-! ### What a committed transaction has done -/

/-- The status to which an event takes its order. -/
def targetOf : EventType → Option Status
  | .paymentSucceeded => some .confirmed
  | .paymentFailed => some .paymentFailed
  | .stockRejected => some .stockUnavailable
  | _ => none

/-- The outbox row with the compensation of an order. -/
def releaseRow (orderId : UUID) (f : Fresh) : OutboxRow :=
  ⟨f.rowId, .stockRelease, orderId, wrapEvent .stockRelease { orderId := some orderId } f, f.now,
    none⟩

/-- The mail after a transition to `target`: a failed payment publishes the compensation. -/
def transitioned (env : Envelope) (orderId : UUID) (target : Status) (f : Fresh) (m : Mail) :
    Mail :=
  Mail.apply (.addProcessed env.eventId)
    (if target = .paymentFailed then Mail.apply (.addOutbox (releaseRow orderId f)) m else m)

/-- The effects of a committed transaction of `_handle_message`. -/
inductive Effect (env : Envelope) (f : Fresh) (d : Db) : Db → Prop
  /-- The event had been processed. -/
  | duplicate : env.eventId ∈ d.mail.processed → Effect env f d d
  /-- The event is of no interest. -/
  | unknown : targetOf env.eventType = none → Effect env f d d
  /-- The order has left `PENDING`. -/
  | transition (o target) : env.payload.orderId = some o → targetOf env.eventType = some target →
      env.eventId ∉ d.mail.processed → d.tables.status o = some .pending →
      (target = .paymentFailed → d.mail.outbox.get? f.rowId = none) →
      Effect env f d ⟨apply (.setStatus o target f.now) d.tables,
        transitioned env o target f d.mail⟩

variable {env : Envelope} {f : Fresh} {d d' : Db} {saved saved' : List Db} {p : Process} {o : UUID}

theorem markProcessed_ok (h : (markProcessed env).eval d saved = .ok p d' saved') :
    p = returned env ∧ env.eventId ∉ d.mail.processed ∧
      d' = { d with mail := Mail.apply (.addProcessed env.eventId) d.mail } := by
  simp only [markProcessed, Tx.bind_def, Mail.eval_insertProcessed] at h
  split_ifs at h with he
  cases h
  exact ⟨rfl, he, rfl⟩

theorem releaseAndMark_ok (h : (releaseAndMark env o f).eval d saved = .ok p d' saved') :
    p = returned env ∧ env.eventId ∉ d.mail.processed ∧ d.mail.outbox.get? f.rowId = none ∧
      d' = { d with mail := transitioned env o .paymentFailed f d.mail } := by
  simp only [releaseAndMark, Tx.bind_def, Mail.eval_insertOutbox] at h
  split_ifs at h with hr
  obtain ⟨hp, he, hd⟩ := markProcessed_ok h
  exact ⟨hp, he, by simpa using hr, hd⟩

/-- A transition, followed by `rest`. -/
theorem transition_bind_ok {target : Status} {rest : Tx db Process}
    (h : ((transitionOrder o target f).bind fun _ => rest).eval d saved = .ok p d' saved') :
    d.tables.status o = some .pending ∧ target ≠ .pending ∧
      rest.eval { d with tables := apply (.setStatus o target f.now) d.tables } saved =
        .ok p d' saved' := by
  rw [Tx.eval_bind] at h
  split at h
  · rename_i a d₁ saved₁ ht
    obtain ⟨rfl, hs, hne, rfl⟩ := transitionOrder_ok ht
    exact ⟨hs, hne, h⟩
  · cases h
  · cases h

/-- What the business logic has done when it returns. -/
theorem handleBody_ok (h : (handleBody env f).eval d saved = .ok p d' saved') :
    p = returned env ∧ Effect env f d d' := by
  unfold handleBody at h
  split at h
  · cases h
  · rename_i o ho
    split at h
    · rename_i hty
      obtain ⟨hs, -, h⟩ := transition_bind_ok h
      obtain ⟨rfl, hp, rfl⟩ := markProcessed_ok h
      exact ⟨rfl, .transition o .confirmed ho (by rw [hty]; rfl) hp hs (by simp)⟩
    · rename_i hty
      obtain ⟨hs, -, h⟩ := transition_bind_ok h
      obtain ⟨rfl, hp, hr, rfl⟩ := releaseAndMark_ok h
      exact ⟨rfl, .transition o .paymentFailed ho (by rw [hty]; rfl) hp hs fun _ => hr⟩
    · rename_i hty
      obtain ⟨hs, -, h⟩ := transition_bind_ok h
      obtain ⟨rfl, hp, rfl⟩ := markProcessed_ok h
      exact ⟨rfl, .transition o .stockUnavailable ho (by rw [hty]; rfl) hp hs (by simp)⟩
    · rename_i h₁ h₂ h₃
      cases h
      refine ⟨rfl, .unknown ?_⟩
      generalize env.eventType = ty at h₁ h₂ h₃
      cases ty <;> first | rfl | exact absurd rfl h₁ | exact absurd rfl h₂ | exact absurd rfl h₃

theorem targetOf_ne_pending {ty : EventType} {target : Status} (h : targetOf ty = some target) :
    target ≠ .pending := by
  rintro rfl
  cases ty <;> cases h

/-- **What a transaction of `_handle_message` has done when it commits.** -/
theorem handleTx_ok (hrun : (handleTx env f).run d = .ok (p, d')) :
    p = returned env ∧ Effect env f d d' := by
  obtain ⟨saved', h⟩ := Tx.run_eq_ok.1 hrun
  simp only [handleTx, Tx.bind_def, Mail.eval_selectProcessed, decide_eq_true_eq] at h
  split_ifs at h with hp
  · cases h
    exact ⟨rfl, .duplicate hp⟩
  · exact handleBody_ok h

/-- A transition followed by `rest`, which refuses no transition, does so because the order has
left `PENDING`. -/
theorem transition_bind_refused {target current requested : Status} {rest : Tx db Process}
    (ht : target ≠ .pending)
    (hrest : ∀ d' x, rest.run d' = .error x → x ≠ .invalidTransition current requested)
    (h : ((transitionOrder o target f).bind fun _ => rest).run d =
      .error (.invalidTransition current requested)) :
    d.tables.status o = some current ∧ current ≠ .pending := by
  rw [Tx.run, Tx.eval_bind] at h
  split at h
  · rename_i a d₁ saved₁ hok
    obtain ⟨rfl, -⟩ := transitionOrder_ok hok
    exact absurd rfl (hrest d₁ _ h)
  · rename_i e he
    cases h
    rcases transitionOrder_thrown he with ⟨-, hx⟩ | ⟨current', hs, hna, hx⟩
    · cases hx
    · cases hx
      -- from `PENDING` the transition would be allowed
      exact ⟨hs, fun hc => hna (mem_allowedTransitions.2 ⟨hc, ht⟩)⟩
  · rename_i e he
    cases h
    rw [transitionOrder, Tx.bind_def, eval_selectStatusForUpdate] at he
    cases hs : d.tables.status o with
    | none => rw [hs] at he; cases he
    | some s =>
      rw [hs] at he
      simp only at he
      split_ifs at he <;> cases he

theorem markProcessed_error {x : Err} {current requested : Status}
    (h : (markProcessed env).run d = .error x) : x ≠ .invalidTransition current requested := by
  rintro rfl
  simp only [Tx.run, markProcessed, Tx.bind_def, Mail.eval_insertProcessed] at h
  split_ifs at h <;> cases h

theorem releaseAndMark_error {x : Err} {current requested : Status}
    (h : (releaseAndMark env o f).run d = .error x) :
    x ≠ .invalidTransition current requested := by
  simp only [Tx.run, releaseAndMark, Tx.bind_def, Mail.eval_insertOutbox] at h
  split_ifs at h
  · cases h
    simp
  · exact markProcessed_error h

/-- **An event is refused because its order has left `PENDING`.** -/
theorem handleTx_refused {current requested : Status}
    (h : (handleTx env f).run d = .error (.invalidTransition current requested)) :
    ∃ o, env.payload.orderId = some o ∧ d.tables.status o = some current ∧
      current ≠ .pending := by
  simp only [Tx.run, handleTx, Tx.bind_def, Mail.eval_selectProcessed, decide_eq_true_eq] at h
  split_ifs at h with he
  · cases h
  · have hbody : (handleBody env f).run d = .error (.invalidTransition current requested) := h
    unfold handleBody at hbody
    split at hbody
    · cases hbody
    · rename_i o ho
      refine ⟨o, ho, ?_⟩
      split at hbody
      · exact transition_bind_refused (by decide) (fun _ _ => markProcessed_error) hbody
      · exact transition_bind_refused (by decide) (fun _ _ => releaseAndMark_error) hbody
      · exact transition_bind_refused (by decide) (fun _ _ => markProcessed_error) hbody
      · cases hbody

end Order

end FoodFlow
