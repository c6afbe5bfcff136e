import FoodFlow.Payment.Consumers

/-!
# The reconciliation worker

`reconcile_stuck_payments` as a process: it selects the payments that are stuck, and for each of
them calls the gateway with the stored directive and, in a transaction of its own, writes the
outcome if the payment is still in the state `PROCESSING`.
-/

namespace FoodFlow

namespace Payment

/-- The decision of the loop for a payment. -/
def Stuck.success (dflt : String) (s : Stuck) : Bool :=
  processPayment dflt ((s.amount : ℚ) / 100) s.paymentSimulate

/-- The transaction for one payment, where `next` is the rest of the loop from a count. -/
def settleTx (dflt : String) (payment : Stuck) (next : ℕ → Process) (reconciledCount : ℕ)
    (f : Fresh) : Tx db Process := do
  let currentStatus ← selectStatusForUpdate payment.id
  if currentStatus ≠ some .processing then pure (next reconciledCount)
  else do
    writeOutcome (payment.success dflt) payment.orderId payment.id f
    pure (next (reconciledCount + 1))

/-- A pass that ends with an exception. -/
def passError (e : Err) : Process := .done (.reconciled (.error e))

/-- The loop of `reconcile_stuck_payments`. -/
def reconcileLoop (dflt : String) : List Stuck → ℕ → Process
  | [], reconciledCount => .done (.reconciled (.ok reconciledCount))
  | payment :: payments, reconciledCount =>
    .call ⟨(payment.amount : ℚ) / 100, payment.paymentSimulate⟩
      (.txn (settleTx dflt payment (reconcileLoop dflt payments) reconciledCount) passError)

/-- The selection of the stuck payments. -/
def selectTx (dflt : String) (stuckDuration : ℕ) (f : Fresh) : Tx db Process := do
  let stuckPayments ← selectStuck stuckDuration f
  pure (reconcileLoop dflt stuckPayments 0)

/-- `reconcile_stuck_payments`, with the `stuck_duration` in seconds. -/
def reconcileStuckPayments (dflt : String) (stuckDuration : ℕ) : Process :=
  .txn (selectTx dflt stuckDuration) passError

variable {dflt : String} {f : Fresh} {d d' : Db} {p : Process} {s : Stuck} {n : ℕ}

/-- What a transaction of the loop has done when it commits. -/
theorem settleTx_ok {next : ℕ → Process}
    (hrun : (settleTx dflt s next n f).run d = .ok (p, d')) :
    (∃ m, p = next m) ∧ (d' = d ∨
      ((d.tables.byId? s.id).map PaymentRow.status = some .processing ∧
        d.mail.outbox.get? f.rowId = none ∧
        d' = resolved (s.success dflt) s.orderId s.id f d)) := by
  obtain ⟨saved', h⟩ := Tx.run_eq_ok.1 hrun
  clear hrun
  rw [settleTx, Tx.bind_def, eval_selectStatusForUpdate] at h
  split_ifs at h with hs
  · cases h
    exact ⟨⟨n, rfl⟩, .inl rfl⟩
  · rw [Tx.bind_def, Tx.eval_bind] at h
    split at h
    · rename_i a d₁ saved₁ hw
      obtain ⟨rfl, hr, rfl⟩ := writeOutcome_ok hw
      cases h
      exact ⟨⟨n + 1, rfl⟩, .inr ⟨not_not.1 hs, hr, rfl⟩⟩
    · cases h
    · cases h

/-- What the selection of the stuck payments gives. -/
theorem selectTx_ok {stuckDuration : ℕ}
    (hrun : (selectTx dflt stuckDuration f).run d = .ok (p, d')) :
    d' = d ∧ p = reconcileLoop dflt
      ((d.tables.payments.rows.filter (isStuck stuckDuration f.now)).map PaymentRow.stuck) 0 := by
  obtain ⟨saved', h⟩ := Tx.run_eq_ok.1 hrun
  rw [selectTx, Tx.bind_def, eval_selectStuck] at h
  cases h
  exact ⟨rfl, rfl⟩

end Payment

end FoodFlow
