import FoodFlow.Payment.Basic
import FoodFlow.Shared.Http

/-!
# What the payment service says of a payment

`GET /payments/order/{order_id}`, which asks for no token.
-/

namespace FoodFlow

namespace Payment

/-- `PaymentResponse` -/
structure PaymentResponse where
  id : String
  orderId : String
  amount : ℚ
  status : Status
  createdAt : Time
  updatedAt : Time
  deriving DecidableEq, Repr

/-- The answer with the contents of a row. -/
def paymentResponse (p : PaymentRow) : PaymentResponse where
  id := uuidStr p.id
  orderId := uuidStr p.orderId
  amount := (p.amount : ℚ) / 100
  status := p.status
  createdAt := p.createdAt
  updatedAt := p.updatedAt

/-- `get_payment_status` -/
def getPaymentStatus (orderId : UUID) (t : Tables) : Except HttpError PaymentResponse :=
  match t.payments.get? orderId with
  | none => .error ⟨404, "Payment not found"⟩
  | some row => .ok (paymentResponse row)

variable {o : UUID} {t : Tables} {response : PaymentResponse}

theorem getPaymentStatus_eq_ok : getPaymentStatus o t = .ok response ↔
    ∃ p, t.payments.get? o = some p ∧ response = paymentResponse p := by
  unfold getPaymentStatus
  cases t.payments.get? o with
  | none => simp
  | some p => simp [eq_comm]

theorem getPaymentStatus_eq_error {e : HttpError} : getPaymentStatus o t = .error e ↔
    t.payments.get? o = none ∧ e = ⟨404, "Payment not found"⟩ := by
  unfold getPaymentStatus
  cases t.payments.get? o with
  | none => simp [eq_comm]
  | some p => simp

end Payment

end FoodFlow
