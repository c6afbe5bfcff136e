import FoodFlow.Shared.Mail

/-!
# The database of the payment service

The table `payments` (with the common `outbox_events` and `processed_events`) and the statements
on it.
-/

namespace FoodFlow

namespace Payment

/-- The values of `payments.status`. -/
inductive Status where
  | processing
  | succeeded
  | failed
  deriving DecidableEq, Repr

/-- A row of `payments`. -/
structure PaymentRow where
  id : UUID
  orderId : UUID
  /-- In hundredths. -/
  amount : ℤ
  status : Status
  paymentSimulate : Option String
  createdAt : Time
  updatedAt : Time
  deriving DecidableEq, Repr

/-- The tables of the service. -/
structure Tables where
  payments : Table PaymentRow.orderId

/-- What the reconciliation reads of a payment. -/
structure Stuck where
  id : UUID
  orderId : UUID
  amount : ℤ
  paymentSimulate : Option String
  deriving DecidableEq, Repr

/-- The exceptions of the service. -/
inductive Err where
  | sql (e : SqlError)
  | keyError (key : String)
  deriving DecidableEq, Repr

/-! ### Statements -/

/-- The statements on the tables of the service. -/
inductive Stmt where
  /-- `INSERT INTO payments (order_id, amount, status, payment_simulate)
  VALUES ($1, $2, 'PROCESSING', $3) RETURNING id`, the default of `id` being drawn. -/
  | insertPayment (orderId : UUID) (amount : ℚ) (paymentSimulate : Option String) (id : UUID)
      (now : Time)
  /-- `UPDATE payments SET status = $1, updated_at = NOW() WHERE id = $2` -/
  | updateStatus (status : Status) (id : UUID) (now : Time)
  /-- `SELECT id, order_id, amount, payment_simulate FROM payments WHERE status = 'PROCESSING' AND
  updated_at < NOW() - INTERVAL '...'` -/
  | selectStuck (stuckDuration : ℕ) (now : Time)
  /-- `SELECT status FROM payments WHERE id = $1 FOR UPDATE` -/
  | selectStatusForUpdate (id : UUID)

/-- What the statements return. -/
def Stmt.Res : Stmt → Type
  | .insertPayment .. => UUID
  | .updateStatus .. => Unit
  | .selectStuck .. => List Stuck
  | .selectStatusForUpdate _ => Option Status

/-- Changes of the table. -/
inductive Write where
  | addPayment (r : PaymentRow)
  | setStatus (id : UUID) (status : Status) (now : Time)

/-- Values of the primary key and of the unique column of `payments`, and its rows. -/
inductive Lock where
  | id (id : UUID)
  | order (orderId : UUID)
  | row (id : UUID)
  deriving DecidableEq

/-- Whether a payment is stuck. -/
def isStuck (stuckDuration : ℕ) (now : Time) (r : PaymentRow) : Bool :=
  r.status = .processing && r.updatedAt + stuckDuration < now

/-- The columns that the reconciliation selects. -/
def PaymentRow.stuck (r : PaymentRow) : Stuck := ⟨r.id, r.orderId, r.amount, r.paymentSimulate⟩

/-- The row with a given primary key. -/
def Tables.byId? (t : Tables) (id : UUID) : Option PaymentRow :=
  t.payments.rows.find? fun r => r.id = id

/-- The effect of a statement. -/
def exec : (q : Stmt) → Tables → Except Err (q.Res × List Write)
  | .insertPayment orderId amount paymentSimulate id now, t =>
    match decimal amount, varchar? 20 paymentSimulate with
    | none, _ => .error (.sql (.dataError "amount"))
    | _, none => .error (.sql (.dataError "payment_simulate"))
    | some cents, some directive =>
      if (t.byId? id).isSome then .error (.sql (.uniqueViolation "payments_pkey"))
      else if (t.payments.get? orderId).isSome then
        .error (.sql (.uniqueViolation "payments_order_id_key"))
      else .ok (id, [.addPayment ⟨id, orderId, cents, .processing, directive, now, now⟩])
  | .updateStatus status id now, _ => .ok ((), [.setStatus id status now])
  | .selectStuck stuckDuration now, t =>
    .ok ((t.payments.rows.filter (isStuck stuckDuration now)).map PaymentRow.stuck, [])
  | .selectStatusForUpdate id, t => .ok ((t.byId? id).map PaymentRow.status, [])

/-- The effect of a change. -/
def apply : Write → Tables → Tables
  | .addPayment r, t => { t with payments := t.payments.insert r }
  | .setStatus id status now, t =>
    { t with payments := t.payments.update (·.id = id) fun r =>
        { r with status := status, updatedAt := now } }

/-- What a statement has to own: the values it puts into unique columns, and the rows it locks. -/
def needs : Stmt → Tables → List Lock
  | .insertPayment orderId _ _ id _, _ => [.id id, .order orderId]
  | .updateStatus _ id _, t | .selectStatusForUpdate id, t =>
    if (t.byId? id).isSome then [.row id] else []
  | .selectStuck _ _, _ => []

/-- The tables of the service as a database of their own. -/
abbrev tables : Dbms where
  Db := Tables
  Stmt := Stmt
  Res := Stmt.Res
  Write := Write
  Lock := Lock
  Err := Err
  exec := exec
  apply := apply
  needs := needs

/-- The payment database. -/
abbrev db : Dbms := tables.withMail .sql

/-- The contents of the payment database. -/
abbrev Db := WithMail Tables

/-! ### Statements as programs, and their execution in isolation -/

def insertPayment (orderId : UUID) (amount : ℚ) (paymentSimulate : Option String) (f : Fresh) :
    Tx db UUID :=
  Mail.own tables (.insertPayment orderId amount paymentSimulate f.id f.now)

def updateStatus (status : Status) (id : UUID) (f : Fresh) : Tx db Unit :=
  Mail.own tables (.updateStatus status id f.now)

def selectStuck (stuckDuration : ℕ) (f : Fresh) : Tx db (List Stuck) :=
  Mail.own tables (.selectStuck stuckDuration f.now)

def selectStatusForUpdate (id : UUID) : Tx db (Option Status) :=
  Mail.own tables (.selectStatusForUpdate id)

variable {α : Type} (d : Db) (saved : List Db)

theorem eval_updateStatus (status : Status) (id : UUID) (f : Fresh) (k : Unit → Tx db α) :
    ((updateStatus status id f).bind k).eval d saved =
      (k ()).eval { d with tables := apply (.setStatus id status f.now) d.tables } saved :=
  rfl

theorem eval_selectStuck (stuckDuration : ℕ) (f : Fresh) (k : List Stuck → Tx db α) :
    ((selectStuck stuckDuration f).bind k).eval d saved =
      (k ((d.tables.payments.rows.filter (isStuck stuckDuration f.now)).map
        PaymentRow.stuck)).eval d saved :=
  rfl

theorem eval_selectStatusForUpdate (id : UUID) (k : Option Status → Tx db α) :
    ((selectStatusForUpdate id).bind k).eval d saved =
      (k ((d.tables.byId? id).map PaymentRow.status)).eval d saved :=
  rfl

/-- An `INSERT` into `payments` that is not refused. -/
theorem eval_insertPayment (orderId : UUID) (amount : ℚ) (paymentSimulate : Option String)
    (f : Fresh) (k : UUID → Tx db α) :
    (∃ e, ((insertPayment orderId amount paymentSimulate f).bind k).eval d saved = .failed e) ∨
      ∃ cents directive, decimal amount = some cents ∧
        varchar? 20 paymentSimulate = some directive ∧ d.tables.byId? f.id = none ∧
        d.tables.payments.get? orderId = none ∧
        ((insertPayment orderId amount paymentSimulate f).bind k).eval d saved =
          (k f.id).eval { d with tables := apply (.addPayment
            ⟨f.id, orderId, cents, .processing, directive, f.now, f.now⟩) d.tables } saved := by
  have he : ((insertPayment orderId amount paymentSimulate f).bind k).eval d saved = _ :=
    Mail.eval_own _ _ _ _
  cases hc : decimal amount with
  | none =>
    simp only [exec, hc] at he
    exact .inl ⟨_, he⟩
  | some cents =>
    cases hv : varchar? 20 paymentSimulate with
    | none =>
      simp only [exec, hc, hv] at he
      exact .inl ⟨_, he⟩
    | some directive =>
      simp only [exec, hc, hv] at he
      split_ifs at he with h₁ h₂
      · exact .inl ⟨_, he⟩
      · exact .inl ⟨_, he⟩
      · exact .inr ⟨cents, directive, rfl, rfl, by simpa using h₁, by simpa using h₂, he⟩

end Payment

end FoodFlow
