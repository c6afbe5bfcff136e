import FoodFlow.Python.Float
import FoodFlow.Shared.Mail

/-!
# The database of the order service

The table `orders` (with the common `outbox_events` and `processed_events`) and the statements on
it.
-/

namespace FoodFlow

namespace Order

/-- The values of `orders.status`. -/
inductive Status where
  | pending
  | confirmed
  | paymentFailed
  | stockUnavailable
  deriving DecidableEq, Repr

/-- A row of `orders`. -/
structure OrderRow where
  id : UUID
  userId : UUID
  restaurantId : UUID
  items : List Item
  /-- In hundredths. -/
  totalAmount : ℤ
  status : Status
  paymentSimulate : Option String
  idempotencyKey : Option String
  createdAt : Time
  updatedAt : Time
  deriving DecidableEq, Repr

/-- The tables of the service. -/
structure Tables where
  orders : Table OrderRow.id

/-- The status of an order. -/
def Tables.status (t : Tables) (o : UUID) : Option Status := (t.orders.get? o).map OrderRow.status

/-- The exceptions of the service. -/
inductive Err where
  | sql (e : SqlError)
  | keyError (key : String)
  /-- `ValueError`: the order does not exist. -/
  | valueError (orderId : UUID)
  /-- `InvalidTransitionError` -/
  | invalidTransition (current target : Status)
  /-- `OverflowError`: an `int` that is too large for a `float`. -/
  | overflowError
  deriving DecidableEq, Repr

/-! ### Lines of an order as they are submitted -/

/-- `OrderItem`. -/
structure OrderItem where
  itemId : UUID
  quantity : ℤ
  price : PyFloat
  deriving DecidableEq, Repr

/-- The line as JSON, in which every number is finite. -/
def OrderItem.json? (item : OrderItem) : Option Item :=
  item.price.value?.map fun price => ⟨item.itemId, item.quantity, price⟩

/-- The line that has been written as JSON. -/
def OrderItem.of (item : Item) : OrderItem := ⟨item.itemId, item.quantity, .finite item.price⟩

/-- `items_data` as JSON. -/
def itemsData (items : List OrderItem) : Option (List Item) := items.mapM OrderItem.json?

theorem OrderItem.json?_eq_some {x : OrderItem} {item : Item} :
    x.json? = some item ↔ OrderItem.of item = x := by
  obtain ⟨itemId, quantity, price⟩ := x
  obtain ⟨itemId', quantity', price'⟩ := item
  cases price with
  | finite price => simp [json?, of, PyFloat.value?, eq_comm]
  | inf s => simp [json?, of, PyFloat.value?]
  | nan => simp [json?, of, PyFloat.value?]

/-- Nothing of the lines is lost. -/
theorem itemsData_eq_some {items : List OrderItem} {data : List Item} :
    itemsData items = some data ↔ data.map OrderItem.of = items := by
  induction items generalizing data with
  | nil => simp [itemsData, eq_comm]
  | cons x items ih =>
    have hcons : itemsData (x :: items) =
        x.json?.bind fun y => (itemsData items).bind fun ys => some (y :: ys) := by
      rw [itemsData, List.mapM_cons]
      rfl
    rw [hcons]
    cases data with
    | nil => cases x.json? <;> cases itemsData items <;> simp
    | cons item data =>
      rw [List.map_cons, List.cons.injEq, ← ih, ← OrderItem.json?_eq_some]
      cases x.json? <;> cases itemsData items <;> simp

/-! ### Statements -/

/-- The parameters of the `INSERT` into `orders`. -/
structure NewOrder where
  id : UUID
  userId : UUID
  restaurantId : UUID
  items : List OrderItem
  totalAmount : PyFloat
  paymentSimulate : Option String
  idempotencyKey : Option String

/-- The statements on the tables of the service. -/
inductive Stmt where
  /-- `SELECT id, status FROM orders WHERE idempotency_key = $1 AND user_id = $2` -/
  | selectByKey (key : String) (userId : UUID)
  /-- `INSERT INTO orders (...) VALUES ($1, $2, $3, $4, $5, 'PENDING', $6, $7)` -/
  | insertOrder (o : NewOrder) (now : Time)
  /-- `SELECT status FROM orders WHERE id = $1 FOR UPDATE` -/
  | selectStatusForUpdate (id : UUID)
  /-- `UPDATE orders SET status = $1, updated_at = NOW() WHERE id = $2` -/
  | updateStatus (status : Status) (id : UUID) (now : Time)

/-- What the statements return. -/
def Stmt.Res : Stmt → Type
  | .selectByKey .. => Option (UUID × Status)
  | .selectStatusForUpdate _ => Option Status
  | _ => Unit

/-- Changes of the table. -/
inductive Write where
  | addOrder (r : OrderRow)
  | setStatus (id : UUID) (status : Status) (now : Time)

/-- Values of the primary key and of the unique column of `orders`, and its rows. -/
inductive Lock where
  | id (id : UUID)
  | key (key : String)
  | row (id : UUID)
  deriving DecidableEq

/-- The order with a given key. -/
def Tables.byKey? (t : Tables) (key : String) : Option OrderRow :=
  t.orders.rows.find? fun r => r.idempotencyKey = some key

/-- The order with a given key that belongs to a given user. -/
def Tables.byKeyAndUser? (t : Tables) (key : String) (userId : UUID) : Option OrderRow :=
  t.orders.rows.find? fun r => r.idempotencyKey = some key ∧ r.userId = userId

/-- The row that an `INSERT` stores, if its columns can hold the values. -/
def NewOrder.row? (o : NewOrder) (now : Time) : Except SqlError OrderRow :=
  -- a total of NaN would be stored, but not the event, in which it is written as JSON
  match itemsData o.items, o.totalAmount.value?.bind decimal, varchar? 20 o.paymentSimulate,
    varchar? 255 o.idempotencyKey with
  | none, _, _, _ => .error (.dataError "items")
  | _, none, _, _ => .error (.dataError "total_amount")
  | _, _, none, _ => .error (.dataError "payment_simulate")
  | _, _, _, none => .error (.dataError "idempotency_key")
  | some items, some cents, some directive, some key =>
    .ok ⟨o.id, o.userId, o.restaurantId, items, cents, .pending, directive, key, now, now⟩

/-- The unique constraint that a new row violates. -/
def Tables.violates? (t : Tables) (r : OrderRow) : Option String :=
  if (t.orders.get? r.id).isSome then some "orders_pkey"
  else if (r.idempotencyKey.bind t.byKey?).isSome then some "orders_idempotency_key_key"
  else none

/-- The effect of a statement. -/
def exec : (q : Stmt) → Tables → Except Err (q.Res × List Write)
  | .selectByKey key userId, t =>
    if isText key then
      .ok ((t.byKeyAndUser? key userId).map fun r => (r.id, r.status), [])
    else .error (.sql (.dataError "idempotency_key"))
  | .insertOrder o now, t =>
    match o.row? now with
    | .error e => .error (.sql e)
    | .ok r =>
      match t.violates? r with
      | some constraint => .error (.sql (.uniqueViolation constraint))
      | none => .ok ((), [.addOrder r])
  | .selectStatusForUpdate id, t => .ok (t.status id, [])
  | .updateStatus status id now, _ => .ok ((), [.setStatus id status now])

/-- The effect of a change. -/
def apply : Write → Tables → Tables
  | .addOrder r, t => { t with orders := t.orders.insert r }
  | .setStatus id status now, t =>
    { t with orders := t.orders.update (·.id = id) fun r =>
        { r with status := status, updatedAt := now } }

/-- What a statement has to own: the values it puts into unique columns, and the rows it locks. -/
def needs : Stmt → Tables → List Lock
  | .selectByKey _ _, _ => []
  | .insertOrder o _, _ => .id o.id :: ((varchar? 255 o.idempotencyKey).join.map Lock.key).toList
  | .selectStatusForUpdate id, t | .updateStatus _ id _, t =>
    if (t.status id).isSome then [.row id] else []

/-- The tables of the service as a database of their own. -/
abbrev tables : Dbms where
  Db := Tables
  Stmt := Stmt
  Res := Stmt.Res
  Write := Write
  Lock := Lock
  Err := Err
  exec := exec
  apply := apply
  needs := needs

/-- The order database. -/
abbrev db : Dbms := tables.withMail .sql

/-- The contents of the order database. -/
abbrev Db := WithMail Tables

/-! ### Orders after a change of status -/

section

variable {t : Tables} {o o' : UUID} {target : Status} {now : Time} {r' : OrderRow}

theorem get?_setStatus :
    (apply (.setStatus o target now) t).orders.get? o' = (t.orders.get? o').map fun r =>
      if r.id = o then { r with status := target, updatedAt := now } else r := by
  show (t.orders.update (·.id = o) fun r =>
    { r with status := target, updatedAt := now }).get? o' = _
  rw [Table.get?_update]
  simp only [decide_eq_true_eq]

theorem mem_rows_setStatus :
    r' ∈ (apply (.setStatus o target now) t).orders.rows ↔ ∃ r ∈ t.orders.rows,
      (if r.id = o then { r with status := target, updatedAt := now } else r) = r' := by
  change r' ∈ (t.orders.update (·.id = o) fun r =>
    { r with status := target, updatedAt := now }).rows ↔ _
  rw [Table.mem_rows_update]
  simp only [decide_eq_true_eq]

end

/-! ### Statements as programs, and their execution in isolation -/

def selectByKey (key : String) (userId : UUID) : Tx db (Option (UUID × Status)) :=
  Mail.own tables (.selectByKey key userId)

def insertOrder (o : NewOrder) (f : Fresh) : Tx db Unit :=
  Mail.own tables (.insertOrder o f.now)

def selectStatusForUpdate (id : UUID) : Tx db (Option Status) :=
  Mail.own tables (.selectStatusForUpdate id)

def updateStatus (status : Status) (id : UUID) (f : Fresh) : Tx db Unit :=
  Mail.own tables (.updateStatus status id f.now)

variable {α : Type} (d : Db) (saved : List Db)

theorem eval_selectStatusForUpdate (id : UUID) (k : Option Status → Tx db α) :
    ((selectStatusForUpdate id).bind k).eval d saved = (k (d.tables.status id)).eval d saved :=
  rfl

theorem eval_selectByKey (key : String) (userId : UUID)
    (k : Option (UUID × Status) → Tx db α) :
    ((selectByKey key userId).bind k).eval d saved =
      if isText key then
        (k ((d.tables.byKeyAndUser? key userId).map fun r => (r.id, r.status))).eval d saved
      else .failed (.sql (.dataError "idempotency_key")) := by
  have he : ((selectByKey key userId).bind k).eval d saved = _ := Mail.eval_own _ _ _ _
  rw [he]
  simp only [exec]
  split_ifs <;> rfl

theorem eval_insertOrder (o : NewOrder) (f : Fresh) (k : Unit → Tx db α) :
    ((insertOrder o f).bind k).eval d saved = match o.row? f.now with
      | .error e => .failed (.sql e)
      | .ok r =>
        match d.tables.violates? r with
        | some constraint => .failed (.sql (.uniqueViolation constraint))
        | none => (k ()).eval { d with tables := apply (.addOrder r) d.tables } saved := by
  have he : ((insertOrder o f).bind k).eval d saved = _ := Mail.eval_own _ _ _ _
  rw [he]
  simp only [exec]
  cases o.row? f.now with
  | error e => rfl
  | ok r =>
    simp only
    cases d.tables.violates? r <;> rfl

end Order

end FoodFlow
