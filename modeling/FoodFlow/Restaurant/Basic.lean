import FoodFlow.Shared.Mail

/-!
# The database of the restaurant service

The tables `menu_item_stock` and `stock_reservations` (with the common `outbox_events` and
`processed_events`), the statements on them, and the migration that seeds the stock.
-/

namespace FoodFlow

namespace Restaurant

/-- A row of `menu_item_stock`. -/
structure StockRow where
  itemId : UUID
  quantity : ℤ
  deriving DecidableEq, Repr

/-- A row of `stock_reservations`. -/
structure Reservation where
  orderId : UUID
  items : List Item
  deriving DecidableEq, Repr

/-- The tables of the service. -/
structure Tables where
  stock : Table StockRow.itemId
  reservations : Table Reservation.orderId

/-- The stock quantity of an item. -/
def Tables.quantity (t : Tables) (i : UUID) : Option ℤ := (t.stock.get? i).map StockRow.quantity

/-- `InsufficientStockError`. -/
inductive InsufficientStockError where
  | notFound (itemId : UUID)
  | short (itemId : UUID) (requested available : ℤ)
  deriving DecidableEq, Repr

/-- The text of the exception. -/
def InsufficientStockError.str : InsufficientStockError → String
  | .notFound itemId => s!"Item {uuidStr itemId} not found"
  | .short itemId requested available =>
    s!"Insufficient stock for item {uuidStr itemId}. Requested {requested}, available {available}"

/-- The exceptions of the handler. -/
inductive Err where
  | sql (e : SqlError)
  | keyError (key : String)
  | insufficientStock (e : InsufficientStockError)
  deriving DecidableEq, Repr

/-! ### Statements -/

/-- The statements on the tables of the service. -/
inductive Stmt where
  /-- `SELECT quantity FROM menu_item_stock WHERE item_id = $1 FOR UPDATE` -/
  | selectStockForUpdate (itemId : UUID)
  /-- `UPDATE menu_item_stock SET quantity = quantity - $1 WHERE item_id = $2` -/
  | deductStock (qty : ℤ) (itemId : UUID)
  /-- `UPDATE menu_item_stock SET quantity = quantity + $1 WHERE item_id = $2` -/
  | addStock (qty : ℤ) (itemId : UUID)
  /-- `INSERT INTO stock_reservations (order_id, items) VALUES ($1, $2)` -/
  | insertReservation (r : Reservation)
  /-- `SELECT items FROM stock_reservations WHERE order_id = $1` -/
  | selectReservation (orderId : UUID)
  /-- `DELETE FROM stock_reservations WHERE order_id = $1` -/
  | deleteReservation (orderId : UUID)

/-- What the statements return. -/
def Stmt.Res : Stmt → Type
  | .selectStockForUpdate _ => Option ℤ
  | .selectReservation _ => Option (List Item)
  | _ => Unit

/-- Changes of the tables. -/
inductive Write where
  | changeStock (itemId : UUID) (delta : ℤ)
  | addReservation (r : Reservation)
  | delReservation (orderId : UUID)

/-- Stock rows, and orders in the unique column of `stock_reservations`. -/
inductive Lock where
  | stock (itemId : UUID)
  | reservation (orderId : UUID)
  deriving DecidableEq

/-- Adding `delta` to the quantity of an item, under the column's type and its `CHECK`. -/
def changeStock (t : Tables) (itemId : UUID) (delta : ℤ) : Except Err (List Write) :=
  match t.quantity itemId with
  | none => .ok []
  | some q =>
    if !int4 (q + delta) then .error (.sql (.dataError "quantity"))
    else if q + delta < 0 then
      .error (.sql (.checkViolation "menu_item_stock_quantity_check"))
    else .ok [.changeStock itemId delta]

/-- The effect of a statement.  A quantity passed as a parameter has to be an `INTEGER`. -/
def exec : (q : Stmt) → Tables → Except Err (q.Res × List Write)
  | .selectStockForUpdate itemId, t => .ok (t.quantity itemId, [])
  | .deductStock qty itemId, t =>
    if !int4 qty then .error (.sql (.dataError "quantity"))
    else (changeStock t itemId (-qty)).map fun ws => ((), ws)
  | .addStock qty itemId, t =>
    if !int4 qty then .error (.sql (.dataError "quantity"))
    else (changeStock t itemId qty).map fun ws => ((), ws)
  | .insertReservation r, t =>
    if (t.reservations.get? r.orderId).isSome then
      .error (.sql (.uniqueViolation "stock_reservations_order_id_key"))
    else .ok ((), [.addReservation r])
  | .selectReservation orderId, t => .ok ((t.reservations.get? orderId).map (·.items), [])
  | .deleteReservation orderId, _ => .ok ((), [.delReservation orderId])

/-- The effect of a change. -/
def apply : Write → Tables → Tables
  | .changeStock itemId delta, t =>
    { t with stock := t.stock.update (·.itemId = itemId) fun r =>
        { r with quantity := r.quantity + delta } }
  | .addReservation r, t => { t with reservations := t.reservations.insert r }
  | .delReservation orderId, t => { t with reservations := t.reservations.erase orderId }

/-- What a statement has to own: the rows it locks, and the value it puts into the unique
column. -/
def needs : Stmt → Tables → List Lock
  | .selectStockForUpdate itemId, t | .deductStock _ itemId, t | .addStock _ itemId, t =>
    if (t.quantity itemId).isSome then [.stock itemId] else []
  | .insertReservation r, _ => [.reservation r.orderId]
  | .selectReservation _, _ => []
  | .deleteReservation orderId, t =>
    if (t.reservations.get? orderId).isSome then [.reservation orderId] else []

/-- The tables of the service as a database of their own. -/
abbrev tables : Dbms where
  Db := Tables
  Stmt := Stmt
  Res := Stmt.Res
  Write := Write
  Lock := Lock
  Err := Err
  exec := exec
  apply := apply
  needs := needs

/-- The restaurant database. -/
abbrev db : Dbms := tables.withMail .sql

/-- The contents of the restaurant database. -/
abbrev Db := WithMail Tables

/-- `002_seed.sql`: the stock of the five items on the menu, unless they are there. -/
def seedStock : List StockRow :=
  [⟨0x11111111111111111111111111111111, 100⟩, ⟨0x22222222222222222222222222222222, 200⟩,
    ⟨0x33333333333333333333333333333333, 50⟩, ⟨0x44444444444444444444444444444444, 80⟩,
    ⟨0x55555555555555555555555555555555, 80⟩]

/-- Running the migrations, at every start of the service: `ON CONFLICT (item_id) DO NOTHING`
keeps the rows that are there. -/
def migrate (d : Db) : Db :=
  { d with tables := { d.tables with stock := seedStock.foldl Table.insert d.tables.stock } }

/-! ### Statements as programs, and their execution in isolation -/

def selectStockForUpdate (itemId : UUID) : Tx db (Option ℤ) :=
  Mail.own tables (.selectStockForUpdate itemId)

def deductStock (qty : ℤ) (itemId : UUID) : Tx db Unit := Mail.own tables (.deductStock qty itemId)

def addStock (qty : ℤ) (itemId : UUID) : Tx db Unit := Mail.own tables (.addStock qty itemId)

def insertReservation (orderId : UUID) (items : List Item) : Tx db Unit :=
  Mail.own tables (.insertReservation ⟨orderId, items⟩)

def selectReservation (orderId : UUID) : Tx db (Option (List Item)) :=
  Mail.own tables (.selectReservation orderId)

def deleteReservation (orderId : UUID) : Tx db Unit := Mail.own tables (.deleteReservation orderId)

end Restaurant

end FoodFlow
