import FoodFlow.Order.Basic

/-!
# Placing an order

`POST /orders` as a process: a request with an idempotency key is first looked up, the key and
the user together; otherwise, or when nothing is found, the order and its event are inserted in
one transaction.
-/

namespace FoodFlow

namespace Order

/-- `CreateOrderRequest`. -/
structure CreateOrderRequest where
  restaurantId : UUID
  items : List OrderItem
  deriving DecidableEq, Repr

/-- A request `POST /orders`: the user that the token names, the body, and the headers
`X-Payment-Simulate` and `Idempotency-Key`. -/
structure Request where
  user : UUID
  body : CreateOrderRequest
  xPaymentSimulate : Option String
  idempotencyKey : Option String
  deriving DecidableEq, Repr

/-- The body of a response 202. -/
structure Accepted where
  id : UUID
  status : Status
  message : String
  deriving DecidableEq, Repr

/-- What a process of the service ends with. -/
inductive Reply where
  /-- A response: accepted, or the exception that became an error response. -/
  | response (request : Request) (result : Except Err Accepted)
  /-- A delivery: its envelope, and the exception that was logged, if any. -/
  | handled (envelope : Envelope) (result : Except Err Unit)
  deriving DecidableEq

/-- The processes of the service. -/
abbrev Process := Proc db Fresh Empty Reply

/-- A header that is present and not empty. -/
def truthy (header : Option String) : Option String := header.filter (· ≠ "")

@[simp] theorem truthy_empty : truthy (some "") = none := rfl

theorem truthy_some {s : String} (h : s ≠ "") : truthy (some s) = some s := by
  simp [truthy, Option.filter, h]

/-- `sum(item.quantity * item.price for item in body.items)`, unless it raises. -/
def totalAmount (body : CreateOrderRequest) : PyFloat :=
  .sum (body.items.map fun item => .ofInt item.quantity * item.price)

/-- The sum raises an `OverflowError`: some quantity is too large for a float. -/
def overflows (body : CreateOrderRequest) : Bool :=
  body.items.any fun item => !(PyFloat.ofInt item.quantity).isFinite

-- the float product is less than the product of the floats, which is rounded up
example : (totalAmount ⟨5, [⟨6, 3, .ofRat 0.535⟩]⟩).value?.bind decimal = some 160 := by
  decide +kernel

/-- The products of quantity and price. -/
def products (items : List Item) : List ℚ :=
  items.map fun item => (item.quantity : ℚ) * item.price

/-- No quantity, no product and no sum of the first products is rounded. -/
def ExactTotal (items : List Item) : Prop :=
  (∀ item ∈ items, PyFloat.Exact item.quantity) ∧ (∀ x ∈ products items, PyFloat.Exact x) ∧
    ∀ pre ∈ (products items).inits, PyFloat.Exact pre.sum

instance (items : List Item) : Decidable (ExactTotal items) := inferInstanceAs (Decidable (_ ∧ _))

/-- The total is then the sum of the products. -/
theorem totalAmount_exact {items : List Item} (h : ExactTotal items) (restaurantId : UUID) :
    totalAmount ⟨restaurantId, items.map .of⟩ = .finite (products items).sum := by
  obtain ⟨hquantity, hproduct, hsum⟩ := h
  have hmap : ((items.map OrderItem.of).map fun item => .ofInt item.quantity * item.price) =
      (products items).map PyFloat.finite := by
    rw [products, List.map_map, List.map_map]
    refine List.map_congr_left fun item hm => ?_
    have hq : PyFloat.ofInt item.quantity = .finite item.quantity := hquantity item hm
    show PyFloat.ofInt item.quantity * .finite item.price = _
    rw [hq]
    exact hproduct _ (List.mem_map_of_mem hm)
  rw [totalAmount, hmap]
  exact PyFloat.sum_exact hproduct fun pre hp => hsum pre ((List.mem_inits _ _).2 hp)

/-- The payload of the event. -/
def eventPayload (req : Request) (orderId : UUID) : Payload where
  orderId := some orderId
  userId := some req.user
  restaurantId := some req.body.restaurantId
  items := itemsData req.body.items
  totalAmount := (totalAmount req.body).value?
  paymentSimulate := truthy req.xPaymentSimulate

/-- The order to insert. -/
def newOrder (req : Request) (orderId : UUID) : NewOrder :=
  ⟨orderId, req.user, req.body.restaurantId, req.body.items, totalAmount req.body,
    req.xPaymentSimulate, req.idempotencyKey⟩

/-- A request that ends with an exception. -/
def requestError (req : Request) (e : Err) : Process := .done (.response req (.error e))

/-- The message of a response that names an order found under the key. -/
def replayMessage : String := "Order already accepted (Idempotent response)"

/-- The answer to a request whose order exists. -/
def replayed (req : Request) (existing : UUID × Status) : Process :=
  .done (.response req (.ok ⟨existing.1, existing.2, replayMessage⟩))

/-- The answer to a request whose order has been created. -/
def accepted (req : Request) (orderId : UUID) : Process :=
  .done (.response req (.ok ⟨orderId, .pending, "Order accepted for processing"⟩))

/-- Writing the event into the outbox. -/
def publishTx (req : Request) (f : Fresh) : Tx db Process := do
  Mail.insertOutbox .orderPlaced f.id (wrapEvent .orderPlaced (eventPayload req f.id) f) f
  pure (accepted req f.id)

/-- The transaction that creates the order. -/
def placeTx (req : Request) (f : Fresh) : Tx db Process := do
  insertOrder (newOrder req f.id) f
  publishTx req f

/-- The rest of `create_order` after the idempotency check. -/
def placeOrder (req : Request) : Process :=
  if overflows req.body then requestError req .overflowError
  else .txn (placeTx req) (requestError req)

/-- The idempotency check. -/
def lookupTx (req : Request) (key : String) (_ : Fresh) : Tx db Process := do
  let existing ← selectByKey key req.user
  match existing with
  | some existing => pure (replayed req existing)
  | none => pure (placeOrder req)

/-- `create_order`. -/
def createOrder (req : Request) : Process :=
  match truthy req.idempotencyKey with
  | some key => .txn (lookupTx req key) (requestError req)
  | none => placeOrder req

/-! ### The transactions of a request -/

section

variable {req : Request} {t : Fresh → Tx db Process} {onErr : Err → Process} {r : Reply}

theorem placeOrder_of_overflows (h : overflows req.body = true) :
    placeOrder req = requestError req .overflowError := if_pos h

theorem placeOrder_of_not_overflows (h : ¬ overflows req.body = true) :
    placeOrder req = .txn (placeTx req) (requestError req) := if_neg h

theorem txn_eq_placeOrder (h : Proc.txn t onErr = placeOrder req) :
    t = placeTx req ∧ onErr = requestError req := by
  by_cases ho : overflows req.body = true
  · rw [placeOrder_of_overflows ho] at h
    cases h
  · rw [placeOrder_of_not_overflows ho] at h
    exact Proc.txn.inj h

theorem done_eq_placeOrder (h : Proc.done r = placeOrder req) :
    r = .response req (.error .overflowError) := by
  by_cases ho : overflows req.body = true
  · rw [placeOrder_of_overflows ho] at h
    exact Proc.done.inj h
  · rw [placeOrder_of_not_overflows ho] at h
    cases h

/-- The first transaction of a request. -/
theorem txn_eq_createOrder (h : Proc.txn t onErr = createOrder req) : onErr = requestError req ∧
    ((∃ key, truthy req.idempotencyKey = some key ∧ t = lookupTx req key) ∨ t = placeTx req) := by
  unfold createOrder at h
  split at h
  · rename_i key hkey
    obtain ⟨rfl, rfl⟩ := Proc.txn.inj h
    exact ⟨rfl, .inl ⟨key, hkey, rfl⟩⟩
  · obtain ⟨rfl, rfl⟩ := txn_eq_placeOrder h
    exact ⟨rfl, .inr rfl⟩

theorem done_eq_createOrder (h : Proc.done r = createOrder req) :
    r = .response req (.error .overflowError) := by
  unfold createOrder at h
  split at h
  · cases h
  · exact done_eq_placeOrder h

end

/-! ### What a committed transaction has done -/

/-- The outbox row with the event of a new order. -/
def placedRow (req : Request) (f : Fresh) : OutboxRow :=
  ⟨f.rowId, .orderPlaced, f.id, wrapEvent .orderPlaced (eventPayload req f.id) f, f.now, none⟩

variable {req : Request} {f : Fresh} {d d' : Db} {p : Process} {r : OrderRow}

/-- A row that can be stored has the contents of the request. -/
theorem row?_eq_ok {o : NewOrder} {now : Time} (h : o.row? now = .ok r) :
    r.id = o.id ∧ r.userId = o.userId ∧ r.restaurantId = o.restaurantId ∧
      itemsData o.items = some r.items ∧ r.status = .pending ∧
      o.totalAmount.value?.bind decimal = some r.totalAmount ∧
      varchar? 20 o.paymentSimulate = some r.paymentSimulate ∧
      varchar? 255 o.idempotencyKey = some r.idempotencyKey := by
  unfold NewOrder.row? at h
  split at h
  · cases h
  · cases h
  · cases h
  · cases h
  · rename_i h₁ h₂ h₃ h₄
    cases h
    exact ⟨rfl, rfl, rfl, h₁, rfl, h₂, h₃, h₄⟩

theorem violates?_eq_none {t : Tables} (h : t.violates? r = none) :
    t.orders.get? r.id = none ∧ ∀ key, r.idempotencyKey = some key → t.byKey? key = none := by
  unfold Tables.violates? at h
  split_ifs at h with h₁ h₂
  refine ⟨by simpa using h₁, fun key hk => ?_⟩
  rw [hk] at h₂
  simpa using h₂

theorem byKeyAndUser?_eq_some {t : Tables} {key : String} {userId : UUID}
    (h : t.byKeyAndUser? key userId = some r) :
    r ∈ t.orders.rows ∧ r.idempotencyKey = some key ∧ r.userId = userId :=
  ⟨List.mem_of_find?_eq_some h, by simpa using List.find?_some h⟩

/-- **What the transaction that creates an order has done when it commits.** -/
theorem placeTx_ok (hrun : (placeTx req f).run d = .ok (p, d')) :
    ∃ r, (newOrder req f.id).row? f.now = .ok r ∧ d.tables.violates? r = none ∧
      d.mail.outbox.get? f.rowId = none ∧ p = accepted req f.id ∧
      d' = ⟨apply (.addOrder r) d.tables,
        Mail.apply (.addOutbox (placedRow req f)) d.mail⟩ := by
  obtain ⟨saved', h⟩ := Tx.run_eq_ok.1 hrun
  rw [placeTx, Tx.bind_def, eval_insertOrder] at h
  cases hr : (newOrder req f.id).row? f.now with
  | error e => rw [hr] at h; cases h
  | ok r =>
    rw [hr] at h
    cases hv : d.tables.violates? r with
    | some c => simp only [hv] at h; cases h
    | none =>
      simp only [hv] at h
      rw [publishTx, Tx.bind_def, Mail.eval_insertOutbox] at h
      split_ifs at h with ho
      cases h
      exact ⟨r, rfl, hv, by simpa using ho, rfl, rfl⟩

/-- What the idempotency check gives. -/
theorem lookupTx_ok {key : String} (hrun : (lookupTx req key f).run d = .ok (p, d')) :
    d' = d ∧ ((∃ r, d.tables.byKeyAndUser? key req.user = some r ∧
      p = replayed req (r.id, r.status)) ∨
      (d.tables.byKeyAndUser? key req.user = none ∧ p = placeOrder req)) := by
  obtain ⟨saved', h⟩ := Tx.run_eq_ok.1 hrun
  rw [lookupTx, Tx.bind_def, eval_selectByKey] at h
  split_ifs at h
  cases hb : d.tables.byKeyAndUser? key req.user with
  | none =>
    rw [hb] at h
    cases h
    exact ⟨rfl, .inr ⟨rfl, rfl⟩⟩
  | some r =>
    rw [hb] at h
    cases h
    exact ⟨rfl, .inl ⟨r, rfl, rfl⟩⟩

end Order

end FoodFlow
