import Mathlib.Data.Rat.Defs
import Mathlib.Algebra.BigOperators.Group.List.Basic
import Mathlib.Algebra.Ring.Int.Defs

/-!
# The event envelope

The messages that the services exchange, and the rows of the outbox tables they are read from.
UUIDs and times are natural numbers; what a transaction takes from outside (`uuid.uuid4()`,
`gen_random_uuid()`, `NOW()`) comes to it as a `Fresh`.
-/

namespace FoodFlow

/-- A UUID. -/
abbrev UUID := ℕ

/-- `str(uuid)`. -/
def uuidStr (u : UUID) : String :=
  let hex := (List.range 32).map fun k => (u / 16 ^ (31 - k) % 16).digitChar
  String.ofList (hex.take 8 ++ '-' :: (hex.drop 8).take 4 ++ '-' :: (hex.drop 12).take 4 ++
    '-' :: (hex.drop 16).take 4 ++ '-' :: hex.drop 20)

example : uuidStr 0xa1b2c3d4e5f67890abcdef1234567890 = "a1b2c3d4-e5f6-7890-abcd-ef1234567890" := by
  decide +kernel

/-- A point in time, in seconds. -/
abbrev Time := ℕ

/-- One line of an order: `{"item_id", "quantity", "price"}`. -/
structure Item where
  itemId : UUID
  quantity : ℤ
  price : ℚ
  deriving DecidableEq, Repr

/-- The quantity of the item `i` in a list of lines, in which it may appear more than once. -/
def totalOf (i : UUID) (items : List Item) : ℤ :=
  (items.map fun item => if item.itemId = i then item.quantity else 0).sum

@[simp] theorem totalOf_nil (i : UUID) : totalOf i [] = 0 := rfl

@[simp] theorem totalOf_cons (i : UUID) (item : Item) (items : List Item) :
    totalOf i (item :: items) =
      (if item.itemId = i then item.quantity else 0) + totalOf i items := by
  simp [totalOf]

/-- The positive quantities of the item `i` in a list of lines. -/
def positiveOf (i : UUID) (items : List Item) : ℤ :=
  (items.map fun item => if item.itemId = i then max 0 item.quantity else 0).sum

@[simp] theorem positiveOf_nil (i : UUID) : positiveOf i [] = 0 := rfl

@[simp] theorem positiveOf_cons (i : UUID) (item : Item) (items : List Item) :
    positiveOf i (item :: items) =
      (if item.itemId = i then max 0 item.quantity else 0) + positiveOf i items := by
  simp [positiveOf]

theorem positiveOf_nonneg (i : UUID) (items : List Item) : 0 ≤ positiveOf i items := by
  induction items with
  | nil => exact Int.le_refl 0
  | cons item items ih =>
    rw [positiveOf_cons]
    split_ifs <;> omega

theorem totalOf_le_positiveOf (i : UUID) (items : List Item) :
    totalOf i items ≤ positiveOf i items := by
  induction items with
  | nil => exact Int.le_refl 0
  | cons item items ih =>
    rw [positiveOf_cons, totalOf_cons]
    split_ifs <;> omega

/-- Where no line of the item has a negative quantity. -/
theorem positiveOf_eq_totalOf {i : UUID} {items : List Item}
    (h : ∀ item ∈ items, item.itemId = i → 0 ≤ item.quantity) :
    positiveOf i items = totalOf i items := by
  induction items with
  | nil => rfl
  | cons item items ih =>
    rw [positiveOf_cons, totalOf_cons, ih fun x hx => h x (List.mem_cons_of_mem _ hx)]
    split_ifs with hi
    · rw [Int.max_eq_right (h item List.mem_cons_self hi)]
    · rfl

theorem totalOf_append (i : UUID) (items items' : List Item) :
    totalOf i (items ++ items') = totalOf i items + totalOf i items' := by
  simp [totalOf]

/-- An item that is not listed. -/
theorem totalOf_eq_zero {i : UUID} {items : List Item} (h : ∀ item ∈ items, item.itemId ≠ i) :
    totalOf i items = 0 := by
  induction items with
  | nil => rfl
  | cons item items ih =>
    rw [totalOf_cons, if_neg (h item List.mem_cons_self), Int.zero_add]
    exact ih fun x hx => h x (List.mem_cons_of_mem _ hx)

theorem totalOf_nonneg {i : UUID} {items : List Item} (h : ∀ item ∈ items, 0 ≤ item.quantity) :
    0 ≤ totalOf i items := by
  rw [← positiveOf_eq_totalOf fun item hm _ => h item hm]
  exact positiveOf_nonneg i items

/-- The lines of a prefix ask for no more than all of them. -/
theorem totalOf_prefix_le {i : UUID} {items pre : List Item} (hp : pre <+: items)
    (h : ∀ item ∈ items, 0 ≤ item.quantity) : totalOf i pre ≤ totalOf i items := by
  obtain ⟨rest, rfl⟩ := hp
  have hrest : 0 ≤ totalOf i rest := totalOf_nonneg fun x hx => h x (List.mem_append_right _ hx)
  rw [totalOf_append]
  omega

/-- The event names, which are also the Kafka topics. -/
inductive EventType where
  | orderPlaced
  | stockReserved
  | stockRejected
  | stockRelease
  | paymentSucceeded
  | paymentFailed
  /-- Any other name. -/
  | other (name : String)
  deriving DecidableEq, Repr

/-- The payload of an event: the entries its producers write, `none` where absent. -/
structure Payload where
  orderId : Option UUID := none
  userId : Option UUID := none
  restaurantId : Option UUID := none
  items : Option (List Item) := none
  totalAmount : Option ℚ := none
  paymentSimulate : Option String := none
  reason : Option String := none
  deriving DecidableEq, Repr

/-- An event as it travels. -/
structure Envelope where
  eventId : UUID
  eventType : EventType
  occurredAt : Time
  payload : Payload
  deriving DecidableEq, Repr

/-- What a transaction draws from outside: a UUID for the row it is about, one for the event it
publishes, one for the outbox row, and the time. -/
structure Fresh where
  id : UUID
  eventId : UUID
  rowId : UUID
  now : Time
  deriving DecidableEq, Repr

/-- `wrap_event`. -/
def wrapEvent (eventType : EventType) (payload : Payload) (f : Fresh) : Envelope :=
  ⟨f.eventId, eventType, f.now, payload⟩

/-- A row of `outbox_events`. -/
structure OutboxRow where
  id : UUID
  topic : EventType
  key : UUID
  payload : Envelope
  createdAt : Time
  publishedAt : Option Time := none
  deriving DecidableEq, Repr

/-- The row without its id, that of its event and the times of both. -/
def OutboxRow.forget (r : OutboxRow) : OutboxRow :=
  { r with id := 0, createdAt := 0, payload := { r.payload with eventId := 0, occurredAt := 0 } }

end FoodFlow
