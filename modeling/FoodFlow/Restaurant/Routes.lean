import FoodFlow.Restaurant.Basic
import Mathlib.Data.List.Sort

/-!
# The menus of the restaurant service

`GET /restaurants/{restaurant_id}/menu`, over the catalogue that the migrations leave; only the
stock changes after them.
-/

namespace FoodFlow

namespace Restaurant

/-- A row of `menu_items`. -/
structure MenuItemRow where
  id : UUID
  restaurantId : UUID
  name : String
  description : Option String
  price : ℚ
  deriving DecidableEq, Repr

/-- The tables `restaurants`, of which the key suffices, and `menu_items`. -/
structure Catalogue where
  restaurants : List UUID
  menuItems : Table MenuItemRow.id

/-- `MenuItemResponse` -/
structure MenuItemResponse where
  id : UUID
  name : String
  description : Option String
  price : ℚ
  stockQuantity : ℤ
  deriving DecidableEq, Repr

/-- `HTTPException` -/
structure HTTPException where
  statusCode : ℕ
  detail : String
  deriving DecidableEq, Repr

/-- An item of the menu with its stock, 0 if there is no row of `menu_item_stock`. -/
def MenuItemRow.response (t : Tables) (r : MenuItemRow) : MenuItemResponse where
  id := r.id
  name := r.name
  description := r.description
  price := r.price
  stockQuantity := (t.quantity r.id).getD 0

/-- `get_menu` -/
def getMenu (c : Catalogue) (t : Tables) (restaurantId : UUID) :
    Except HTTPException (List MenuItemResponse) :=
  if restaurantId ∈ c.restaurants then
    .ok (((c.menuItems.rows.filter fun r => r.restaurantId = restaurantId).insertionSort
      fun r r' => r.name ≤ r'.name).map (MenuItemRow.response t))
  else .error ⟨404, "Restaurant not found"⟩

/-- `002_seed.sql` -/
def seedCatalogue : Catalogue where
  restaurants := [0xa1b2c3d4e5f67890abcdef1234567890, 0xb2c3d4e5f6a78901bcdef12345678901]
  menuItems :=
    { rows :=
        [⟨0x11111111111111111111111111111111, 0xa1b2c3d4e5f67890abcdef1234567890, "Classic Burger",
            some "Beef patty with lettuce, tomato, and cheese", 9.99⟩,
          ⟨0x22222222222222222222222222222222, 0xa1b2c3d4e5f67890abcdef1234567890, "Fries",
            some "Crispy golden fries", 4.99⟩,
          ⟨0x33333333333333333333333333333333, 0xa1b2c3d4e5f67890abcdef1234567890, "Milkshake",
            some "Vanilla milkshake", 5.99⟩,
          ⟨0x44444444444444444444444444444444, 0xb2c3d4e5f6a78901bcdef12345678901,
            "Margherita Pizza", some "Fresh mozzarella, basil, and tomato sauce", 12.99⟩,
          ⟨0x55555555555555555555555555555555, 0xb2c3d4e5f6a78901bcdef12345678901,
            "Pepperoni Pizza", some "Classic pepperoni with mozzarella", 14.99⟩]
      nodup := by decide }

/-- The tables after the first start of the service. -/
def seedTables : Tables := (migrate ⟨⟨.empty, .empty⟩, .empty⟩).tables

variable {c : Catalogue} {t : Tables} {restaurantId : UUID} {items : List MenuItemResponse}
  {item : MenuItemResponse}

theorem mem_getMenu (h : getMenu c t restaurantId = .ok items) : item ∈ items ↔
    ∃ r ∈ c.menuItems.rows, r.restaurantId = restaurantId ∧ r.response t = item := by
  unfold getMenu at h
  split_ifs at h
  cases h
  simp [and_assoc]

end Restaurant

end FoodFlow
