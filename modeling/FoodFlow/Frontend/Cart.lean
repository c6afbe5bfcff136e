import FoodFlow.LTS.Basic
import FoodFlow.Order.Routes
import FoodFlow.Restaurant.Routes

/-!
# The cart of the dashboard

`Dashboard.jsx`: the menu of a restaurant, of which items are put into the cart, and the order.  A
menu is requested when it is opened; the answers arrive in any order, whatever has been opened or
closed in the meantime.

* `Dashboard` : the state of the component;
* `dashboard` : what the user does, and what arrives;
* `Consistent` : the entries of the cart are those of one restaurant;
* `Meets` : an item is put into the cart from the menu of the restaurant that is open;
* `Change` : what a step changes of the menu, the cart and the orders;
* `cart_consistency` : **the cart is consistent along a run just when every step meets that**;
* `orders_consistent` : so are the orders, which the order service does not check.
-/

namespace FoodFlow

namespace Frontend

namespace Cart

open FoodFlow.Order (CreateOrderRequest)
open Restaurant (Catalogue MenuItemResponse Tables getMenu seedCatalogue seedTables)

/-! ### The cart -/

/-- An entry of the cart. -/
structure CartItem where
  itemId : UUID
  name : String
  price : ℚ
  quantity : ℤ
  restaurantId : UUID
  deriving DecidableEq, Repr

/-- `prev.map(i => i.item_id === itemId ? { ...i, quantity: i.quantity + n } : i)` -/
def changeQuantity (itemId : UUID) (n : ℤ) (prev : List CartItem) : List CartItem :=
  prev.map fun i => if i.itemId = itemId then { i with quantity := i.quantity + n } else i

/-- `addToCart` -/
def addToCart (item : MenuItemResponse) (restaurantId : UUID) (prev : List CartItem) :
    List CartItem :=
  match prev.find? fun i => i.itemId = item.id with
  | some existing =>
    if existing.quantity ≥ item.stockQuantity then prev else changeQuantity item.id 1 prev
  | none => prev ++ [⟨item.id, item.name, item.price, 1, restaurantId⟩]

/-- `removeFromCart`, which throws where there is no entry. -/
def removeFromCart (itemId : UUID) (prev : List CartItem) : Option (List CartItem) := do
  let existing ← prev.find? fun i => i.itemId = itemId
  if existing.quantity = 1 then some (prev.filter fun i => i.itemId ≠ itemId)
  else some (changeQuantity itemId (-1) prev)

/-! ### The dashboard -/

/-- The state of the component, with its calls in flight. -/
structure Dashboard where
  selectedRestaurant : Option UUID := none
  menuItems : List MenuItemResponse := []
  loadingMenu : Bool := false
  cart : List CartItem := []
  isCartOpen : Bool := false
  placingOrder : Bool := false
  cartIdempotencyKey : Option String := none
  /-- The restaurants whose menus are awaited. -/
  awaited : List UUID := []
  /-- The orders sent, with their `Idempotency-Key`. -/
  orders : List (String × CreateOrderRequest) := []
  /-- The restaurant that `menuItems` has been requested for; not in the source. -/
  menuOf : Option UUID := none
  deriving DecidableEq, Repr

/-- What happens. -/
inductive Act where
  | openMenu (restaurantId : UUID) (confirmed : Bool)
  /-- `setSelectedRestaurant(null)` -/
  | closeMenu
  /-- `setIsCartOpen` -/
  | showCart (isOpen : Bool)
  | clickAdd (item : MenuItemResponse)
  | clickRemove (item : MenuItemResponse)
  | placeOrder
  | effect (uuid : String)
  | menuArrives (i : ℕ) (t : Tables)
  | menuFails (i : ℕ)
  | placed (ok : Bool)

namespace Dashboard

/-- At its first rendering. -/
def first : Dashboard := {}

/-- `openMenu` from the selection on, up to the request. -/
def select (d : Dashboard) (restaurantId : UUID) : Dashboard :=
  { d with
    selectedRestaurant := some restaurantId
    loadingMenu := true
    menuItems := []
    menuOf := none
    awaited := d.awaited ++ [restaurantId] }

/-- `openMenu`, where `window.confirm` returns `confirmed`. -/
def openMenu (d : Dashboard) (restaurantId : UUID) (confirmed : Bool) : Dashboard :=
  -- `cart.length > 0 && cart[0].restaurant_id !== restaurant.id`
  if d.cart.head?.any fun i => i.restaurantId ≠ restaurantId then
    if confirmed then { d with cart := [] }.select restaurantId else d
  else d.select restaurantId

/-- The answer to a request of a menu arrives. -/
def menuArrives (c : Catalogue) (d : Dashboard) (i : ℕ) (t : Tables) : Option Dashboard := do
  let restaurantId ← d.awaited[i]?
  let d' := { d with loadingMenu := false, awaited := d.awaited.eraseIdx i }
  match getMenu c t restaurantId with
  | .ok menuItems => some { d' with menuItems := menuItems, menuOf := some restaurantId }
  | .error _ => some d'

/-- The request fails. -/
def menuFails (d : Dashboard) (i : ℕ) : Option Dashboard := do
  let _ ← d.awaited[i]?
  some { d with loadingMenu := false, awaited := d.awaited.eraseIdx i }

/-- The item is on display, under the restaurant that is open. -/
def Displays (d : Dashboard) (restaurantId : UUID) (item : MenuItemResponse) : Prop :=
  d.selectedRestaurant = some restaurantId ∧ d.loadingMenu = false ∧ item ∈ d.menuItems

instance (d : Dashboard) (restaurantId : UUID) (item : MenuItemResponse) :
    Decidable (d.Displays restaurantId item) :=
  inferInstanceAs (Decidable (_ ∧ _ ∧ _))

/-- The button that adds the item is disabled. -/
def addDisabled (d : Dashboard) (item : MenuItemResponse) : Bool :=
  match d.cart.find? fun i => i.itemId = item.id with
  | some cartItem => cartItem.quantity ≥ item.stockQuantity
  | none => item.stockQuantity ≤ 0

/-- A click that adds an item. -/
def clickAdd (d : Dashboard) (item : MenuItemResponse) : Option Dashboard := do
  let restaurantId ← d.selectedRestaurant
  if d.Displays restaurantId item ∧ ¬ d.addDisabled item then
    some { d with cart := addToCart item restaurantId d.cart }
  else none

/-- A click that removes an item, which has a button for that if it is in the cart. -/
def clickRemove (d : Dashboard) (item : MenuItemResponse) : Option Dashboard := do
  let restaurantId ← d.selectedRestaurant
  if d.Displays restaurantId item then
    let cart ← removeFromCart item.id d.cart
    some { d with cart := cart }
  else none

/-- The body of the order, from the first entry of the cart and all of it. -/
def body (d : Dashboard) (first : CartItem) : CreateOrderRequest where
  restaurantId := first.restaurantId
  items := d.cart.map fun i => ⟨i.itemId, i.quantity, .finite i.price⟩

/-- `placeOrder`, up to the request. -/
def placeOrder (d : Dashboard) : Option Dashboard :=
  if d.isCartOpen ∧ ¬ d.placingOrder then
    match d.cart.head?, d.cartIdempotencyKey with
    | some first, some key =>
      some { d with placingOrder := true, orders := d.orders ++ [(key, d.body first)] }
    | _, _ => some d
  else none

/-- The end of `placeOrder`, after the answer. -/
def placed (d : Dashboard) (ok : Bool) : Option Dashboard :=
  if d.placingOrder then
    if ok then
      some { d with
        cart := []
        isCartOpen := false
        selectedRestaurant := none
        placingOrder := false }
    else some { d with placingOrder := false }
  else none

/-- The effect on the length of the cart and the key. -/
def effect (d : Dashboard) (uuid : String) : Dashboard :=
  if d.cart.length > 0 ∧ d.cartIdempotencyKey = none then
    { d with cartIdempotencyKey := some uuid }
  else if d.cart.length = 0 ∧ d.cartIdempotencyKey.isSome then
    { d with cartIdempotencyKey := none }
  else d

/-- The state after something has happened, if it can happen. -/
def act (c : Catalogue) (d : Dashboard) : Act → Option Dashboard
  | .openMenu restaurantId confirmed => some (d.openMenu restaurantId confirmed)
  | .closeMenu => some { d with selectedRestaurant := none }
  | .showCart isOpen => some { d with isCartOpen := isOpen }
  | .clickAdd item => d.clickAdd item
  | .clickRemove item => d.clickRemove item
  | .placeOrder => d.placeOrder
  | .effect uuid => some (d.effect uuid)
  | .menuArrives i t => d.menuArrives c i t
  | .menuFails i => d.menuFails i
  | .placed ok => d.placed ok

end Dashboard

/-- The dashboard from its first rendering on. -/
def dashboard (c : Catalogue) : LTS Dashboard Act where
  init d := d = .first
  step d l d' := d.act c l = some d'

/-- The cart has one entry for an item, at least one of it, and all of one restaurant. -/
structure Orderly (cart : List CartItem) : Prop where
  nodup : (cart.map (·.itemId)).Nodup
  positive : ∀ e ∈ cart, 1 ≤ e.quantity
  single : ∀ e ∈ cart, ∀ e' ∈ cart, e.restaurantId = e'.restaurantId

/-- Every entry has the restaurant whose menu contains its item. -/
def OnMenu (c : Catalogue) (cart : List CartItem) : Prop :=
  ∀ e ∈ cart, ∃ r ∈ c.menuItems.rows, r.id = e.itemId ∧ r.restaurantId = e.restaurantId

/-- The cart is consistent. -/
structure Consistent (c : Catalogue) (cart : List CartItem) : Prop extends Orderly cart where
  onMenu : OnMenu c cart

/-- An item that is not in the cart is added only while the menu on display is the one that has been
requested for the restaurant that is open. -/
def Meets (d : Dashboard) : Act → Prop
  | .clickAdd item => (∃ e ∈ d.cart, e.itemId = item.id) ∨ d.menuOf = d.selectedRestaurant
  | _ => True

variable {c : Catalogue} {d d' : Dashboard} {l : Act} {cart cart' : List CartItem}
  {item : MenuItemResponse} {e : CartItem} {itemId restaurantId : UUID} {n : ℤ}

/-! ### What happens to the cart -/

/-- What an entry is about. -/
def CartItem.tag (e : CartItem) : UUID × UUID := (e.itemId, e.restaurantId)

theorem map_itemId : cart.map (·.itemId) = (cart.map CartItem.tag).map Prod.fst := by
  rw [List.map_map]
  rfl

theorem tag_changeQuantity :
    (changeQuantity itemId n cart).map CartItem.tag = cart.map CartItem.tag := by
  rw [changeQuantity, List.map_map]
  refine List.map_congr_left fun i _ => ?_
  simp only [Function.comp]
  split_ifs <;> rfl

theorem mem_changeQuantity (h : e ∈ changeQuantity itemId n cart) :
    ∃ i ∈ cart, e.restaurantId = i.restaurantId ∧
      (e.quantity = i.quantity ∨ (i.itemId = itemId ∧ e.quantity = i.quantity + n)) := by
  obtain ⟨i, hi, rfl⟩ := List.mem_map.1 h
  split_ifs with hid
  · exact ⟨i, hi, rfl, .inr ⟨hid, rfl⟩⟩
  · exact ⟨i, hi, rfl, .inl rfl⟩

/-- Adding an item: one more of it, up to its stock, or a new entry. -/
theorem addToCart_cases (item : MenuItemResponse) (restaurantId : UUID) (cart : List CartItem) :
    ((∃ e ∈ cart, e.itemId = item.id) ∧ (addToCart item restaurantId cart = cart ∨
      addToCart item restaurantId cart = changeQuantity item.id 1 cart)) ∨
    ((∀ e ∈ cart, e.itemId ≠ item.id) ∧ addToCart item restaurantId cart =
      cart ++ [⟨item.id, item.name, item.price, 1, restaurantId⟩]) := by
  unfold addToCart
  cases h : cart.find? fun i => i.itemId = item.id with
  | none => exact .inr ⟨by simpa using h, rfl⟩
  | some existing =>
    refine .inl ⟨⟨existing, List.mem_of_find?_eq_some h, by simpa using List.find?_some h⟩, ?_⟩
    dsimp only
    split_ifs
    · exact .inl rfl
    · exact .inr rfl

/-- Removing an item: the only one, and the entry goes, or one of several. -/
theorem removeFromCart_cases (h : removeFromCart itemId cart = some cart') :
    cart' = cart.filter (fun i => i.itemId ≠ itemId) ∨
      ∃ e ∈ cart, e.itemId = itemId ∧ e.quantity ≠ 1 ∧ cart' = changeQuantity itemId (-1) cart := by
  obtain ⟨existing, hfind, h⟩ := Option.bind_eq_some_iff.1 h
  have hid : existing.itemId = itemId := by simpa using List.find?_some hfind
  split_ifs at h with hone
  · exact .inl (Option.some.inj h).symm
  · exact .inr ⟨existing, List.mem_of_find?_eq_some hfind, hid, hone, (Option.some.inj h).symm⟩

theorem removeFromCart_tag (h : removeFromCart itemId cart = some cart') :
    (cart'.map CartItem.tag).Sublist (cart.map CartItem.tag) := by
  obtain rfl | ⟨-, -, -, -, rfl⟩ := removeFromCart_cases h
  · exact List.filter_sublist.map _
  · rw [tag_changeQuantity]

theorem exists_of_tag (h : (cart'.map CartItem.tag).Sublist (cart.map CartItem.tag))
    (he : e ∈ cart') : ∃ e' ∈ cart, e'.itemId = e.itemId ∧ e'.restaurantId = e.restaurantId := by
  obtain ⟨e', he', htag⟩ := List.mem_map.1 (h.subset (List.mem_map_of_mem he))
  exact ⟨e', he', (Prod.mk.inj htag).1, (Prod.mk.inj htag).2⟩

/-- Fewer entries, of other quantities. -/
theorem Orderly.of_tag (h : Orderly cart)
    (htag : (cart'.map CartItem.tag).Sublist (cart.map CartItem.tag))
    (hpos : ∀ e ∈ cart', 1 ≤ e.quantity) : Orderly cart' where
  nodup := by
    rw [map_itemId]
    have hnodup := h.nodup
    rw [map_itemId] at hnodup
    exact hnodup.sublist (htag.map _)
  positive := hpos
  single := by
    intro e₁ he₁ e₂ he₂
    obtain ⟨e₁', he₁', -, h₁⟩ := exists_of_tag htag he₁
    obtain ⟨e₂', he₂', -, h₂⟩ := exists_of_tag htag he₂
    rw [← h₁, ← h₂]
    exact h.single _ he₁' _ he₂'

theorem orderly_nil : Orderly [] := ⟨List.nodup_nil, nofun, nofun⟩

theorem addToCart_restaurantId (h : ∀ e ∈ cart, e.restaurantId = restaurantId) :
    ∀ e ∈ addToCart item restaurantId cart, e.restaurantId = restaurantId := by
  intro e he
  obtain ⟨-, heq | heq⟩ | ⟨-, heq⟩ := addToCart_cases item restaurantId cart
  · exact h e (heq ▸ he)
  · rw [heq] at he
    obtain ⟨i, hi, hr, -⟩ := mem_changeQuantity he
    rw [hr, h i hi]
  · rw [heq, List.mem_append, List.mem_singleton] at he
    obtain he | rfl := he
    · exact h e he
    · rfl

theorem Orderly.addToCart (h : Orderly cart) (hr : ∀ e ∈ cart, e.restaurantId = restaurantId)
    (item : MenuItemResponse) : Orderly (addToCart item restaurantId cart) := by
  have hsingle : ∀ e ∈ Cart.addToCart item restaurantId cart, e.restaurantId = restaurantId :=
    addToCart_restaurantId hr
  obtain ⟨-, heq | heq⟩ | ⟨hnew, heq⟩ := addToCart_cases item restaurantId cart
  · rwa [heq]
  · rw [heq]
    refine h.of_tag (by rw [tag_changeQuantity]) fun e he => ?_
    obtain ⟨i, hi, -, hq⟩ := mem_changeQuantity he
    have := h.positive i hi
    omega
  · refine ⟨?_, ?_, fun e he e' he' => (hsingle e he).trans (hsingle e' he').symm⟩
    · rw [heq, List.map_append, List.map_singleton]
      refine List.nodup_append.2 ⟨h.nodup, List.nodup_singleton _, fun i hi j hj => ?_⟩
      obtain ⟨e, he, rfl⟩ := List.mem_map.1 hi
      obtain rfl := List.mem_singleton.1 hj
      exact hnew e he
    · rw [heq]
      exact List.forall_mem_append.2 ⟨h.positive, List.forall_mem_singleton.2 le_rfl⟩

theorem Orderly.removeFromCart (h : Orderly cart) (hrem : removeFromCart itemId cart = some cart') :
    Orderly cart' := by
  refine h.of_tag (removeFromCart_tag hrem) fun e he => ?_
  obtain rfl | ⟨existing, hmem, hid, hone, rfl⟩ := removeFromCart_cases hrem
  · exact h.positive e (List.mem_of_mem_filter he)
  · obtain ⟨i, hi, -, hq | ⟨hid', hq⟩⟩ := mem_changeQuantity he
    · exact hq ▸ h.positive i hi
    · -- it is the entry that has been found, of which there is more than one
      obtain rfl : i = existing := List.inj_on_of_nodup_map h.nodup hi hmem (hid'.trans hid.symm)
      have := h.positive i hi
      omega

theorem OnMenu.of_tag (h : OnMenu c cart)
    (htag : (cart'.map CartItem.tag).Sublist (cart.map CartItem.tag)) : OnMenu c cart' := by
  intro e he
  obtain ⟨e', he', hid, hr⟩ := exists_of_tag htag he
  rw [← hid, ← hr]
  exact h e' he'

/-! ### What happens to the dashboard -/

/-- What holds in every state. -/
structure Tidy (c : Catalogue) (d : Dashboard) : Prop where
  orderly : Orderly d.cart
  /-- The entries of the cart are of the restaurant that is open. -/
  selected : ∀ restaurantId, d.selectedRestaurant = some restaurantId →
    ∀ e ∈ d.cart, e.restaurantId = restaurantId
  /-- The items on display are of the restaurant that they have been requested for. -/
  menu : ∀ item ∈ d.menuItems, ∃ r ∈ c.menuItems.rows,
    r.id = item.id ∧ d.menuOf = some r.restaurantId

/-- Neither the cart nor the menu is touched, and no order is sent. -/
structure Same (d d' : Dashboard) : Prop where
  cart : d'.cart = d.cart
  selectedRestaurant : d'.selectedRestaurant = d.selectedRestaurant
  menuItems : d'.menuItems = d.menuItems
  menuOf : d'.menuOf = d.menuOf
  orders : d'.orders = d.orders

/-- What a step changes of the menu, the cart and the orders. -/
inductive Change (c : Catalogue) (d : Dashboard) : Act → Dashboard → Prop
  | nothing {l : Act} {d' : Dashboard} : (∀ item, l ≠ .clickAdd item) → Same d d' →
      Change c d l d'
  /-- A menu is opened with a cart of its restaurant, which may be empty. -/
  | opens {restaurantId : UUID} {confirmed : Bool} {cart : List CartItem} :
      cart = [] ∨ cart = d.cart → (∀ e ∈ cart, e.restaurantId = restaurantId) →
      Change c d (.openMenu restaurantId confirmed) ({ d with cart := cart }.select restaurantId)
  | closes : Change c d .closeMenu { d with selectedRestaurant := none }
  | adds {item : MenuItemResponse} {restaurantId : UUID} :
      d.selectedRestaurant = some restaurantId → item ∈ d.menuItems →
      Change c d (.clickAdd item) { d with cart := addToCart item restaurantId d.cart }
  | removes {item : MenuItemResponse} {cart : List CartItem} :
      removeFromCart item.id d.cart = some cart →
      Change c d (.clickRemove item) { d with cart := cart }
  | sends {first : CartItem} {key : String} : d.cart.head? = some first →
      Change c d .placeOrder
        { d with placingOrder := true, orders := d.orders ++ [(key, d.body first)] }
  | arrives {i : ℕ} {t : Tables} {restaurantId : UUID} {menuItems : List MenuItemResponse}
      {awaited : List UUID} : getMenu c t restaurantId = .ok menuItems →
      Change c d (.menuArrives i t)
        { d with loadingMenu := false, awaited, menuItems, menuOf := some restaurantId }
  | empties {ok : Bool} : Change c d (.placed ok)
      { d with cart := [], isCartOpen := false, selectedRestaurant := none, placingOrder := false }

theorem change_openMenu (h : Orderly d.cart) (restaurantId : UUID) (confirmed : Bool) :
    Change c d (.openMenu restaurantId confirmed) (d.openMenu restaurantId confirmed) := by
  unfold Dashboard.openMenu
  split_ifs with hother
  · exact .opens (.inl rfl) nofun
  · exact .nothing nofun ⟨rfl, rfl, rfl, rfl, rfl⟩
  · refine .opens (.inr rfl) fun e he => ?_
    cases hcart : d.cart with
    | nil => simp [hcart] at he
    | cons first rest =>
      have hfirst : first ∈ d.cart := by simp [hcart]
      rw [h.single e he first hfirst]
      simpa [hcart] using hother

theorem change_menuArrives {i : ℕ} {t : Tables} (h : d.menuArrives c i t = some d') :
    Change c d (.menuArrives i t) d' := by
  obtain ⟨restaurantId, -, h⟩ := Option.bind_eq_some_iff.1 h
  cases hmenu : getMenu c t restaurantId with
  | ok menuItems =>
    simp only [hmenu, Option.some.injEq] at h
    subst h
    exact .arrives hmenu
  | error e =>
    simp only [hmenu, Option.some.injEq] at h
    subst h
    exact .nothing nofun ⟨rfl, rfl, rfl, rfl, rfl⟩

theorem change_menuFails {i : ℕ} (h : d.menuFails i = some d') :
    Change c d (.menuFails i) d' := by
  obtain ⟨restaurantId, -, h⟩ := Option.bind_eq_some_iff.1 h
  obtain rfl := Option.some.inj h
  exact .nothing nofun ⟨rfl, rfl, rfl, rfl, rfl⟩

theorem change_clickAdd (h : d.clickAdd item = some d') : Change c d (.clickAdd item) d' := by
  obtain ⟨restaurantId, hsel, h⟩ := Option.bind_eq_some_iff.1 h
  split_ifs at h with hshown
  obtain rfl := Option.some.inj h
  exact .adds hsel hshown.1.2.2

theorem change_clickRemove (h : d.clickRemove item = some d') :
    Change c d (.clickRemove item) d' := by
  obtain ⟨restaurantId, -, h⟩ := Option.bind_eq_some_iff.1 h
  split_ifs at h
  obtain ⟨cart, hcart, h⟩ := Option.bind_eq_some_iff.1 h
  obtain rfl := Option.some.inj h
  exact .removes hcart

theorem change_placeOrder (h : d.placeOrder = some d') : Change c d .placeOrder d' := by
  unfold Dashboard.placeOrder at h
  split_ifs at h
  split at h
  · obtain rfl := Option.some.inj h
    exact .sends ‹_›
  · obtain rfl := Option.some.inj h
    exact .nothing nofun ⟨rfl, rfl, rfl, rfl, rfl⟩

theorem change_effect (uuid : String) : Change c d (.effect uuid) (d.effect uuid) := by
  unfold Dashboard.effect
  split_ifs <;> exact .nothing nofun ⟨rfl, rfl, rfl, rfl, rfl⟩

theorem change_placed {ok : Bool} (h : d.placed ok = some d') : Change c d (.placed ok) d' := by
  unfold Dashboard.placed at h
  split_ifs at h
  · obtain rfl := Option.some.inj h
    exact .empties
  · obtain rfl := Option.some.inj h
    exact .nothing nofun ⟨rfl, rfl, rfl, rfl, rfl⟩

theorem step_change (h : Orderly d.cart) (hst : (dashboard c).step d l d') : Change c d l d' := by
  cases l with
  | openMenu restaurantId confirmed =>
    obtain rfl := Option.some.inj hst
    exact change_openMenu h restaurantId confirmed
  | closeMenu =>
    obtain rfl := Option.some.inj hst
    exact .closes
  | showCart isOpen =>
    obtain rfl := Option.some.inj hst
    exact .nothing nofun ⟨rfl, rfl, rfl, rfl, rfl⟩
  | clickAdd item => exact change_clickAdd hst
  | clickRemove item => exact change_clickRemove hst
  | placeOrder => exact change_placeOrder hst
  | effect uuid =>
    obtain rfl := Option.some.inj hst
    exact change_effect uuid
  | menuArrives i t => exact change_menuArrives hst
  | menuFails i => exact change_menuFails hst
  | placed ok => exact change_placed hst

/-- The restaurant that is open is that of the cart, whatever happens. -/
theorem Tidy.step (h : Tidy c d) (hst : (dashboard c).step d l d') : Tidy c d' := by
  obtain ⟨horderly, hselected, hmenu⟩ := h
  cases step_change horderly hst with
  | nothing _ hs =>
    refine ⟨?_, ?_, ?_⟩
    · rwa [hs.cart]
    · rwa [hs.cart, hs.selectedRestaurant]
    · rwa [hs.menuItems, hs.menuOf]
  | opens hcart hr =>
    refine ⟨?_, ?_, nofun⟩
    · obtain rfl | rfl := hcart
      · exact orderly_nil
      · exact horderly
    · rintro _ ⟨⟩
      exact hr
  | closes => exact ⟨horderly, nofun, hmenu⟩
  | @adds item restaurantId hsel _ =>
    have hr := hselected restaurantId hsel
    refine ⟨horderly.addToCart hr item, fun restaurantId' hsel' => ?_, hmenu⟩
    obtain rfl : restaurantId = restaurantId' := Option.some.inj (hsel.symm.trans hsel')
    exact addToCart_restaurantId hr
  | removes hcart =>
    refine ⟨horderly.removeFromCart hcart, fun restaurantId hsel e he => ?_, hmenu⟩
    obtain ⟨e', he', -, hr⟩ := exists_of_tag (removeFromCart_tag hcart) he
    exact hr ▸ hselected restaurantId hsel e' he'
  | sends _ => exact ⟨horderly, hselected, hmenu⟩
  | arrives hget =>
    refine ⟨horderly, hselected, fun item hitem => ?_⟩
    obtain ⟨r, hr, rfl, rfl⟩ := (Restaurant.mem_getMenu hget).1 hitem
    exact ⟨r, hr, rfl, rfl⟩
  | empties => exact ⟨orderly_nil, nofun, hmenu⟩

/-- Only a click that adds an item brings something into the cart. -/
theorem Change.tag (h : Change c d l d') (hl : ∀ item, l ≠ .clickAdd item) :
    (d'.cart.map CartItem.tag).Sublist (d.cart.map CartItem.tag) := by
  cases h with
  | nothing _ hs => rw [hs.cart]
  | opens hcart _ =>
    obtain rfl | rfl := hcart
    · exact List.nil_sublist _
    · exact List.Sublist.refl _
  | @adds item => exact absurd rfl (hl item)
  | removes hcart => exact removeFromCart_tag hcart
  | empties => exact List.nil_sublist _
  | closes | sends | arrives => exact List.Sublist.refl _

theorem meets_of_ne (hl : ∀ item, l ≠ .clickAdd item) : Meets d l := by
  cases l with
  | clickAdd item => exact absurd rfl (hl item)
  | _ => trivial

/-- The entry of an item on display has the right restaurant just when the click meets the
condition. -/
theorem onMenu_addToCart (h : Tidy c d) (hon : OnMenu c d.cart)
    (hsel : d.selectedRestaurant = some restaurantId) (hitem : item ∈ d.menuItems) :
    OnMenu c (addToCart item restaurantId d.cart) ↔ Meets d (.clickAdd item) := by
  obtain ⟨r, hr, hid, hof⟩ := h.menu item hitem
  obtain ⟨hold, heq⟩ | ⟨hnew, heq⟩ := addToCart_cases item restaurantId d.cart
  · refine iff_of_true (hon.of_tag ?_) (.inl hold)
    obtain heq | heq := heq
    · rw [heq]
    · rw [heq, tag_changeQuantity]
  · -- a new entry has the restaurant that is open, and its item is on the menu on display
    simp only [heq, OnMenu, List.forall_mem_append, List.forall_mem_singleton]
    constructor
    · rintro ⟨-, r', hr', hid', rfl⟩
      obtain rfl : r' = r :=
        List.inj_on_of_nodup_map c.menuItems.nodup hr' hr (hid'.trans hid.symm)
      exact .inr (hof.trans hsel.symm)
    · rintro (⟨e, he, heq⟩ | hof')
      · exact absurd heq (hnew e he)
      · refine ⟨hon, r, hr, hid, ?_⟩
        exact Option.some.inj (hof.symm.trans (hof'.trans hsel))

/-- What a step does to a cart whose entries have the right restaurants. -/
theorem onMenu_step (h : Tidy c d) (hon : OnMenu c d.cart) (hst : (dashboard c).step d l d') :
    OnMenu c d'.cart ↔ Meets d l := by
  have hchange := step_change h.orderly hst
  by_cases hl : ∀ item, l ≠ .clickAdd item
  · exact iff_of_true (hon.of_tag (hchange.tag hl)) (meets_of_ne hl)
  · cases hchange with
    | adds hsel hitem => exact onMenu_addToCart h hon hsel hitem
    | nothing hne _ => exact absurd hne hl
    | opens | closes | removes | sends | arrives | empties => exact absurd nofun hl

theorem tidy_first : Tidy c .first := ⟨orderly_nil, nofun, nofun⟩

/-- Every state that can be reached is tidy. -/
theorem tidy_of_reachable (h : (dashboard c).Reachable d) : Tidy c d := by
  refine h.invariant ?_ fun _ _ _ hd hst => hd.step hst
  rintro _ rfl
  exact tidy_first

theorem consistent_nil : Consistent c [] := ⟨orderly_nil, nofun⟩

/-- The states passed have consistent carts just when the steps meet the condition. -/
theorem consistent_iff_meets {tr : List (Dashboard × Act)} (h : (dashboard c).Trace .first tr d) :
    (∀ u ∈ tr.map Prod.fst ++ [d], Consistent c u.cart) ↔ ∀ x ∈ tr, Meets x.1 x.2 := by
  induction h with
  | refl =>
    exact iff_of_true (List.forall_mem_singleton.2 consistent_nil) (List.forall_mem_nil _)
  | @snoc tr d d' l h hst ih =>
    have htidy : Tidy c d := tidy_of_reachable (h.reachable rfl)
    simp only [List.map_append, List.map_singleton, List.forall_mem_append,
      List.forall_mem_singleton] at ih ⊢
    rw [← ih]
    refine and_congr_right fun ⟨_, hd⟩ => ?_
    rw [← onMenu_step htidy hd.onMenu hst]
    exact ⟨fun hd' => hd'.onMenu, fun hon => ⟨(htidy.step hst).orderly, hon⟩⟩

/-- Along every run of the dashboard, the cart has one entry for an item, at least one of it, and
all of one restaurant; and it is consistent in every state passed just when every item that is new
to the cart is added from the menu requested for the restaurant that is open. -/
theorem cart_consistency {tr : List (Dashboard × Act)} (h : (dashboard c).Trace .first tr d) :
    Orderly d.cart ∧
      ((∀ u ∈ tr.map Prod.fst ++ [d], Consistent c u.cart) ↔ ∀ x ∈ tr, Meets x.1 x.2) :=
  ⟨(tidy_of_reachable (h.reachable rfl)).orderly, consistent_iff_meets h⟩

/-- Burger Palace, Pizza Planet, and the menu of the first. -/
def burgerPalace : UUID := 0xa1b2c3d4e5f67890abcdef1234567890

def pizzaPlanet : UUID := 0xb2c3d4e5f6a78901bcdef12345678901

def burger : MenuItemResponse where
  id := 0x11111111111111111111111111111111
  name := "Classic Burger"
  description := some "Beef patty with lettuce, tomato, and cheese"
  price := 9.99
  stockQuantity := 100

def burgers : List MenuItemResponse :=
  [burger, ⟨0x22222222222222222222222222222222, "Fries", some "Crispy golden fries", 4.99, 200⟩,
    ⟨0x33333333333333333333333333333333, "Milkshake", some "Vanilla milkshake", 5.99, 50⟩]

/-- The state after a step that can be evaluated. -/
theorem step_of_act (h : d.act c l = some d') : (dashboard c).step d l d' := h

/-- A menu is opened, two burgers are put into the cart from it, and one is taken out. -/
theorem cart_consistency_burgers : ∃ tr d, (dashboard seedCatalogue).Trace .first tr d ∧
    tr.map Prod.snd = [.openMenu burgerPalace false, .menuArrives 0 seedTables, .clickAdd burger,
      .clickAdd burger, .clickRemove burger] ∧
    d.cart = [⟨burger.id, "Classic Burger", 9.99, 1, burgerPalace⟩] ∧
    ∀ u ∈ tr.map Prod.fst ++ [d], Consistent seedCatalogue u.cart := by
  let d₁ : Dashboard := Dashboard.first.openMenu burgerPalace false
  let d₂ : Dashboard :=
    { selectedRestaurant := some burgerPalace, menuItems := burgers, menuOf := some burgerPalace }
  let d₃ : Dashboard :=
    { d₂ with cart := [⟨burger.id, "Classic Burger", 9.99, 1, burgerPalace⟩] }
  let d₄ : Dashboard :=
    { d₂ with cart := [⟨burger.id, "Classic Burger", 9.99, 2, burgerPalace⟩] }
  have h₁ : (dashboard seedCatalogue).step .first (.openMenu burgerPalace false) d₁ :=
    step_of_act rfl
  have h₂ : (dashboard seedCatalogue).step d₁ (.menuArrives 0 seedTables) d₂ :=
    step_of_act (by decide +kernel)
  have h₃ : (dashboard seedCatalogue).step d₂ (.clickAdd burger) d₃ :=
    step_of_act (by decide +kernel)
  have h₄ : (dashboard seedCatalogue).step d₃ (.clickAdd burger) d₄ :=
    step_of_act (by decide +kernel)
  have h₅ : (dashboard seedCatalogue).step d₄ (.clickRemove burger) d₃ :=
    step_of_act (by decide +kernel)
  have htrace := ((((LTS.Trace.refl.snoc h₁).snoc h₂).snoc h₃).snoc h₄).snoc h₅
  refine ⟨_, d₃, htrace, rfl, rfl, (cart_consistency htrace).2.2 ?_⟩
  simp [Meets, d₂, d₃]

/-- The menu of Burger Palace is opened and closed; its answer arrives when that of Pizza Planet has
been opened, and a burger is put into the cart. -/
theorem cart_burger_of_pizzaPlanet : ¬ ∀ (c : Catalogue) (d : Dashboard),
    (dashboard c).Reachable d → Consistent c d.cart := by
  intro h
  let d₁ : Dashboard := Dashboard.first.openMenu burgerPalace false
  let d₂ : Dashboard := { d₁ with selectedRestaurant := none }
  let d₃ : Dashboard := d₂.openMenu pizzaPlanet false
  let d₄ : Dashboard :=
    { selectedRestaurant := some pizzaPlanet
      menuItems := burgers
      awaited := [pizzaPlanet]
      menuOf := some burgerPalace }
  let d₅ : Dashboard :=
    { d₄ with cart := [⟨burger.id, "Classic Burger", 9.99, 1, pizzaPlanet⟩] }
  have h₁ : (dashboard seedCatalogue).step .first (.openMenu burgerPalace false) d₁ :=
    step_of_act rfl
  have h₂ : (dashboard seedCatalogue).step d₁ .closeMenu d₂ := step_of_act rfl
  have h₃ : (dashboard seedCatalogue).step d₂ (.openMenu pizzaPlanet false) d₃ :=
    step_of_act rfl
  have h₄ : (dashboard seedCatalogue).step d₃ (.menuArrives 0 seedTables) d₄ :=
    step_of_act (by decide +kernel)
  have h₅ : (dashboard seedCatalogue).step d₄ (.clickAdd burger) d₅ :=
    step_of_act (by decide +kernel)
  have hrun := ((((LTS.Run.refl.snoc h₁).snoc h₂).snoc h₃).snoc h₄).snoc h₅
  obtain ⟨r, hr, hid, hrest⟩ :=
    (h seedCatalogue d₅ ⟨_, _, rfl, hrun⟩).onMenu _ (List.mem_singleton_self _)
  revert r
  decide +kernel

/-! ### The orders -/

theorem Change.orders (h : Change c d l d') : d'.orders = d.orders ∨
    ∃ first key, d.cart.head? = some first ∧ d'.orders = d.orders ++ [(key, d.body first)] := by
  cases h with
  | nothing _ hs => exact .inl hs.orders
  | @sends first key hfirst => exact .inr ⟨first, key, hfirst, rfl⟩
  | opens | closes | adds | removes | arrives | empties => exact .inl rfl

/-- An order has been the cart of a state passed. -/
theorem exists_cart_of_order {tr : List (Dashboard × Act)} (h : (dashboard c).Trace .first tr d) :
    ∀ o ∈ d.orders, ∃ u ∈ tr.map Prod.fst, ∃ first, u.cart.head? = some first ∧
      o.2 = u.body first := by
  induction h with
  | refl => nofun
  | @snoc tr d d' l h hst ih =>
    have htidy : Tidy c d := tidy_of_reachable (h.reachable rfl)
    intro o ho
    rw [List.map_append]
    have earlier (ho : o ∈ d.orders) : ∃ u ∈ tr.map Prod.fst ++ [d], ∃ first,
        u.cart.head? = some first ∧ o.2 = u.body first := by
      obtain ⟨u, hu, hfirst⟩ := ih o ho
      exact ⟨u, List.mem_append_left _ hu, hfirst⟩
    obtain heq | ⟨first, key, hfirst, heq⟩ := (step_change htidy.orderly hst).orders
    · exact earlier (heq ▸ ho)
    · rw [heq, List.mem_append, List.mem_singleton] at ho
      obtain ho | rfl := ho
      · exact earlier ho
      · exact ⟨d, List.mem_append_right _ (List.mem_singleton_self _), first, hfirst, rfl⟩

/-- What the order service does not check of an order holds of those of the dashboard: there are
items, each of them once and at least one of it; and all are on the menu of the restaurant of the
order, if every step of the run meets the condition. -/
theorem orders_consistent {tr : List (Dashboard × Act)} (h : (dashboard c).Trace .first tr d) :
    ∀ o ∈ d.orders, o.2.items ≠ [] ∧ (o.2.items.map (·.itemId)).Nodup ∧
      (∀ item ∈ o.2.items, 1 ≤ item.quantity) ∧
      ((∀ x ∈ tr, Meets x.1 x.2) → ∀ item ∈ o.2.items, ∃ r ∈ c.menuItems.rows,
        r.id = item.itemId ∧ r.restaurantId = o.2.restaurantId) := by
  intro o ho
  obtain ⟨u, hu, first, hfirst, heq⟩ := exists_cart_of_order h o ho
  obtain ⟨x, hx, rfl⟩ := List.mem_map.1 hu
  have horderly : Orderly x.1.cart := (tidy_of_reachable (h.reachable_of_mem rfl hx)).orderly
  have hmem : first ∈ x.1.cart := List.mem_of_mem_head? hfirst
  rw [heq]
  refine ⟨?_, ?_, ?_, ?_⟩
  · exact fun hnil => List.ne_nil_of_mem hmem (List.map_eq_nil_iff.1 hnil)
  · rw [Dashboard.body, List.map_map]
    exact horderly.nodup
  · exact List.forall_mem_map.2 horderly.positive
  · intro hmeets
    have hon := ((consistent_iff_meets h).2 hmeets x.1 (List.mem_append_left _ hu)).onMenu
    refine List.forall_mem_map.2 fun e he => ?_
    obtain ⟨r, hr, hid, hrest⟩ := hon e he
    exact ⟨r, hr, hid, hrest.trans (horderly.single e he first hmem)⟩

end Cart

end Frontend

end FoodFlow
