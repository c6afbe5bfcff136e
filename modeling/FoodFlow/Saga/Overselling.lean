import FoodFlow.Saga.Fidelity
import FoodFlow.Saga.Agreement

/-!
# Overselling

What `POST /orders` lets through decides whether the stock of an item stays between zero and what
it was at first.  A quantity may be negative, and to reserve it adds to the stock:

* `stock_bounded` : the bounds hold where no order that holds a reservation lists the item with a
  negative quantity; without that the lower bound and the balance still hold;
* `stock_inflated` : with a negative quantity the upper bounds fail.
-/

namespace FoodFlow

/-- The positive quantities of an item that the reservations hold. -/
def Restaurant.Tables.held (t : Restaurant.Tables) (i : UUID) : ℤ :=
  t.reservations.sum fun res => positiveOf i res.items

namespace Saga

variable {dflt : String} {t₀ : Restaurant.Tables} {s : State} {i : UUID} {q₀ : ℤ}

/-- Every reservation belongs to an order that holds it. -/
theorem Consistent.holder {s : Stores} (h : Consistent dflt t₀ s) {res : Restaurant.Reservation}
    (hres : res ∈ s.restaurant.tables.reservations.rows) :
    ∃ r ∈ s.order.tables.orders.rows, s.Reserved r ∧ res.items = r.items := by
  obtain ⟨r, hr, hid, hitems⟩ := h.reserved_items hres
  refine ⟨r, hr, ?_, hitems⟩
  rw [Stores.Reserved, hid, Table.get?_of_mem hres, ← hitems]

/-- **No overselling, and no stock inflation by orders without negative quantities.**  In every
state of every run, the quantity of an item is not negative, and together with what the
reservations hold of it gives the initial quantity.  As long as no order that holds a reservation
lists the item with a negative quantity, neither the quantity nor the sum of the positive
quantities reserved exceeds the initial quantity. -/
theorem stock_bounded (ht₀ : Restaurant.Migrated ⟨t₀, .empty⟩) {ls : List Label}
    (hr : (system dflt).Run (.start t₀) ls s) (hi : t₀.quantity i = some q₀) :
    ∃ q, s.restaurant.db.tables.quantity i = some q ∧ 0 ≤ q ∧
      q + s.restaurant.db.tables.reserved i = q₀ ∧
      ((∀ r ∈ s.order.db.tables.orders.rows, s.stores.Reserved r →
          ∀ item ∈ r.items, item.itemId = i → 0 ≤ item.quantity) →
        q ≤ q₀ ∧ s.restaurant.db.tables.held i ≤ q₀) := by
  have h := (run_consistent ht₀ hr).1
  have hb : (s.restaurant.db.tables.quantity i).map (· + s.restaurant.db.tables.reserved i) =
      t₀.quantity i := h.stock.balance i
  rw [hi] at hb
  obtain ⟨q, hq, hsum⟩ := Option.map_eq_some_iff.1 hb
  have hnonneg : 0 ≤ q := h.stock.nonNeg i q hq
  refine ⟨q, hq, hnonneg, hsum, fun hpos => ?_⟩
  -- what is reserved is then a sum of positive quantities
  have hheld : s.restaurant.db.tables.held i = s.restaurant.db.tables.reserved i := by
    refine congrArg List.sum (List.map_congr_left fun res hres => ?_)
    obtain ⟨r, hr, hreserved, hitems⟩ := h.holder hres
    exact positiveOf_eq_totalOf (hitems ▸ hpos r hr hreserved)
  have hheld_nonneg : 0 ≤ s.restaurant.db.tables.held i := by
    refine List.sum_nonneg fun x hx => ?_
    obtain ⟨res, -, rfl⟩ := List.mem_map.1 hx
    exact positiveOf_nonneg i res.items
  omega

/-- The order 70 of burgers and the order 71 of all that are left, which holds no negative
quantity of burgers although it does of fries. -/
theorem stock_bounded_all :
    let burger : UUID := 0x11111111111111111111111111111111
    let req₁ : Order.Request := ⟨1, ⟨5, [⟨burger, 40, 10⟩]⟩, none, none⟩
    let req₂ : Order.Request :=
      ⟨1, ⟨5, [⟨burger, 60, 10⟩, ⟨0x22222222222222222222222222222222, -1, 5⟩]⟩, none, none⟩
    let run : List Label :=
      [.request req₁, .run .order 0 ⟨70, 1, 2, 0⟩, .relay .order 2 none,
        .deliver .restaurant ⟨1, .orderPlaced, 0, Order.eventPayload req₁ 70⟩,
        .run .restaurant 0 ⟨0, 11, 12, 0⟩,
        .request req₂, .run .order 1 ⟨71, 3, 4, 0⟩, .relay .order 4 none,
        .deliver .restaurant ⟨3, .orderPlaced, 0, Order.eventPayload req₂ 71⟩,
        .run .restaurant 1 ⟨0, 13, 14, 0⟩]
    ∃ n, (State.start seeded).runs "success" run = some n ∧
      n.restaurant.db.tables.quantity burger = some 0 ∧
      n.restaurant.db.tables.held burger ≤ 100 := by
  intro burger req₁ req₂ run
  have hrun : ((State.start seeded).runs "success" run).map (fun n =>
      (n.restaurant.db.tables.quantity burger, decide (∀ r ∈ n.order.db.tables.orders.rows,
        ∀ item ∈ r.items, item.itemId = burger → 0 ≤ item.quantity))) =
      some (some 0, true) := by decide +kernel
  obtain ⟨n, hn, hobs⟩ := Option.map_eq_some_iff.1 hrun
  simp only [Prod.mk.injEq, decide_eq_true_eq] at hobs
  obtain ⟨hq, hpos⟩ := hobs
  have hburger : seeded.quantity burger = some 100 := by decide +kernel
  obtain ⟨q, -, -, -, hbound⟩ := stock_bounded migrated_seeded (run_of_runs hn) hburger
  exact ⟨n, hn, hq, (hbound fun r hr _ => hpos r hr).2⟩

/-- An order of minus 150 burgers makes 250 of 100, of which another one takes 120. -/
theorem stock_inflated :
    ¬ ∀ (ls : List Label) (s : State), (system "success").Run (.start seeded) ls s →
      ∀ i q₀ q, seeded.quantity i = some q₀ → s.restaurant.db.tables.quantity i = some q →
        (0 ≤ q ∧ q ≤ q₀) ∧ s.restaurant.db.tables.held i ≤ q₀ := by
  let burger : UUID := 0x11111111111111111111111111111111
  let req₁ : Order.Request := ⟨1, ⟨5, [⟨burger, -150, 10⟩]⟩, none, none⟩
  let req₂ : Order.Request := ⟨1, ⟨5, [⟨burger, 120, 10⟩]⟩, none, none⟩
  let run : List Label :=
    [.request req₁, .run .order 0 ⟨70, 1, 2, 0⟩, .relay .order 2 none,
      .deliver .restaurant ⟨1, .orderPlaced, 0, Order.eventPayload req₁ 70⟩,
      .run .restaurant 0 ⟨0, 11, 12, 0⟩,
      .request req₂, .run .order 1 ⟨71, 3, 4, 0⟩, .relay .order 4 none,
      .deliver .restaurant ⟨3, .orderPlaced, 0, Order.eventPayload req₂ 71⟩,
      .run .restaurant 1 ⟨0, 13, 14, 0⟩]
  have hrun : ((State.start seeded).runs "success" run).map (fun n =>
      (seeded.quantity burger, n.restaurant.db.tables.quantity burger,
        n.restaurant.db.tables.held burger)) = some (some 100, some 130, 120) := by decide +kernel
  obtain ⟨n, hn, hobs⟩ := Option.map_eq_some_iff.1 hrun
  simp only [Prod.mk.injEq] at hobs
  obtain ⟨hq₀, hq, -⟩ := hobs
  intro hclaim
  have hbound := (hclaim run n (run_of_runs hn) burger 100 130 hq₀ hq).1.2
  exact absurd hbound (by decide)

end Saga

end FoodFlow
