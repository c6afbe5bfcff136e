import FoodFlow.Saga.Overselling
import FoodFlow.Restaurant.Ranges
import FoodFlow.Restaurant.Verdicts

/-!
# Orders that the restaurant service cannot handle

`POST /orders` lets any integer through as a quantity, while the stock is an `INTEGER` that is not
negative.  In every reachable state of the three services:

* `verdict_given` : the first delivery of an `order.placed` ends with one verdict, unless a line
  that is reached is out of range; only an order with a negative quantity can have such a line;
* `release_given` : a `stock.release` gives back what is reserved, unless it takes a quantity out
  of its range; only where an order with a negative quantity holds a reservation can it do so;
* `verdict_missing`, `release_refused` : with negative quantities both happen.
-/

namespace FoodFlow

namespace Saga

variable {dflt : String} {t₀ : Restaurant.Tables} {ls : List Label} {s : State} {env : Envelope}
  {f : Fresh} {o : UUID} {items : List Item}

/-- In every run, the quantities in stock are `INTEGER`s. -/
theorem run_fits (h₀ : Restaurant.Fits t₀) (hr : (system dflt).Run (.start t₀) ls s) :
    Restaurant.Fits s.restaurant.db.tables := by
  refine hr.invariant (I := fun s => Restaurant.Fits s.restaurant.db.tables) h₀ ?_
  intro s l s' hs hst
  cases moves_of_step hst with
  | order _ => exact hs
  | restaurant h =>
    cases Node.step_cases h with
    | start _ => exact hs
    | call _ => exact hs
    | commit _ _ hrun => exact Restaurant.fits_run hrun hs
    | abort _ _ _ => exact hs
    | kill => exact hs
    | env hg =>
      obtain rfl : _ = Restaurant.migrate := hg
      exact Restaurant.fits_migrate hs
  | payment _ => exact hs
  | @relay service x publishedAt _ =>
    cases publishedAt with
    | none => exact hs
    | some now => cases service <;> exact hs

/-- In every run, what is reserved is of items in stock. -/
theorem run_stocked (h₀ : t₀.reservations = .empty) (hr : (system dflt).Run (.start t₀) ls s) :
    Restaurant.Stocked s.restaurant.db.tables := by
  refine (run_invariant (fun s => Restaurant.Stocked s.restaurant.tables) ?_ ?_ hr).1
  · intro res hres
    change res ∈ t₀.reservations.rows at hres
    rw [h₀] at hres
    cases hres
  · rintro s s' h hc
    cases hc with
    | same => exact h
    | place _ _ => exact h
    | order _ _ _ => exact h
    | restaurant _ _ he => exact he.stocked h
    | restart => exact Restaurant.stocked_migrate h
    | payment _ _ => exact h
    | relay _ _ hr _ => rwa [hr]

/-! ### Orders -/

/-- An order whose `order.placed` has not been handled has no verdict and no reservation. -/
theorem Consistent.undecided {s : Stores} (h : Consistent dflt t₀ s)
    (he : s.Event .orderPlaced o env) (hn : ¬ s.Handled .restaurant env) :
    Restaurant.verdicts o s.restaurant = [] ∧ s.Unreserved o := by
  obtain ⟨g, hg⟩ := h.stage o
  obtain ⟨rfl, -⟩ := h.untouched hg he hn
  refine ⟨List.filter_eq_nil_iff.2 fun x hx hv => ?_, hg.unreserved (by decide)⟩
  obtain ⟨hty, ho⟩ := of_decide_eq_true hv
  obtain ⟨-, htopic, hkey⟩ := h.post.shape .restaurant x hx
  have hk : x.key = o := Option.some.inj (hkey.symm.trans ho)
  have hx' : s.Event x.topic o x.payload := ⟨.restaurant, x, hx, rfl, hk, rfl⟩
  rw [htopic] at hty
  rcases hty with hty | hty
  · have := hg.reserved.1 ⟨_, hty ▸ hx'⟩
    simp at this
  · have := hg.rejected.1 ⟨_, hty ▸ hx'⟩
    simp at this

/-- A verdict that is published. -/
theorem verdicts_published {t : Restaurant.Tables} {d : Restaurant.Db} {x : OutboxRow}
    (hnone : Restaurant.verdicts o d = []) (hfree : d.mail.outbox.get? x.id = none)
    (hx : Restaurant.IsVerdict o x) : Restaurant.verdicts o
      ⟨t, Restaurant.marked env (Mail.apply (.addOutbox x) d.mail)⟩ = [x] := by
  show (d.mail.outbox.insert x).rows.filter _ = _
  rw [Table.rows_insert hfree, List.filter_append]
  rw [Restaurant.verdicts] at hnone
  rw [hnone, List.filter_cons, if_pos (by simpa using hx)]
  rfl

/-- **Every accepted order gets a verdict, if its lines are in range when they are reached.**  The
first delivery of its `order.placed` commits with exactly one verdict; otherwise it is rolled back.
The lines of an order without negative quantities are in range. -/
theorem verdict_given (ht₀ : Restaurant.Migrated ⟨t₀, .empty⟩) (hfits : Restaurant.Fits t₀)
    (hr : (system dflt).Run (.start t₀) ls s) {r : Order.OrderRow}
    (hrow : r ∈ s.order.db.tables.orders.rows) (he : s.stores.Event .orderPlaced r.id env)
    (hn : ¬ s.stores.Handled .restaurant env) (hf : s.restaurant.db.FreshRow f) :
    (Restaurant.InRange r.items s.restaurant.db.tables →
      ∃ d', (Restaurant.handleTx env f).run s.restaurant.db = .ok (Restaurant.returned env, d') ∧
        (Restaurant.verdicts r.id d').length = 1) ∧
    (¬ Restaurant.InRange r.items s.restaurant.db.tables →
      ∃ x, (Restaurant.handleTx env f).run s.restaurant.db = .error x) ∧
    ((∀ item ∈ r.items, 0 ≤ item.quantity) →
      Restaurant.InRange r.items s.restaurant.db.tables) := by
  have h := (run_consistent ht₀ hr).1
  have hnn : Restaurant.NonNeg s.restaurant.db.tables := h.stock.nonNeg
  have hty : env.eventType = .orderPlaced := h.post.eventType he
  have ho : env.payload.orderId = some r.id := h.post.orderId he
  have hitems : env.payload.items = some r.items := by
    rw [h.placed _ _ he, Stores.itemsOf]
    exact congrArg (Option.map _) (Table.get?_of_mem hrow)
  obtain ⟨hnone, hfree⟩ := h.undecided he hn
  refine ⟨fun hrange => ?_, Restaurant.run_handleTx_out_of_range hty ho hitems hn hnn,
    Restaurant.inRange_of_nonneg (run_fits hfits hr)⟩
  have hh : Restaurant.Handles env r.id r.items f s.restaurant.db :=
    ⟨hty, ho, hitems, hn, hfree, hrange, hf⟩
  by_cases ha : Restaurant.Affordable r.items s.restaurant.db.tables
  · refine ⟨_, Restaurant.run_handleTx_affordable hh hnn ha, ?_⟩
    have hout : Restaurant.IsVerdict r.id
      (Restaurant.outRow .stockReserved r.id env.payload f) := ⟨.inl rfl, ho⟩
    have hid : s.restaurant.db.mail.outbox.get?
      (Restaurant.outRow .stockReserved r.id env.payload f).id = none := hf
    rw [Restaurant.reservedDb]
    exact congrArg List.length (verdicts_published hnone hid hout)
  · obtain ⟨reason, hrun⟩ := Restaurant.run_handleTx_short hh hnn ha
    refine ⟨_, hrun, ?_⟩
    have hout : Restaurant.IsVerdict r.id (Restaurant.outRow .stockRejected r.id
      { orderId := some r.id, reason := some reason } f) := ⟨.inr rfl, rfl⟩
    have hid : s.restaurant.db.mail.outbox.get? (Restaurant.outRow .stockRejected r.id
      { orderId := some r.id, reason := some reason } f).id = none := hf
    rw [Restaurant.rejectedDb]
    exact congrArg List.length (verdicts_published hnone hid hout)

theorem fits_seeded : Restaurant.Fits seeded := by
  intro i q hq
  obtain ⟨r, hr, rfl⟩ := Option.map_eq_some_iff.1 hq
  have hall : ∀ r ∈ seeded.stock.rows, int4 r.quantity := by decide +kernel
  exact hall r (Table.mem_of_get? hr)

/-- The order 70 has been placed and its event is there, which the restaurant has not handled. -/
theorem placed_seventy {n : State} {env : Envelope} {r : Order.OrderRow}
    (hr : n.order.db.tables.orders.get? 70 = some r)
    (hout : n.order.db.mail.outbox.rows = [⟨2, .orderPlaced, 70, env, 0, none⟩])
    (hnew : n.restaurant.db.mail.processed = []) :
    n.stores.Event .orderPlaced r.id env ∧ ¬ n.stores.Handled .restaurant env := by
  have hid : r.id = 70 := Table.key_of_get? hr
  constructor
  · refine ⟨.order, ⟨2, .orderPlaced, 70, env, 0, none⟩, ?_, rfl, hid.symm, rfl⟩
    show _ ∈ n.order.db.mail.outbox.rows
    rw [hout]
    exact List.mem_singleton_self _
  · show env.eventId ∉ n.restaurant.db.mail.processed
    rw [hnew]
    exact List.not_mem_nil

/-- Forty burgers and then sixty, of a hundred. -/
theorem verdict_given_burgers :
    let burger : UUID := 0x11111111111111111111111111111111
    let items : List Item := [⟨burger, 40, 10⟩, ⟨burger, 60, 10⟩]
    let req : Order.Request := ⟨1, ⟨5, items.map .of⟩, none, none⟩
    let env : Envelope := ⟨1, .orderPlaced, 0, Order.eventPayload req 70⟩
    ∃ n, (State.start seeded).runs "success" [.request req, .run .order 0 ⟨70, 1, 2, 0⟩] = some n ∧
      ∃ d', (Restaurant.handleTx env ⟨0, 11, 12, 0⟩).run n.restaurant.db =
          .ok (Restaurant.returned env, d') ∧ (Restaurant.verdicts 70 d').length = 1 := by
  intro burger items req env
  have hrun : ((State.start seeded).runs "success"
      [.request req, .run .order 0 ⟨70, 1, 2, 0⟩]).map (fun n =>
        ((n.order.db.tables.orders.get? 70).map Order.OrderRow.items,
          n.order.db.mail.outbox.rows, n.restaurant.db.mail.outbox.rows,
          n.restaurant.db.mail.processed)) =
      some (some items, [⟨2, .orderPlaced, 70, env, 0, none⟩], [], []) := by
    decide +kernel
  obtain ⟨n, hn, hobs⟩ := Option.map_eq_some_iff.1 hrun
  simp only [Prod.mk.injEq] at hobs
  obtain ⟨hitems, hout, hfree, hnew⟩ := hobs
  obtain ⟨r, hr, hri⟩ := Option.map_eq_some_iff.1 hitems
  have hid : r.id = 70 := Table.key_of_get? hr
  obtain ⟨hevent, hunhandled⟩ := placed_seventy hr hout hnew
  obtain ⟨hgiven, -, hrange⟩ := verdict_given (f := ⟨0, 11, 12, 0⟩) migrated_seeded fits_seeded
    (run_of_runs hn) (Table.mem_of_get? hr) hevent hunhandled
    (by rw [WithMail.FreshRow, Table.get?, hfree]; rfl)
  refine ⟨n, hn, ?_⟩
  rw [hid] at hgiven
  exact hgiven (hrange (by rw [hri]; decide))

/-- An order of minus three thousand million burgers, for nothing, is accepted, and its event
cannot be handled. -/
theorem verdict_missing :
    ¬ ∀ (ls : List Label) (s : State), (system "success").Run (.start seeded) ls s →
      ∀ r ∈ s.order.db.tables.orders.rows, ∀ env f, s.stores.Event .orderPlaced r.id env →
        ¬ s.stores.Handled .restaurant env → s.restaurant.db.FreshRow f →
        ∃ p d', (Restaurant.handleTx env f).run s.restaurant.db = .ok (p, d') ∧
          (Restaurant.verdicts r.id d').length = 1 := by
  let burger : UUID := 0x11111111111111111111111111111111
  let req : Order.Request := ⟨1, ⟨5, [⟨burger, -3000000000, 0⟩]⟩, none, none⟩
  let env : Envelope := ⟨1, .orderPlaced, 0, Order.eventPayload req 70⟩
  have hrun : ((State.start seeded).runs "success"
      [.request req, .run .order 0 ⟨70, 1, 2, 0⟩]).map (fun n =>
        ((n.order.db.tables.orders.get? 70).isSome,
          n.order.db.mail.outbox.rows, n.restaurant.db.mail.outbox.rows,
          n.restaurant.db.mail.processed,
          ((Restaurant.handleTx env ⟨0, 11, 12, 0⟩).run n.restaurant.db).toOption.isSome)) =
      some (true, [⟨2, .orderPlaced, 70, env, 0, none⟩], [], [], false) := by
    decide +kernel
  obtain ⟨n, hn, hobs⟩ := Option.map_eq_some_iff.1 hrun
  simp only [Prod.mk.injEq] at hobs
  obtain ⟨hsome, hout, hfree, hnew, hfails⟩ := hobs
  obtain ⟨r, hr⟩ := Option.isSome_iff_exists.1 hsome
  obtain ⟨hevent, hunhandled⟩ := placed_seventy hr hout hnew
  intro hclaim
  obtain ⟨p, d', hok, -⟩ := hclaim _ n (run_of_runs hn) r (Table.mem_of_get? hr) env
    ⟨0, 11, 12, 0⟩ hevent hunhandled
    (by rw [WithMail.FreshRow, Table.get?, hfree]; rfl)
  rw [hok] at hfails
  cases hfails

/-! ### Compensations -/

/-- What an order has reserved is among all that is reserved, where the other orders have reserved
no negative quantity of it. -/
theorem totalOf_le_reserved {t : Restaurant.Tables} {i : UUID}
    (hres : t.reservations.get? o = some ⟨o, items⟩)
    (hpos : ∀ res ∈ t.reservations.rows, ∀ item ∈ res.items, item.itemId = i →
      0 ≤ item.quantity) : totalOf i items ≤ t.reserved i := by
  have hsum : ((t.reservations.erase o).sum fun res => totalOf i res.items) + totalOf i items =
      t.reservations.sum fun res => totalOf i res.items := Table.sum_erase hres _
  have hothers : 0 ≤ (t.reservations.erase o).sum fun res => totalOf i res.items := by
    refine List.sum_nonneg fun x hx => ?_
    obtain ⟨res, hm, rfl⟩ := List.mem_map.1 hx
    rw [← positiveOf_eq_totalOf (hpos res (Table.mem_rows_erase.1 hm).1)]
    exact positiveOf_nonneg i res.items
  rw [Restaurant.Tables.reserved]
  omega

/-- Where no order that holds a reservation lists one of the items with a negative quantity, what
is reserved for an order can be given back. -/
theorem Consistent.returnable {s : Stores} (h : Consistent dflt t₀ s)
    (hfits : Restaurant.Fits t₀) (hstocked : Restaurant.Stocked s.restaurant.tables)
    (hres : s.restaurant.tables.reservations.get? o = some ⟨o, items⟩)
    (hpos : ∀ r ∈ s.order.tables.orders.rows, s.Reserved r → ∀ item ∈ r.items,
      item.itemId ∈ items.map Item.itemId → 0 ≤ item.quantity) :
    Restaurant.Returnable items s.restaurant.tables := by
  have hheld : ∀ res ∈ s.restaurant.tables.reservations.rows, ∀ item ∈ res.items,
      item.itemId ∈ items.map Item.itemId → 0 ≤ item.quantity := by
    intro res hm item hitem
    obtain ⟨r, hr, hreserved, hri⟩ := h.holder hm
    exact hpos r hr hreserved item (hri ▸ hitem)
  have hall : ∀ x ∈ items, 0 ≤ x.quantity := fun x hx =>
    hheld _ (Table.mem_of_get? hres) x hx (List.mem_map_of_mem hx)
  intro pre item hpre
  have hitem : item ∈ items := hpre.subset (by simp)
  have hlisted := List.mem_map_of_mem (f := Item.itemId) hitem
  -- what the stock lacks of its initial quantity is at least what is reserved for this order
  obtain ⟨q, hq⟩ := Option.isSome_iff_exists.1 (hstocked _ (Table.mem_of_get? hres) item hitem)
  have hbalance := h.stock.balance item.itemId
  rw [hq] at hbalance
  have hq₀ := hfits _ _ hbalance.symm
  have hnonneg := h.stock.nonNeg _ _ hq
  have hreserved := totalOf_le_reserved hres fun res hm x hx hxi =>
    hheld res hm x hx (hxi ▸ hlisted)
  have hprefix := totalOf_prefix_le (i := item.itemId) hpre hall
  have hbefore : 0 ≤ totalOf item.itemId pre := totalOf_nonneg fun x hx =>
    hall x (hpre.subset (List.mem_append_left _ hx))
  have hqty := hall item hitem
  simp only [int4, decide_eq_true_eq, totalOf_append, totalOf_cons, totalOf_nil, add_zero,
    if_true] at hq₀ hprefix ⊢
  refine ⟨by omega, fun q' hq' => ?_⟩
  obtain rfl := Option.some.inj (hq.symm.trans hq')
  omega

/-- **A compensation gives back what is reserved, if every quantity stays in its range meanwhile.**
Otherwise it is rolled back.  It does stay there where no order that holds a reservation lists one
of the items with a negative quantity. -/
theorem release_given (ht₀ : Restaurant.Migrated ⟨t₀, .empty⟩) (hfits : Restaurant.Fits t₀)
    (hr : (system dflt).Run (.start t₀) ls s)
    (hres : s.restaurant.db.tables.reservations.get? o = some ⟨o, items⟩)
    (hty : env.eventType = .stockRelease) (ho : env.payload.orderId = some o)
    (hnew : env.eventId ∉ s.restaurant.db.mail.processed) :
    (Restaurant.Returnable items s.restaurant.db.tables →
      ∃ t, (Restaurant.handleTx env f).run s.restaurant.db = .ok (Restaurant.returned env,
          ⟨t, Restaurant.marked env s.restaurant.db.mail⟩) ∧
        Restaurant.Releases o items s.restaurant.db.tables t) ∧
    (¬ Restaurant.Returnable items s.restaurant.db.tables →
      ∃ x, (Restaurant.handleTx env f).run s.restaurant.db = .error x) ∧
    ((∀ r ∈ s.order.db.tables.orders.rows, s.stores.Reserved r → ∀ item ∈ r.items,
        item.itemId ∈ items.map Item.itemId → 0 ≤ item.quantity) →
      Restaurant.Returnable items s.restaurant.db.tables) :=
  ⟨Restaurant.run_handleTx_returnable hty ho hnew hres,
    Restaurant.run_handleTx_not_returnable hty ho hnew hres,
    (run_consistent ht₀ hr).1.returnable hfits (run_stocked ht₀.unreserved hr) hres⟩

/-- Forty burgers are reserved for the order 70, and given back. -/
theorem release_given_burgers :
    let burger : UUID := 0x11111111111111111111111111111111
    let items : List Item := [⟨burger, 40, 10⟩]
    let req : Order.Request := ⟨1, ⟨5, items.map .of⟩, none, none⟩
    let run : List Label :=
      [.request req, .run .order 0 ⟨70, 1, 2, 0⟩, .relay .order 2 none,
        .deliver .restaurant ⟨1, .orderPlaced, 0, Order.eventPayload req 70⟩,
        .run .restaurant 0 ⟨0, 11, 12, 0⟩]
    let env : Envelope := ⟨9, .stockRelease, 0, { orderId := some 70 }⟩
    ∃ n, (State.start seeded).runs "success" run = some n ∧
      ∃ t, (Restaurant.handleTx env ⟨0, 13, 14, 0⟩).run n.restaurant.db =
          .ok (Restaurant.returned env, ⟨t, Restaurant.marked env n.restaurant.db.mail⟩) ∧
        Restaurant.Releases 70 items n.restaurant.db.tables t := by
  intro burger items req run env
  have hrun : ((State.start seeded).runs "success" run).map (fun n =>
      (n.restaurant.db.tables.reservations.get? 70, n.restaurant.db.mail.processed,
        decide (∀ r ∈ n.order.db.tables.orders.rows, ∀ item ∈ r.items, 0 ≤ item.quantity))) =
      some (some ⟨70, items⟩, [1], true) := by decide +kernel
  obtain ⟨n, hn, hobs⟩ := Option.map_eq_some_iff.1 hrun
  simp only [Prod.mk.injEq, decide_eq_true_eq] at hobs
  obtain ⟨hres, hnew, hpos⟩ := hobs
  have hnot : env.eventId ∉ n.restaurant.db.mail.processed := by rw [hnew]; decide
  obtain ⟨hgiven, -, hrange⟩ := release_given (f := ⟨0, 13, 14, 0⟩) migrated_seeded
    fits_seeded (run_of_runs hn) hres rfl rfl hnot
  exact ⟨n, hn, hgiven (hrange fun r hr _ item hitem _ => hpos r hr item hitem)⟩

/-- An order of minus 150 burgers makes 250 of 100, of which another one takes 200: the first one
cannot be given back. -/
theorem release_refused :
    ¬ ∀ (ls : List Label) (s : State), (system "success").Run (.start seeded) ls s →
      ∀ o items env f, s.restaurant.db.tables.reservations.get? o = some ⟨o, items⟩ →
        env.eventType = .stockRelease → env.payload.orderId = some o →
        env.eventId ∉ s.restaurant.db.mail.processed →
        ∃ p d', (Restaurant.handleTx env f).run s.restaurant.db = .ok (p, d') ∧
          Restaurant.Releases o items s.restaurant.db.tables d'.tables := by
  let burger : UUID := 0x11111111111111111111111111111111
  let req₁ : Order.Request := ⟨1, ⟨5, [⟨burger, -150, 10⟩]⟩, none, none⟩
  let req₂ : Order.Request := ⟨1, ⟨5, [⟨burger, 200, 10⟩]⟩, none, none⟩
  let run : List Label :=
    [.request req₁, .run .order 0 ⟨70, 1, 2, 0⟩, .relay .order 2 none,
      .deliver .restaurant ⟨1, .orderPlaced, 0, Order.eventPayload req₁ 70⟩,
      .run .restaurant 0 ⟨0, 11, 12, 0⟩,
      .request req₂, .run .order 1 ⟨71, 3, 4, 0⟩, .relay .order 4 none,
      .deliver .restaurant ⟨3, .orderPlaced, 0, Order.eventPayload req₂ 71⟩,
      .run .restaurant 1 ⟨0, 13, 14, 0⟩]
  let env : Envelope := ⟨9, .stockRelease, 0, { orderId := some 70 }⟩
  have hrun : ((State.start seeded).runs "success" run).map (fun n =>
      (n.restaurant.db.tables.reservations.get? 70, n.restaurant.db.mail.processed,
        ((Restaurant.handleTx env ⟨0, 15, 16, 0⟩).run n.restaurant.db).toOption.isSome)) =
      some (some ⟨70, [⟨burger, -150, 10⟩]⟩, [3, 1], false) := by decide +kernel
  obtain ⟨n, hn, hobs⟩ := Option.map_eq_some_iff.1 hrun
  simp only [Prod.mk.injEq] at hobs
  obtain ⟨hres, hnew, hfails⟩ := hobs
  intro hclaim
  obtain ⟨p, d', hok, -⟩ := hclaim run n (run_of_runs hn) 70 _ env ⟨0, 15, 16, 0⟩ hres rfl rfl
    (by rw [hnew]; decide)
  rw [hok] at hfails
  cases hfails

end Saga

end FoodFlow
