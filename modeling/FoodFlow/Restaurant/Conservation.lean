import FoodFlow.Restaurant.Consumers

/-!
# Conservation of stock

What has left the stock of an item is what the reservations hold of it: `stock_conserved`.  The
node may handle any envelopes in any order, kill handlers and restart the service, which runs the
migrations again.
-/

namespace FoodFlow

namespace Restaurant

/-- The quantity of an item held by the reservations. -/
def Tables.reserved (t : Tables) (i : UUID) : ℤ := t.reservations.sum fun r => totalOf i r.items

/-- What the migrations leave: no quantity is negative, and nothing is reserved. -/
structure Migrated (d : Db) : Prop where
  seeded : ∃ d₀, d = migrate d₀
  nonNeg : NonNeg d.tables
  unreserved : d.tables.reservations = .empty

/-- The consumer: every envelope may be delivered, at any time and any number of times, and the
service may restart. -/
def rules : Node.Rules db Fresh Empty Handled where
  start p := ∃ env, p = handleMessage env
  env g := g = migrate

/-- The items stocked are those of `t₀`, and what is missing of each is reserved. -/
structure Conserved (t₀ t : Tables) : Prop where
  balance : ∀ i, (t.quantity i).map (· + t.reserved i) = t₀.quantity i
  nonNeg : NonNeg t

/-! ### The operations keep the balance -/

variable {t₀ t t' : Tables} {o : UUID} {items : List Item}

theorem reserved_of_reserves (h : Reserves o items t t') (i : UUID) :
    t'.reserved i = t.reserved i + totalOf i items := by
  rw [Tables.reserved, h.reservations, Table.sum_insert h.unreserved, Tables.reserved]

theorem reserved_of_releases (h : Releases o items t t') (i : UUID) :
    t'.reserved i + totalOf i items = t.reserved i := by
  rw [Tables.reserved, h.reservations, Tables.reserved]
  exact Table.sum_erase h.reserved _

theorem conserved_refl (hr : t.reservations = .empty) (hn : NonNeg t) : Conserved t t := by
  refine ⟨fun i => ?_, hn⟩
  rw [Tables.reserved, hr]
  cases t.quantity i <;> simp

theorem Conserved.reserves (hc : Conserved t₀ t) (h : Reserves o items t t') :
    Conserved t₀ t' := by
  refine ⟨fun i => ?_, h.nonNeg hc.nonNeg⟩
  rw [← hc.balance i, h.quantity, reserved_of_reserves h, Option.map_map]
  congr 1
  funext q
  simp only [Function.comp]
  ring

theorem Conserved.releases (hc : Conserved t₀ t) (h : Releases o items t t') :
    Conserved t₀ t' := by
  refine ⟨fun i => ?_, h.nonNeg hc.nonNeg⟩
  rw [← hc.balance i, h.quantity, ← reserved_of_releases h, Option.map_map]
  congr 1
  funext q
  simp only [Function.comp]
  ring

theorem Effect.conserved {env : Envelope} {f : Fresh} {d d' : Db} (he : Effect env f d d')
    (hc : Conserved t₀ d.tables) : Conserved t₀ d'.tables := by
  cases he with
  | duplicate _ => exact hc
  | unknown _ _ => exact hc
  | reserved _ _ _ _ hr _ => exact hc.reserves hr
  | rejected _ _ _ _ _ _ => exact hc
  | released _ _ _ hr => exact hc.releases hr
  | notFound _ _ _ _ => exact hc

/-! ### Restarts -/

/-- Every item of the seed is stocked. -/
def Seeded (t : Tables) : Prop := ∀ r ∈ seedStock, (t.quantity r.itemId).isSome

theorem quantity_insert (s : Table StockRow.itemId) (r : StockRow) (i : UUID) :
    (((s.insert r).get? i).map StockRow.quantity).isSome ↔
      ((s.get? i).map StockRow.quantity).isSome ∨ r.itemId = i := by
  cases h : s.get? r.itemId with
  | none =>
    rw [Table.get?_insert h]
    by_cases hi : r.itemId = i <;> simp [hi]
  | some r' =>
    rw [Table.insert_of_get? h]
    by_cases hi : r.itemId = i
    · subst hi; simp [h]
    · simp [hi]

theorem quantity_foldl_insert {rs : List StockRow} {s : Table StockRow.itemId} {i : UUID}
    (h : ((s.get? i).map StockRow.quantity).isSome ∨ ∃ r ∈ rs, r.itemId = i) :
    (((rs.foldl Table.insert s).get? i).map StockRow.quantity).isSome := by
  induction rs generalizing s with
  | nil =>
    rcases h with h | ⟨r, hr, -⟩
    · exact h
    · cases hr
  | cons r rs ih =>
    refine ih ?_
    rw [quantity_insert]
    rcases h with h | ⟨r', hr', rfl⟩
    · exact .inl (.inl h)
    · rcases List.mem_cons.1 hr' with rfl | hr'
      · exact .inl (.inr rfl)
      · exact .inr ⟨r', hr', rfl⟩

theorem stock_migrate (d : Db) :
    (migrate d).tables.stock = seedStock.foldl Table.insert d.tables.stock := by
  rw [migrate]

theorem mail_migrate (d : Db) : (migrate d).mail = d.mail := by
  rw [migrate]

theorem seeded_migrate (d : Db) : Seeded (migrate d).tables := by
  intro r hr
  rw [Tables.quantity, stock_migrate]
  exact quantity_foldl_insert (.inr ⟨r, hr, rfl⟩)

/-- What the migrations leave has the items of the seed. -/
theorem Migrated.seededTables {d : Db} (h : Migrated d) : Seeded d.tables := by
  obtain ⟨d₀, rfl⟩ := h.seeded
  exact seeded_migrate d₀

theorem foldl_insert_of_get? {rs : List StockRow} {s : Table StockRow.itemId}
    (h : ∀ r ∈ rs, ((s.get? r.itemId).map StockRow.quantity).isSome) :
    rs.foldl Table.insert s = s := by
  induction rs with
  | nil => rfl
  | cons r rs ih =>
    have hr := h r List.mem_cons_self
    rw [Option.isSome_map] at hr
    obtain ⟨r', hr'⟩ := Option.isSome_iff_exists.1 hr
    rw [List.foldl_cons, Table.insert_of_get? hr']
    exact ih fun r hr => h r (List.mem_cons_of_mem _ hr)

/-- A restart of a seeded database changes nothing. -/
theorem migrate_of_seeded {d : Db} (h : Seeded d.tables) : migrate d = d := by
  rw [migrate, foldl_insert_of_get? h]

theorem Conserved.seeded (hc : Conserved t₀ t) (h : Seeded t₀) : Seeded t := by
  intro r hr
  have := h r hr
  rwa [← hc.balance r.itemId, Option.isSome_map] at this

/-! ### Every run -/

/-- **Stock conservation**: in every state the consumer can reach from a freshly migrated
database, every item stocked at first is still stocked, its quantity is not negative, and together
with what the reservations hold of it gives the initial quantity. -/
theorem stock_conserved {d₀ : Db} (h₀ : Migrated d₀) {n : Node db Fresh Empty Handled}
    (hr : (Node.lts rules (· = d₀)).Reachable n) {i : UUID} {q₀ : ℤ}
    (hi : d₀.tables.quantity i = some q₀) :
    ∃ q, n.db.tables.quantity i = some q ∧ q + n.db.tables.reserved i = q₀ ∧ 0 ≤ q := by
  have hseed := h₀.seededTables
  have hc : Conserved d₀.tables n.db.tables := by
    refine (Node.invariant (fun d : Db => Conserved d₀.tables d.tables)
      (fun _ p => (∃ env, p = handleMessage env) ∨ ∃ r, p = .done r)
      ?_ ?_ ?_ ?_ ?_ ?_ hr).1
    · rintro d rfl
      exact conserved_refl h₀.unreserved h₀.nonNeg
    · exact fun d p _ hp => .inl hp
    · rintro d o k _ (⟨env, h⟩ | ⟨r, h⟩) <;> cases h
    · rintro d f t e p d' hI - (⟨env, h⟩ | ⟨r, h⟩) hrun
      · cases h
        obtain ⟨rfl, he⟩ := handleTx_ok hrun
        exact ⟨he.conserved hI, .inr ⟨_, rfl⟩, fun _ h => h⟩
      · cases h
    · rintro d f t e x - - (⟨env, h⟩ | ⟨r, h⟩) -
      · cases h
        exact .inr (handleError_done env x)
      · cases h
    -- a restart finds every item of the seed
    · rintro d g hI rfl
      rw [migrate_of_seeded (hI.seeded hseed)]
      exact ⟨hI, fun _ h => h⟩
  have hb := hc.balance i
  rw [hi] at hb
  obtain ⟨q, hq, hsum⟩ := Option.map_eq_some_iff.1 hb
  exact ⟨q, hq, hsum, hc.nonNeg i q hq⟩

/-- The order 7 of burgers, listed twice, and of a negative quantity of fries: it is placed, the
service restarts, and the order is released. -/
theorem stock_conserved_burgers :
    let burger := 0x11111111111111111111111111111111
    let items : List Item :=
      [⟨burger, 3, 10⟩, ⟨0x22222222222222222222222222222222, -4, 5⟩, ⟨burger, 2, 10⟩]
    let placed : Envelope := ⟨1, .orderPlaced, 0, { orderId := some 7, items := some items }⟩
    let release : Envelope := ⟨2, .stockRelease, 0, { orderId := some 7 }⟩
    let d₀ : Db := migrate ⟨⟨.empty, .empty⟩, .empty⟩
    let run : List (Node.Label db Fresh Empty Handled) :=
      [.start (handleMessage placed), .run 0 ⟨3, 4, 5, 0⟩, .env migrate,
        .start (handleMessage release), .run 1 ⟨6, 7, 8, 0⟩]
    ∃ n, LTS.runAct Node.act (Node.idle d₀) run = some n ∧
      ∃ q, n.db.tables.quantity burger = some q ∧ q + n.db.tables.reserved burger = 100 ∧
        0 ≤ q := by
  intro burger items placed release d₀ run
  have hrun : (LTS.runAct Node.act (Node.idle d₀) run).isSome := by decide +kernel
  obtain ⟨n, hn⟩ := Option.isSome_iff_exists.1 hrun
  have hnonneg : NonNeg d₀.tables := by
    intro i q hq
    obtain ⟨r, hr, rfl⟩ := Option.map_eq_some_iff.1 hq
    have hall : ∀ r ∈ d₀.tables.stock.rows, 0 ≤ r.quantity := by decide +kernel
    exact hall r (Table.mem_of_get? hr)
  refine ⟨n, hn, stock_conserved ⟨⟨_, rfl⟩, hnonneg, rfl⟩
    (LTS.reachable_of_runAct ⟨d₀, rfl, rfl⟩ ?_ hn) (by decide +kernel)⟩
  intro s l hl
  simp only [run, List.mem_cons, List.not_mem_nil, or_false] at hl
  rcases hl with rfl | rfl | rfl | rfl | rfl
  exacts [⟨_, rfl⟩, trivial, rfl, ⟨_, rfl⟩, trivial]

end Restaurant

end FoodFlow
