import FoodFlow.Shared.Locking
import FoodFlow.Restaurant.Serializability

/-!
# When the handlers of the restaurant service wait for each other

`reserve_stock` and `release_stock` lock the stock rows of an order one after the other, in the
order in which it lists its items; the handlers keep their locks to the end of their transactions.

* `Lists`, `Listed` : the items of an order are listed in a common order;
* `lockRank` : the stock rows in that order, then the reservations;
* `handlers_end` : **when all orders list their items in a common order, the handlers never wait
  for each other in a circle**: from every state, all of them can come to their end;
* `handlers_deadlock` : two orders that list two items in opposite order can be handled so that
  nothing can happen any more.
-/

namespace FoodFlow

namespace Restaurant

variable {ρ : UUID → ℕ}

/-- The items are listed in the order `ρ`. -/
def Lists (ρ : UUID → ℕ) (items : List Item) : Prop :=
  items.Pairwise fun x y => ρ x.itemId ≤ ρ y.itemId

instance (ρ : UUID → ℕ) (items : List Item) : Decidable (Lists ρ items) :=
  inferInstanceAs (Decidable (List.Pairwise _ _))

/-- So are those of the order that the event is about. -/
def Listed (ρ : UUID → ℕ) (env : Envelope) : Prop :=
  ∀ items, env.payload.items = some items → Lists ρ items

/-- And those of the reservations. -/
def ReservedInOrder (ρ : UUID → ℕ) (t : Tables) : Prop :=
  ∀ r ∈ t.reservations.rows, Lists ρ r.items

/-- The ranks of the locks on the tables of the service. -/
def lockRank (ρ : UUID → ℕ) : Lock → ℕ ⊕ₗ ℕ
  | .stock itemId => Sum.inlₗ (ρ itemId + 1)
  | .reservation _ => Sum.inrₗ 0

/-- The rank of the reservations, above which stock rows are not locked. -/
def reservationRank : (ℕ ⊕ₗ ℕ) ⊕ₗ ℕ := Sum.inlₗ (Sum.inrₗ 0)

/-- The rank of a stock row. -/
def stockRank (ρ : UUID → ℕ) (itemId : UUID) : (ℕ ⊕ₗ ℕ) ⊕ₗ ℕ := Sum.inlₗ (Sum.inlₗ (ρ itemId + 1))

/-- What the transactions lock next. -/
abbrev Climbs (ρ : UUID → ℕ) {A : Type} (Q : Except Err A → (ℕ ⊕ₗ ℕ) ⊕ₗ ℕ → Prop)
    (b : (ℕ ⊕ₗ ℕ) ⊕ₗ ℕ) (held : List db.Lock) (saved : List (List db.Lock)) (t : Tx db A) : Prop :=
  t.Ascends (Mail.rank (lockRank ρ)) (fun d => ReservedInOrder ρ d.tables) Q b held saved

theorem stockRank_lt {i j : UUID} (h : ρ i < ρ j) : stockRank ρ i < stockRank ρ j := by
  simpa [stockRank] using h

theorem stockRank_lt_reservationRank (i : UUID) : stockRank ρ i < reservationRank := by
  simp [stockRank, reservationRank]

theorem reservationRank_lt : reservationRank < Sum.inrₗ 0 := by
  simp [reservationRank]

theorem exists_max {α : Type} [LinearOrder α] (b x : α) :
    ∃ c, b ≤ c ∧ x ≤ c ∧ ∀ y, b < y → x < y → c < y :=
  ⟨max b x, le_max_left _ _, le_max_right _ _, fun _ => max_lt⟩

/-! ### The stock rows -/

section Stock

variable {A : Type} {Q : Except Err A → (ℕ ⊕ₗ ℕ) ⊕ₗ ℕ → Prop} {b : (ℕ ⊕ₗ ℕ) ⊕ₗ ℕ}
  {held : List db.Lock} {saved : List (List db.Lock)} {item : Item} {items : List Item}

/-- Only a reservation enters the order of its items. -/
theorem exec_keeps {q : Stmt} {t : Tables} {x : q.Res} {ws : List Write}
    (hq : ∀ r, q = .insertReservation r → Lists ρ r.items) (h : exec q t = .ok (x, ws)) :
    tables.Keeps (ReservedInOrder ρ) ws := by
  have changes {i : UUID} {δ : ℤ} {ws : List Write} (h : changeStock t i δ = .ok ws) :
      tables.Keeps (ReservedInOrder ρ) ws := by
    refine Dbms.keeps_of_forall fun w hw d hd => ?_
    unfold changeStock at h
    split at h
    · cases h
      cases hw
    · split_ifs at h
      cases h
      obtain rfl := List.mem_singleton.1 hw
      exact hd
  have mapped {i : UUID} {δ : ℤ} {y : Unit} {ws : List Write}
      (h : (changeStock t i δ).map (fun ws => ((), ws)) = .ok (y, ws)) :
      tables.Keeps (ReservedInOrder ρ) ws := by
    cases hc : changeStock t i δ with
    | error e => rw [hc] at h; cases h
    | ok ws' =>
      rw [hc] at h
      cases h
      exact changes hc
  cases q with
  | selectStockForUpdate i =>
    cases h
    exact fun d hd => hd
  | selectReservation o =>
    cases h
    exact fun d hd => hd
  | deductStock qty i =>
    simp only [exec] at h
    split_ifs at h
    exact mapped h
  | addStock qty i =>
    simp only [exec] at h
    split_ifs at h
    exact mapped h
  | insertReservation r =>
    simp only [exec] at h
    split_ifs at h
    cases h
    intro d hd r' hr'
    rcases Table.mem_rows_insert.1 hr' with hr' | ⟨rfl, -⟩
    · exact hd r' hr'
    · exact hq _ rfl
  | deleteReservation o =>
    cases h
    intro d hd r' hr'
    exact hd r' (Table.mem_rows_erase.1 hr').1

/-- The stock rows of the items are owned or rank above `b`. -/
def Ready (ρ : UUID → ℕ) (b : (ℕ ⊕ₗ ℕ) ⊕ₗ ℕ) (held : List db.Lock) (items : List Item) : Prop :=
  ∀ item ∈ items, .inl (.stock item.itemId) ∈ held ∨ b < stockRank ρ item.itemId

theorem Ready.mono {held' : List db.Lock} (h : Ready ρ b held items) (hsub : held ⊆ held') :
    Ready ρ b held' items :=
  fun item hitem => (h item hitem).imp_left fun hm => hsub hm

/-- The row of the first item has been locked. -/
theorem Ready.take (hρ : Function.Injective ρ) {c : (ℕ ⊕ₗ ℕ) ⊕ₗ ℕ}
    (hc : ∀ x, b < x → stockRank ρ item.itemId < x → c < x) (h : Ready ρ b held (item :: items))
    (hlists : Lists ρ (item :: items)) :
    Ready ρ c (held ++ [.inl (.stock item.itemId)]) items := by
  intro j hj
  rcases h j (List.mem_cons_of_mem _ hj) with hown | hlt
  · exact .inl (List.mem_append_left _ hown)
  · rcases ((List.pairwise_cons.1 hlists).1 j hj).lt_or_eq with hord | heq
    · exact .inr (hc _ hlt (stockRank_lt hord))
    · -- the same item again
      rw [hρ heq]
      exact .inl (List.mem_append_right _ (List.mem_singleton_self _))

/-- A statement that locks the row of the first item, if there is one. -/
theorem climbs_stock (hρ : Function.Injective ρ) {q : Stmt} {k : q.Res → Tx db A}
    (hq : ∀ t, needs q t = if (t.quantity item.itemId).isSome then [.stock item.itemId] else [])
    (hkeeps : ∀ r, q = .insertReservation r → Lists ρ r.items) (h : Ready ρ b held (item :: items))
    (hlists : Lists ρ (item :: items)) (hb : b < reservationRank)
    (hk : ∀ t x ws b' held', exec q t = .ok (x, ws) → Ready ρ b' held' items →
      b' < reservationRank →
        ((t.quantity item.itemId).isSome → .inl (.stock item.itemId) ∈ held') →
          Climbs ρ Q b' held' saved (k x)) :
    Climbs ρ Q b held saved (Tx.bind (Mail.own tables q) k) := by
  intro d hd
  have hneeds : db.needs (.inl q) d = (needs q d.tables).map .inl := rfl
  by_cases hrow : (d.tables.quantity item.itemId).isSome
  · rw [hq, if_pos hrow] at hneeds
    obtain ⟨c, hbc, hle, hc⟩ := exists_max b (stockRank ρ item.itemId)
    refine ⟨c, hbc, fun l hl => ?_, fun x ws hx => ?_⟩
    · rw [hneeds] at hl
      obtain rfl := List.mem_singleton.1 hl
      exact (h item List.mem_cons_self).imp_right fun hlt => ⟨hlt, hle⟩
    · obtain ⟨ws', rfl, hx'⟩ := Mail.exec_inl hx
      refine ⟨Mail.keeps_inl (exec_keeps hkeeps hx'), ?_⟩
      rw [hneeds]
      exact hk _ x ws' _ _ hx' (h.take hρ hc hlists) (hc _ hb (stockRank_lt_reservationRank _))
        fun _ => List.mem_append_right _ (List.mem_singleton_self _)
  · rw [hq, if_neg hrow] at hneeds
    refine ⟨b, le_rfl, fun l hl => ?_, fun x ws hx => ?_⟩
    · rw [hneeds] at hl
      cases hl
    obtain ⟨ws', rfl, hx'⟩ := Mail.exec_inl hx
    refine ⟨Mail.keeps_inl (exec_keeps hkeeps hx'), ?_⟩
    rw [hneeds]
    have htail : Ready ρ b held items := fun j hj => h j (List.mem_cons_of_mem _ hj)
    exact hk _ x ws' _ _ hx' (htail.mono (List.subset_append_left _ _)) hb fun hs => absurd hs hrow

theorem climbs_addItems (hρ : Function.Injective ρ) {k : Unit → Tx db A}
    (hk : ∀ b held, b < reservationRank → Climbs ρ Q b held saved (k ())) :
    ∀ {items : List Item} {b held}, Lists ρ items → Ready ρ b held items → b < reservationRank →
      Climbs ρ Q b held saved (Tx.bind (addItems items) k) := by
  intro items
  induction items with
  | nil => exact fun _ _ hb => hk _ _ hb
  | cons item items ih =>
    intro b held hlists hready hb
    exact climbs_stock hρ (fun _ => rfl) (fun _ h => by cases h) hready hlists hb
      fun t x ws b' held' _ hready' hb' _ => ih (List.pairwise_cons.1 hlists).2 hready' hb'

theorem climbs_deductItems (hρ : Function.Injective ρ) {k : Unit → Tx db A}
    (hk : ∀ b held, b < reservationRank → Climbs ρ Q b held saved (k ()))
    (herr : ∀ e b, b < reservationRank → Q (.error e) b) :
    ∀ {items : List Item} {b held}, Lists ρ items → Ready ρ b held items → b < reservationRank →
      Climbs ρ Q b held saved (Tx.bind (deductItems items) k) := by
  intro items
  induction items with
  | nil => exact fun _ _ hb => hk _ _ hb
  | cons item items ih =>
    intro b held hlists hready hb
    refine climbs_stock hρ (fun _ => rfl) (fun _ h => by cases h) hready hlists hb
      fun t x ws b' held' hx hready' hb' hown => ?_
    obtain ⟨rfl, -⟩ := Prod.mk.inj (Except.ok.inj hx)
    cases hrow : t.quantity item.itemId with
    | none => exact herr _ _ hb'
    | some available =>
      show Climbs ρ Q b' held' saved (Tx.bind (if available < item.quantity then _ else _) k)
      split_ifs with hlt
      · exact herr _ _ hb'
      · -- the row has been locked by the `SELECT`
        have hown' : Sum.inl (Lock.stock item.itemId) ∈ held' := hown (by rw [hrow]; rfl)
        refine Mail.ascends_own (D := tables) (q := .deductStock item.quantity item.itemId) le_rfl
          (fun t l hl => .inl ?_) fun t y ws _ hy => ⟨?_, ?_⟩
        · simp only [needs] at hl
          split_ifs at hl
          · rwa [List.mem_singleton.1 hl]
          · cases hl
        · exact exec_keeps (q := .deductStock item.quantity item.itemId) (fun _ h => by cases h) hy
        · refine ih (List.pairwise_cons.1 hlists).2 (hready'.mono ?_) hb'
          exact List.subset_append_left _ _

end Stock

/-! ### The handlers -/

section Handlers

variable {env : Envelope} {f : Fresh} {b : (ℕ ⊕ₗ ℕ) ⊕ₗ ℕ} {held : List db.Lock}
  {saved : List (List db.Lock)}

/-- The handlers, and what they return. -/
inductive Handler (ρ : UUID → ℕ) : Process → Prop
  | deliver (env : Envelope) : Listed ρ env → Handler ρ (handleMessage env)
  | done (r : Handled) : Handler ρ (.done r)

theorem returns_returned : World.Returns (Handler ρ) (.ok (returned env)) b := by
  rintro _ ⟨⟩
  exact .done _

theorem climbs_markProcessed (hb : b < Sum.inrₗ 1) :
    Climbs ρ (World.Returns (Handler ρ)) b held saved (markProcessed env) :=
  Mail.ascends_insertProcessed hb fun _ => returns_returned

theorem climbs_publishAndMark {ty : EventType} {o : UUID} {payload : Payload}
    (hb : b < Sum.inrₗ 0) :
    Climbs ρ (World.Returns (Handler ρ)) b held saved (publishAndMark env ty o payload f) :=
  Mail.ascends_insertOutbox hb fun _ => climbs_markProcessed (by simp)

/-- The reservation is locked after the stock rows. -/
theorem climbs_reservation {A : Type} {Q : Except Err A → (ℕ ⊕ₗ ℕ) ⊕ₗ ℕ → Prop} {q : Stmt}
    {k : q.Res → Tx db A} (hq : ∀ t, ∀ l ∈ needs q t, ∃ o, l = .reservation o)
    (hkeeps : ∀ r, q = .insertReservation r → Lists ρ r.items) (hb : b < reservationRank)
    (hk : ∀ x held, Climbs ρ Q reservationRank held saved (k x)) :
    Climbs ρ Q b held saved (Tx.bind (Mail.own tables q) k) := by
  refine Mail.ascends_own hb.le (fun t l hl => .inr ?_) fun t x ws _ hx =>
    ⟨exec_keeps hkeeps hx, hk x _⟩
  obtain ⟨o, rfl⟩ := hq _ l hl
  exact ⟨hb, le_rfl⟩

theorem climbs_reserveStock (hρ : Function.Injective ρ) {o : UUID} {items : List Item}
    (hlists : Lists ρ items) (hready : Ready ρ b held items) (hb : b < reservationRank) :
    Climbs ρ (fun _ b => b < Sum.inrₗ 0) b held saved (reserveStock o items) := by
  refine climbs_deductItems hρ (fun b held hb => ?_) (fun e b hb => hb.trans reservationRank_lt)
    hlists hready hb
  rw [← Tx.bind_pure_right (insertReservation o items)]
  refine climbs_reservation (q := .insertReservation ⟨o, items⟩) ?_ ?_ hb
    fun _ _ => reservationRank_lt
  · exact fun t l hl => ⟨o, List.mem_singleton.1 hl⟩
  · rintro _ ⟨⟩
    exact hlists

theorem climbs_releaseStock (hρ : Function.Injective ρ) {o : UUID} {A : Type}
    {Q : Except Err A → (ℕ ⊕ₗ ℕ) ⊕ₗ ℕ → Prop} {k : Unit → Tx db A}
    (hready : ∀ items, Ready ρ b held items) (hb : b < reservationRank)
    (hk : ∀ b held saved, b ≤ reservationRank → Climbs ρ Q b held saved (k ())) :
    Climbs ρ Q b held saved (Tx.bind (releaseStock o) k) := by
  refine Tx.ascends_free (fun _ => rfl) fun d x ws hd hx => ?_
  obtain ⟨ws', rfl, hx'⟩ := Mail.exec_inl hx
  have hkeeps : tables.Keeps (ReservedInOrder ρ) ws' :=
    exec_keeps (q := .selectReservation o) (fun _ h => by cases h) hx'
  refine ⟨Mail.keeps_inl hkeeps, ?_⟩
  obtain ⟨rfl, -⟩ := Prod.mk.inj (Except.ok.inj hx')
  cases hrow : d.tables.reservations.get? o with
  | none => exact hk _ _ _ hb.le
  | some r =>
    have hlists : Lists ρ r.items := hd r (Table.mem_of_get? hrow)
    have hadd : Climbs ρ (fun x b => b ≤ reservationRank ∧ x = .ok ()) b held saved
        (Tx.bind (addItems r.items) fun _ => deleteReservation o) := by
      refine climbs_addItems hρ (fun b held hb => ?_) hlists (hready _) hb
      rw [← Tx.bind_pure_right (deleteReservation o)]
      refine climbs_reservation (q := .deleteReservation o) (fun t l hl => ?_)
        (fun _ h => by cases h) hb fun _ _ => ⟨le_rfl, rfl⟩
      simp only [needs] at hl
      split_ifs at hl
      · exact ⟨o, List.mem_singleton.1 hl⟩
      · cases hl
    exact hadd.bind (fun _ b held saved h => hk b held saved h.1) fun e b h => by cases h.2

theorem climbs_handleTx (hρ : Function.Injective ρ) (henv : Listed ρ env) :
    Climbs ρ (World.Returns (Handler ρ)) (Sum.inlₗ (Sum.inlₗ 0)) [] [] (handleTx env f) := by
  have hready : ∀ items, Ready ρ (Sum.inlₗ (Sum.inlₗ 0)) [] items := fun items item _ =>
    .inr (by simp [stockRank])
  have hb : Sum.inlₗ (Sum.inlₗ 0) < reservationRank := by simp [reservationRank]
  refine Mail.ascends_selectProcessed fun existing => ?_
  cases existing with
  | true => exact returns_returned
  | false =>
    show Climbs ρ (World.Returns (Handler ρ)) (Sum.inlₗ (Sum.inlₗ 0)) [] [] (handleBody env f)
    unfold handleBody
    split
    · rintro _ ⟨⟩
    · split
      · split
        · rintro _ ⟨⟩
        · rename_i items hitems
          refine (climbs_reserveStock hρ (henv items hitems) (hready items) hb).nested
            (fun _ _ _ _ hlt => climbs_publishAndMark hlt) fun e _ _ _ hlt => ?_
          cases e with
          | insufficientStock e => exact climbs_publishAndMark hlt
          | sql e => rintro _ ⟨⟩
          | keyError key => rintro _ ⟨⟩
      · refine climbs_releaseStock hρ hready hb fun b _ _ hle => climbs_markProcessed ?_
        exact hle.trans_lt (by simp [reservationRank])
      · exact returns_returned

theorem disciplined (hρ : Function.Injective ρ) :
    World.Disciplined (Mail.rank (lockRank ρ)) (fun d : Db => ReservedInOrder ρ d.tables)
      (Handler ρ) where
  call o k h := o.elim
  txn t e f h := by
    generalize hp : Proc.txn t e = p at h
    cases h with
    | deliver env henv =>
      cases hp
      exact ⟨_, climbs_handleTx hρ henv⟩
    | done r => cases hp
  err t e x h := by
    generalize hp : Proc.txn t e = p at h
    cases h with
    | deliver env henv =>
      cases hp
      obtain ⟨r, hr⟩ := handleError_done env x
      rw [hr]
      exact .done r
    | done r => cases hp

end Handlers

/-! ### Every interleaving -/

section Interleavings

variable {envs : List Envelope} {d₀ : Db} {w : World db Fresh Empty Handled}

theorem ordered_of_reachable (hρ : Function.Injective ρ) (henvs : ∀ env ∈ envs, Listed ρ env)
    (hres : ReservedInOrder ρ d₀.tables) (h : (concurrently envs d₀).Reachable w) :
    w.Ordered (Mail.rank (lockRank ρ)) (fun d : Db => ReservedInOrder ρ d.tables) (Handler ρ) := by
  refine h.invariant ?_ fun w l w' hw hst => ?_
  · rintro _ rfl
    have hidle : ∀ s ∈ envs.map fun env => some (Slot.idle (handleMessage env)),
        ∃ env ∈ envs, s = some (.idle (handleMessage env)) := fun s hs => by
      obtain ⟨env, henv, rfl⟩ := List.mem_map.1 hs
      exact ⟨env, henv, rfl⟩
    refine ⟨fun i j s s' _ hi _ => ?_, fun c e hm => ?_, hres, fun s hs => ?_⟩
    · obtain ⟨env, -, rfl⟩ := hidle s (List.mem_of_getElem? hi)
      exact List.disjoint_nil_left _
    · obtain ⟨env, -, he⟩ := hidle _ hm
      cases he
    · obtain ⟨env, henv, he⟩ := hidle _ hs
      cases he
      exact .deliver env (henvs env henv)
  · have hst' : (World.lts handlers fun _ => True).step w l w' := hst
    exact hw.step (disciplined hρ) (fun _ hp => False.elim hp) hst'

/-- **No deadlock when items are listed in order.**  When the orders that are handled, and those
whose stock has been reserved, list their items in a common order, then in every state of every
interleaving of the handlers, the transactions that are open can all come to their end: nobody has
to be killed for the others to go on. -/
theorem handlers_end (hρ : Function.Injective ρ) (henvs : ∀ env ∈ envs, Listed ρ env)
    (hres : ReservedInOrder ρ d₀.tables) (h : (concurrently envs d₀).Reachable w) :
    ∃ ls w', ((concurrently envs d₀).restrict World.Stepped).Run w ls w' ∧
      ∀ s ∈ w'.slots, World.isBusy s = false := by
  obtain ⟨ls, w', hr, hend⟩ :
      ∃ ls w', ((World.lts handlers fun _ => True).restrict World.Stepped).Run w ls w' ∧
        ∀ s ∈ w'.slots, World.isBusy s = false :=
    World.exists_run_idle (disciplined hρ) (fun _ hp => False.elim hp) (fun _ _ => trivial)
      (ordered_of_reachable hρ henvs hres h)
  refine ⟨ls, w', hr.mono fun u l u' hst => ?_, hend⟩
  exact ⟨hst.1, hst.2⟩

/-- Two orders of the same two items: the second handler waits for the first. -/
theorem handlers_end_waiting :
    let placed (e o : UUID) : Envelope :=
      ⟨e, .orderPlaced, 0, { orderId := some o, items := some [⟨1, 2, 10⟩, ⟨2, 1, 5⟩] }⟩
    let envs := [placed 1 7, placed 2 8]
    let d₀ : Db := ⟨⟨(Table.empty.insert ⟨1, 3⟩).insert ⟨2, 3⟩, .empty⟩, .empty⟩
    let w₀ : World db Fresh Empty Handled :=
      ⟨d₀, envs.map fun env => some (.idle (handleMessage env)), []⟩
    let run : List (World.Label db Fresh Empty Handled) :=
      .begin 0 ⟨3, 4, 5, 0⟩ :: List.replicate 3 (.step 0) ++
        .begin 1 ⟨6, 7, 8, 0⟩ :: List.replicate 2 (.step 1)
    ∃ w, LTS.runAct (World.act (S := db)) w₀ run = some w ∧ (w.act (.step 1)).isNone = true ∧
      ∃ ls w', ((concurrently envs d₀).restrict World.Stepped).Run w ls w' ∧
        ∀ s ∈ w'.slots, World.isBusy s = false := by
  intro placed envs d₀ w₀ run
  have hrun : (LTS.runAct (World.act (S := db)) w₀ run).map
      (fun w => (w.act (.step 1)).isNone) = some true := by decide +kernel
  obtain ⟨w, hw, hwaits⟩ := Option.map_eq_some_iff.1 hrun
  have hsteps : (concurrently envs d₀).Run w₀ run w := by
    refine LTS.run_of_runAct (fun w l hl => ?_) hw
    cases l with
    | start p => simp [run] at hl
    | «begin» i f => exact trivial
    | step i => exact fun _ _ _ => trivial
    | kill i => exact trivial
  have hlisted : ∀ env ∈ envs, Listed id env := by
    intro env henv items hitems
    simp only [envs, List.mem_cons, List.not_mem_nil, or_false] at henv
    obtain rfl | rfl := henv <;> cases hitems <;> decide
  have hres : ReservedInOrder id d₀.tables := fun r hr => by cases hr
  exact ⟨w, hw, hwaits, handlers_end Function.injective_id hlisted hres ⟨w₀, run, rfl, hsteps⟩⟩

end Interleavings

/-! ### Items in opposite order -/

section Opposite

variable {env : Envelope} {f : Fresh} {o : UUID} {x : Item} {items rest : List Item} {d d₀ : Db}
  {err : Err → Tx db Process} {w : World db Fresh Empty Handled} {i : ℕ}

/-- The event places the order `o` of `items`. -/
structure Places (env : Envelope) (o : UUID) (items : List Item) : Prop where
  eventType : env.eventType = .orderPlaced
  orderId : env.payload.orderId = some o
  items : env.payload.items = some items

theorem Places.block (h : Places env o items) (f : Fresh) : ∃ err, Block env f o items err :=
  ⟨_, h.orderId, by rw [handleBody, h.orderId, h.eventType, h.items], fun _ => rfl⟩

/-- The transaction of a handler that is inside `reserve_stock`, where `m` is left to do. -/
def reserving (env : Envelope) (f : Fresh) (o : UUID) (err : Err → Tx db Process) (m : Tx db Unit)
    (writes : List db.Write) (held : List db.Lock) : Session db Process where
  prog := Tx.nested.inside (fun _ => publishAndMark env .stockReserved o env.payload f) err m
  writes := writes
  held := held
  saves := [([], [])]

/-- Inside the loop, where `rest` is left of `items`. -/
def looping (env : Envelope) (f : Fresh) (o : UUID) (err : Err → Tx db Process)
    (items rest : List Item) (writes : List db.Write) (held : List db.Lock) : Session db Process :=
  reserving env f o err ((deductItems rest).bind fun _ => insertReservation o items) writes held

/-- Inside the loop, before the `UPDATE` of the first item. -/
def deducting (env : Envelope) (f : Fresh) (o : UUID) (err : Err → Tx db Process)
    (items : List Item) (x : Item) (rest : List Item) : Session db Process :=
  reserving env f o err (((deductStock x.quantity x.itemId).bind fun _ => deductItems rest).bind
    fun _ => insertReservation o items) [] [.inl (.stock x.itemId)]

/-- The transaction that has deducted its first item. -/
def started (env : Envelope) (f : Fresh) (o : UUID) (err : Err → Tx db Process)
    (items : List Item) (x : Item) (rest : List Item) : Session db Process :=
  looping env f o err items rest [.inl (.changeStock x.itemId (-x.quantity))]
    [.inl (.stock x.itemId), .inl (.stock x.itemId)]

theorem next_start (hseen : env.eventId ∉ d.mail.processed) :
    (Session.start (handleTx env f)).next d = .go (.start (handleBody env f)) := by
  have h : (Session.start (handleTx env f)).next d = .go (.start
      (if decide (env.eventId ∈ d.mail.processed) then .pure (returned env)
        else handleBody env f)) := rfl
  simpa [hseen] using h

theorem deducts_iff {t : Tables} : deducts x t = true ↔ ∃ available,
    t.quantity x.itemId = some available ∧ x.quantity ≤ available ∧ int4 x.quantity = true ∧
      int4 (available - x.quantity) = true := by
  unfold deducts
  cases t.quantity x.itemId with
  | none => simp
  | some available => simp [and_assoc]

theorem next_looping (hx : deducts x d.tables = true) :
    (looping env f o err items (x :: rest) [] []).next d =
      .go (deducting env f o err items x rest) := by
  obtain ⟨available, hq, hle, -, -⟩ := deducts_iff.1 hx
  have hexec : db.exec (.inl (.selectStockForUpdate x.itemId)) d = .ok (some available, []) := by
    rw [← hq]
    rfl
  have hn : needs (.selectStockForUpdate x.itemId) d.tables = [.stock x.itemId] := by
    simp [needs, hq]
  refine (Session.next_of_stmt rfl hexec).trans ?_
  show Session.Next.go (reserving env f o err (Tx.bind (if available < x.quantity then
      .throw (Err.insufficientStock (.short x.itemId x.quantity available))
    else (deductStock x.quantity x.itemId).bind fun _ => deductItems rest)
      fun _ => insertReservation o items) []
    ((needs (.selectStockForUpdate x.itemId) d.tables).map .inl)) = _
  rw [if_neg (not_lt.2 hle), hn]
  rfl

theorem next_deducting (hx : deducts x d.tables = true) :
    (deducting env f o err items x rest).next d = .go (started env f o err items x rest) := by
  obtain ⟨available, hq, hle, hint, hint'⟩ := deducts_iff.1 hx
  have hexec : exec (.deductStock x.quantity x.itemId) d.tables =
      .ok ((), [.changeStock x.itemId (-x.quantity)]) := by
    have hadd : available + -x.quantity = available - x.quantity := rfl
    simp [exec, changeStock, hq, hint, hadd, hint', not_lt.2 hle, Except.map]
  have hexec' : db.exec (.inl (.deductStock x.quantity x.itemId)) d =
      (exec (.deductStock x.quantity x.itemId) d.tables).map fun p => (p.1, p.2.map .inl) := rfl
  have hn : needs (.deductStock x.quantity x.itemId) d.tables = [.stock x.itemId] := by
    simp [needs, hq]
  have hn' : db.needs (.inl (.deductStock x.quantity x.itemId)) d =
      (needs (.deductStock x.quantity x.itemId) d.tables).map .inl := rfl
  rw [hexec] at hexec'
  rw [hn] at hn'
  refine (Session.next_of_stmt rfl hexec').trans ?_
  exact congrArg (fun ls => Session.Next.go (looping env f o err items rest
    [.inl (.changeStock x.itemId (-x.quantity))] (.inl (.stock x.itemId) :: ls))) hn'

theorem needs_started {y : Item} (hy : (d.tables.quantity y.itemId).isSome) :
    (started env f o err items x (y :: rest)).needs d = [.inl (.stock y.itemId)] := by
  have h : (started env f o err items x (y :: rest)).needs d =
      (if ((apply (.changeStock x.itemId (-x.quantity)) d.tables).quantity y.itemId).isSome then
        [Lock.stock y.itemId] else []).map .inl := rfl
  rw [h, quantity_changeStock, Option.isSome_map, if_pos hy]
  rfl

/-- A handler gets to where it has deducted its first item, if nobody else has the row. -/
theorem exists_run_started {envs : List Envelope} (hB : Block env f o (x :: rest) err)
    (hi : w.slots[i]? = some (some (.idle (handleMessage env))))
    (hseen : env.eventId ∉ w.db.mail.processed) (hx : deducts x w.db.tables = true)
    (hfree : w.Free i [.inl (.stock x.itemId)]) :
    ∃ ls, (concurrently envs d₀).Run w ls
      (w.put i (started env f o err (x :: rest) x rest) (handleError env)) := by
  have hlt : i < w.slots.length := (List.getElem?_eq_some_iff.1 hi).1
  have hfree' : w.Free i [] := fun _ _ _ _ => List.disjoint_nil_left _
  obtain ⟨available, hq, -⟩ := deducts_iff.1 hx
  -- its steps, one after the other
  have hbegin : (concurrently envs d₀).step w (.begin i f)
      (w.put i (.start (handleTx env f)) (handleError env)) := by
    refine ⟨trivial, ?_⟩
    simp only [World.act, hi, handleMessage]
    rfl
  have step {c c' : Session db Process} {ls : List db.Lock} (hneeds : c.needs w.db = ls)
      (hfree : w.Free i ls) (hn : c.next w.db = .go c') :
      (concurrently envs d₀).step (w.put i c (handleError env)) (.step i)
        (w.put i c' (handleError env)) := by
    have hst : (World.lts handlers fun _ => True).step (w.put i c (handleError env)) (.step i)
        (w.put i c' (handleError env)) :=
      World.step_put hlt (hneeds ▸ hfree) hn fun _ _ => trivial
    exact hst
  have hopen : (Session.start (handleBody env f)).next w.db =
      .go (looping env f o err (x :: rest) (x :: rest) [] []) := by
    rw [hB.body]
    rfl
  have hstarts : (Session.start (handleTx env f)).needs w.db = [] := rfl
  have hopens : (Session.start (handleBody env f)).needs w.db = [] := by
    rw [hB.body]
    rfl
  have hselects : (looping env f o err (x :: rest) (x :: rest) [] []).needs w.db =
      (if (w.db.tables.quantity x.itemId).isSome then [Lock.stock x.itemId] else []).map .inl := rfl
  have hdeducts : (deducting env f o err (x :: rest) x rest).needs w.db =
      (if (w.db.tables.quantity x.itemId).isSome then [Lock.stock x.itemId] else []).map .inl := rfl
  rw [hq, Option.isSome_some, if_pos rfl] at hselects hdeducts
  have h₁ := step hstarts hfree' (next_start hseen)
  have h₂ := step hopens hfree' hopen
  have h₃ := step hselects hfree (next_looping hx)
  have h₄ := step hdeducts hfree (next_deducting hx)
  exact ⟨_, (((LTS.Run.single hbegin).snoc h₁).snoc h₂).snoc h₃ |>.snoc h₄⟩

/-- **A deadlock.**  Two orders that list the same two items in opposite order, and whose first
items are in stock, can be handled so that neither handler can go on: whatever the stock, and
whatever else they list, nothing can happen any more, except that one of them is killed. -/
theorem handlers_deadlock {env₁ env₂ : Envelope} {o₁ o₂ : UUID} {x₁ y₁ x₂ y₂ : Item}
    {rest₁ rest₂ : List Item} (h₁ : Places env₁ o₁ (x₁ :: y₁ :: rest₁))
    (h₂ : Places env₂ o₂ (y₂ :: x₂ :: rest₂)) (hx : x₂.itemId = x₁.itemId)
    (hy : y₁.itemId = y₂.itemId) (hne : x₁.itemId ≠ y₂.itemId)
    (hseen₁ : env₁.eventId ∉ d₀.mail.processed) (hseen₂ : env₂.eventId ∉ d₀.mail.processed)
    (hx₁ : deducts x₁ d₀.tables = true) (hy₂ : deducts y₂ d₀.tables = true) :
    ∃ w, (concurrently [env₁, env₂] d₀).Reachable w ∧ w.db = d₀ ∧
      (∀ s ∈ w.slots, World.isBusy s = true) ∧
        ∀ l w', (concurrently [env₁, env₂] d₀).step w l w' → ∃ i, l = .kill i := by
  obtain ⟨err₁, hB₁⟩ := h₁.block ⟨0, 0, 0, 0⟩
  obtain ⟨err₂, hB₂⟩ := h₂.block ⟨0, 0, 0, 0⟩
  let w₀ : World db Fresh Empty Handled :=
    ⟨d₀, [some (.idle (handleMessage env₁)), some (.idle (handleMessage env₂))], []⟩
  let c₁ := started env₁ ⟨0, 0, 0, 0⟩ o₁ err₁ (x₁ :: y₁ :: rest₁) x₁ (y₁ :: rest₁)
  let c₂ := started env₂ ⟨0, 0, 0, 0⟩ o₂ err₂ (y₂ :: x₂ :: rest₂) y₂ (x₂ :: rest₂)
  let w₁ := w₀.put 0 c₁ (handleError env₁)
  let w₂ := w₁.put 1 c₂ (handleError env₂)
  -- the first handler gets its first row, then the second
  have hfree₁ : w₀.Free 0 [.inl (.stock x₁.itemId)] := by
    intro j s hj hs
    rcases j with - | - | j
    · exact absurd rfl hj
    · cases hs
      exact List.disjoint_nil_right _
    · cases hs
  have hfree₂ : w₁.Free 1 [.inl (.stock y₂.itemId)] := by
    intro j s hj hs
    rcases j with - | - | j
    · cases hs
      intro l hl hm
      obtain rfl := List.mem_singleton.1 hl
      have hm : y₂.itemId = x₁.itemId := by
        simpa [World.held, c₁, started, looping, reserving] using hm
      exact hne hm.symm
    · exact absurd rfl hj
    · cases hs
  obtain ⟨ls₁, hr₁⟩ : ∃ ls, (concurrently [env₁, env₂] d₀).Run w₀ ls w₁ :=
    exists_run_started hB₁ rfl hseen₁ hx₁ hfree₁
  obtain ⟨ls₂, hr₂⟩ : ∃ ls, (concurrently [env₁, env₂] d₀).Run w₁ ls w₂ :=
    exists_run_started hB₂ rfl hseen₂ hy₂ hfree₂
  -- now each of them waits for the other
  have hsome {x : Item} (h : deducts x d₀.tables = true) :
      (d₀.tables.quantity x.itemId).isSome := by
    obtain ⟨available, hq, -⟩ := deducts_iff.1 h
    rw [hq]
    rfl
  have hwaits₁ : w₂.blocked 0 (c₁.needs w₂.db) = true := by
    rw [show c₁.needs w₂.db = [.inl (.stock y₁.itemId)] from needs_started (hy ▸ hsome hy₂)]
    refine (World.blocked_iff (w := w₂)).2 ⟨1, _, by decide, rfl, _, List.mem_singleton_self _, ?_⟩
    rw [hy]
    exact List.mem_cons_self
  have hwaits₂ : w₂.blocked 1 (c₂.needs w₂.db) = true := by
    rw [show c₂.needs w₂.db = [.inl (.stock x₂.itemId)] from needs_started (hx ▸ hsome hx₁)]
    refine (World.blocked_iff (w := w₂)).2 ⟨0, _, by decide, rfl, _, List.mem_singleton_self _, ?_⟩
    rw [hx]
    exact List.mem_cons_self
  have hstuck : w₂.Stuck := by
    intro i s hs
    rcases i with - | - | i
    · cases hs
      exact ⟨c₁, _, rfl, hwaits₁⟩
    · cases hs
      exact ⟨c₂, _, rfl, hwaits₂⟩
    · cases hs
  refine ⟨w₂, ⟨w₀, _, rfl, hr₁.trans hr₂⟩, rfl, fun s hs => ?_, fun l w' hst => ?_⟩
  · obtain ⟨i, hi⟩ := List.mem_iff_getElem?.1 hs
    obtain ⟨c, e, rfl, -⟩ := hstuck i s hi
    rfl
  · have hst' : (World.lts handlers fun _ => True).step w₂ l w' := hst
    exact hstuck.kill (fun _ => id) hst'

/-- The first order lists item 1 before item 2, the second one the other way round. -/
theorem handlers_deadlock_two :
    let placed (e o : UUID) (items : List Item) : Envelope :=
      ⟨e, .orderPlaced, 0, { orderId := some o, items := some items }⟩
    let envs := [placed 1 7 [⟨1, 2, 10⟩, ⟨2, 1, 5⟩], placed 2 8 [⟨2, 1, 5⟩, ⟨1, 1, 10⟩]]
    let d₀ : Db := ⟨⟨(Table.empty.insert ⟨1, 3⟩).insert ⟨2, 3⟩, .empty⟩, .empty⟩
    ∃ w, (concurrently envs d₀).Reachable w ∧ w.db = d₀ ∧
      (∀ s ∈ w.slots, World.isBusy s = true) ∧
        ∀ l w', (concurrently envs d₀).step w l w' → ∃ i, l = .kill i :=
  handlers_deadlock ⟨rfl, rfl, rfl⟩ ⟨rfl, rfl, rfl⟩ rfl rfl (by decide) (by simp [Mail.empty])
    (by simp [Mail.empty]) (by decide +kernel) (by decide +kernel)

end Opposite

end Restaurant

end FoodFlow
