import FoodFlow.Order.Locks
import FoodFlow.LTS.Basic

/-!
# The lifecycle of an order

The order service with its transactions interleaved statement by statement: requests and
deliveries of arbitrary envelopes.

* `Sound` : every order has one `order.placed` event, and one `stock.release` event when its
  payment has failed; no event is about an order that does not exist;
* `concurrent_sound` : this holds of the committed tables in every run;
* `order_lifecycle` : moreover every order begins as `PENDING` and changes its status at most
  once.

The transactions lock what they depend on (`FoodFlow.Order.Locks`), so every commit is the
execution of a whole program on the committed tables, about which `FoodFlow.Order.Routes` and
`FoodFlow.Order.Consumers` say what it does.
-/

namespace FoodFlow

namespace Order

/-- The number of events about an order on a topic of the outbox. -/
def published (d : Db) (topic : EventType) (o : UUID) : ℕ :=
  d.mail.outbox.rows.countP fun x => x.topic = topic ∧ x.key = o

/-- The events in the outbox fit the orders. -/
structure Sound (d : Db) : Prop where
  placed : ∀ r ∈ d.tables.orders.rows, published d .orderPlaced r.id = 1
  release : ∀ r ∈ d.tables.orders.rows,
    published d .stockRelease r.id = if r.status = .paymentFailed then 1 else 0
  known : ∀ x ∈ d.mail.outbox.rows, d.tables.status x.key ≠ none

/-- The service before the first request. -/
def migrated : Db := ⟨⟨.empty⟩, .empty⟩

theorem sound_migrated : Sound migrated where
  placed _ hr := by cases hr
  release _ hr := by cases hr
  known _ hx := by cases hx

variable {d d' : Db} {o : UUID} {req : Request} {env : Envelope} {f : Fresh} {p : Process}
  {x : OutboxRow} {r : OrderRow} {topic : EventType} {t : Tables} {m : Mail}

theorem published_pos :
    0 < published d topic o ↔ ∃ x ∈ d.mail.outbox.rows, x.topic = topic ∧ x.key = o := by
  rw [published, List.countP_pos_iff]
  simp

/-- One more event in the outbox. -/
theorem published_addOutbox (h : m.outbox.get? x.id = none) :
    published ⟨t, Mail.apply (.addOutbox x) m⟩ topic o =
      published ⟨t, m⟩ topic o + if x.topic = topic ∧ x.key = o then 1 else 0 := by
  simp only [published, Mail.apply_addOutbox_outbox, Table.rows_insert h, List.countP_append,
    List.countP_singleton, decide_eq_true_eq]

/-- No event is about an order that does not exist. -/
theorem Sound.published_eq_zero (h : Sound d) (ho : d.tables.status o = none) :
    published d topic o = 0 := by
  refine List.countP_eq_zero.2 fun x hx hm => h.known x hx ?_
  obtain ⟨-, rfl⟩ : x.topic = topic ∧ x.key = o := by simpa using hm
  exact ho

/-- The creation of an order. -/
theorem Sound.place (h : Sound d) (hrun : (placeTx req f).run d = .ok (p, d')) : Sound d' := by
  obtain ⟨r, hrow, hviol, hout, -, rfl⟩ := placeTx_ok hrun
  obtain ⟨hid, -, -, -, hpending, -⟩ := row?_eq_ok hrow
  have hfree := (violates?_eq_none hviol).1
  have hrid : r.id = f.id := hid
  have hnone : d.tables.status f.id = none := status_eq_none.2 (hrid ▸ hfree)
  -- the counts of the other orders are as before, those of the new one start from zero
  have hcount : ∀ topic o, published
      ⟨apply (.addOrder r) d.tables, Mail.apply (.addOutbox (placedRow req f)) d.mail⟩ topic o =
        published d topic o + if EventType.orderPlaced = topic ∧ f.id = o then 1 else 0 :=
    fun topic o => published_addOutbox hout
  have hrows : ∀ r', r' ∈ (apply (.addOrder r) d.tables).orders.rows →
      (r' ∈ d.tables.orders.rows ∧ r'.id ≠ f.id) ∨ r' = r := by
    intro r' hr'
    rcases Table.mem_rows_insert.1 hr' with hr' | ⟨rfl, -⟩
    · refine .inl ⟨hr', fun he => ?_⟩
      rw [status_eq_none, ← he, Table.get?_of_mem hr'] at hnone
      cases hnone
    · exact .inr rfl
  refine ⟨fun r' hr' => ?_, fun r' hr' => ?_, fun x hx => ?_⟩
  · rw [hcount]
    rcases hrows r' hr' with ⟨hold, hne⟩ | rfl
    · simp [h.placed r' hold, Ne.symm hne]
    · simp [hrid, h.published_eq_zero hnone]
  · rw [hcount]
    rcases hrows r' hr' with ⟨hold, hne⟩ | rfl
    · simp [h.release r' hold]
    · simp [hrid, h.published_eq_zero hnone, hpending]
  · show (apply (.addOrder r) d.tables).status x.key ≠ none
    rw [status_addOrder hfree]
    split_ifs with hk
    · simp
    · rcases Table.mem_rows_insert.1 hx with hx | ⟨rfl, -⟩
      · exact h.known x hx
      · exact absurd hrid hk

/-- The transition of an order. -/
theorem Sound.transition (h : Sound d) {target : Status} (hs : d.tables.status o = some .pending)
    (hout : target = .paymentFailed → d.mail.outbox.get? f.rowId = none) :
    Sound ⟨apply (.setStatus o target f.now) d.tables, transitioned env o target f d.mail⟩ := by
  have hcount : ∀ topic o', published
      ⟨apply (.setStatus o target f.now) d.tables, transitioned env o target f d.mail⟩ topic o' =
        published d topic o' +
          if target = .paymentFailed ∧ EventType.stockRelease = topic ∧ o = o' then 1 else 0 := by
    intro topic o'
    by_cases ht : target = .paymentFailed
    · simp only [transitioned, ht, true_and]
      exact published_addOutbox (x := releaseRow o f) (hout ht)
    · simp only [transitioned, ht, false_and, if_false]
      rfl
  -- no order is removed
  have hknown : ∀ o', d.tables.status o' ≠ none →
      (apply (.setStatus o target f.now) d.tables).status o' ≠ none := by
    intro o' ho'
    rw [status_setStatus]
    split_ifs
    · simpa using ho'
    · exact ho'
  refine ⟨fun r' hr' => ?_, fun r' hr' => ?_, fun x hx => ?_⟩
  · obtain ⟨r, hr, rfl⟩ := mem_rows_setStatus.1 hr'
    have hne : EventType.stockRelease ≠ .orderPlaced := by decide
    rw [hcount]
    simp only [hne, false_and, and_false, if_false, add_zero]
    split_ifs <;> exact h.placed r hr
  · obtain ⟨r, hr, rfl⟩ := mem_rows_setStatus.1 hr'
    rw [hcount]
    by_cases hro : r.id = o
    · -- the order of the event was still `PENDING`: it had no compensation
      have hpending : r.status = .pending := by
        rw [Tables.status, ← hro, Table.get?_of_mem hr] at hs
        exact Option.some.inj hs
      have hzero := h.release r hr
      rw [hpending] at hzero
      simp [hro, hro ▸ hzero]
    · simp [hro, Ne.symm hro, h.release r hr]
  · refine hknown _ ?_
    have hx' : x ∈ d.mail.outbox.rows ∨ (target = .paymentFailed ∧ x = releaseRow o f) := by
      by_cases ht : target = .paymentFailed
      · simp only [transitioned, if_pos ht] at hx
        exact (Table.mem_rows_insert.1 hx).imp_right fun hx => ⟨ht, hx.1⟩
      · simp only [transitioned, if_neg ht] at hx
        exact .inl hx
    rcases hx' with hx' | ⟨-, rfl⟩
    · exact h.known x hx'
    · simp [releaseRow, hs]

theorem Sound.effect (h : Sound d) (he : Effect env f d d') : Sound d' := by
  cases he with
  | duplicate _ => exact h
  | unknown _ => exact h
  | transition o target _ _ _ hs hout => exact h.transition hs hout

/-! ### The service, statement by statement -/

/-- What a process of the service can be between two transactions. -/
inductive Known : Process → Prop
  | create (req : Request) : Known (createOrder req)
  | place (req : Request) : Known (placeOrder req)
  | deliver (env : Envelope) : Known (handleMessage env)
  | done (r : Reply) : Known (.done r)

/-- What a transaction of the service can be, from its beginning or after its first `SELECT`. -/
inductive Program : Tx db Process → Prop
  | lookup (req : Request) (key : String) (f : Fresh) : Program (lookupTx req key f)
  | place (req : Request) (f : Fresh) : Program (placeTx req f)
  | deliver (env : Envelope) (f : Fresh) : Program (handleTx env f)
  | handle (env : Envelope) (f : Fresh) : Program (handleBody env f)
  | finished (p : Process) : Known p → Program (.pure p)

/-- A transaction of the service, whose exceptions end the process. -/
def Running (t : Tx db Process) (onErr : Err → Process) : Prop :=
  Program t ∧ ∀ e, ∃ r, onErr e = .done r

theorem Known.running (hp : Known p) {t : Fresh → Tx db Process} {e : Err → Process}
    (h : p = .txn t e) (f : Fresh) : Running (t f) e := by
  cases hp with
  | create req =>
    obtain ⟨rfl, ⟨key, -, rfl⟩ | rfl⟩ := txn_eq_createOrder h.symm
    · exact ⟨.lookup _ _ _, fun _ => ⟨_, rfl⟩⟩
    · exact ⟨.place _ _, fun _ => ⟨_, rfl⟩⟩
  | place req =>
    obtain ⟨rfl, rfl⟩ := txn_eq_placeOrder h.symm
    exact ⟨.place _ _, fun _ => ⟨_, rfl⟩⟩
  | deliver env =>
    cases h
    exact ⟨.deliver _ _, fun _ => ⟨_, rfl⟩⟩
  | done r => cases h

/-- What a program of the service does to the tables when it commits. -/
inductive Commit (d : Db) : Db → Prop
  | same : Commit d d
  | place (req : Request) (f : Fresh) (p : Process) (d' : Db) :
      (placeTx req f).run d = .ok (p, d') → Commit d d'
  | handle (env : Envelope) (f : Fresh) (d' : Db) : Effect env f d d' → Commit d d'

theorem Program.commit {t : Tx db Process} (ht : Program t) (hrun : t.run d = .ok (p, d')) :
    Known p ∧ Commit d d' := by
  cases ht with
  | lookup req key f =>
    obtain ⟨rfl, ⟨r, -, rfl⟩ | ⟨-, rfl⟩⟩ := lookupTx_ok hrun
    · exact ⟨.done _, .same⟩
    · exact ⟨.place req, .same⟩
  | place req f =>
    have hp := placeTx_ok hrun
    obtain ⟨-, -, -, -, rfl, -⟩ := hp
    exact ⟨.done _, .place req f _ _ hrun⟩
  | deliver env f =>
    obtain ⟨rfl, he⟩ := handleTx_ok hrun
    exact ⟨.done _, .handle env f _ he⟩
  | handle env f =>
    obtain ⟨saved', h⟩ := Tx.run_eq_ok.1 hrun
    obtain ⟨rfl, he⟩ := handleBody_ok h
    exact ⟨.done _, .handle env f _ he⟩
  | finished p hp =>
    cases hrun
    exact ⟨hp, .same⟩

theorem Commit.sound (h : Sound d) (hc : Commit d d') : Sound d' := by
  cases hc with
  | same => exact h
  | place req f p d' hrun => exact h.place hrun
  | handle env f d' he => exact h.effect he

/-- A transaction is a program that locks what it depends on, or becomes one after its first
`SELECT`. -/
theorem Program.shape {t : Tx db Process} (ht : Program t) (d : Db) :
    (∀ d', t.Locking discipline d') ∨
      ∃ q k, t = .stmt q k ∧ ∀ r ws, db.exec q d = .ok (r, ws) →
        ws = [] ∧ Program (k r) ∧ ∀ d', (k r).Locking discipline d' := by
  -- the idempotency checks of both handlers are the statements that take no lock
  cases ht with
  | lookup req key f =>
    refine .inr ⟨_, _, rfl, fun existing ws hx => ?_⟩
    have hws : ws = [] := by
      simp only [exec] at hx
      split_ifs at hx
      · cases hx
        rfl
      · cases hx
    refine ⟨hws, ?_⟩
    cases existing with
    | none => exact ⟨.finished _ (.place req), fun _ => trivial⟩
    | some existing => exact ⟨.finished _ (.done _), fun _ => trivial⟩
  | place req f => exact .inl fun _ => placeTx_locking
  | deliver env f =>
    refine .inr ⟨_, _, rfl, fun existing ws hx => ?_⟩
    cases hx
    refine ⟨rfl, ?_⟩
    have hcheck : ∀ existing : Bool,
        Program (if existing then pure (returned env) else handleBody env f) ∧ ∀ d',
          Tx.Locking discipline
            (if existing then pure (returned env) else handleBody env f) d' := by
      intro existing
      cases existing with
      | true => exact ⟨.finished _ (.done _), fun _ => trivial⟩
      | false => exact ⟨.handle env f, fun _ => handleBody_locking⟩
    exact hcheck _
  | handle env f => exact .inl fun _ => handleBody_locking
  | finished p hp => exact .inl fun _ => trivial

/-- Any requests, deliveries of any envelopes, and crashes. -/
def concurrentRules : World.Rules db Fresh Empty Reply where
  start p := (∃ req, p = createOrder req) ∨ ∃ env, p = handleMessage env

/-- The order service with its transactions interleaved statement by statement. -/
def concurrent : LTS (World db Fresh Empty Reply) (World.Label db Fresh Empty Reply) :=
  World.lts concurrentRules (· = migrated)

theorem serial : World.Serial discipline concurrentRules (· = migrated) Sound
    (fun _ => Known) (fun _ => Running) where
  init := by
    rintro _ rfl
    exact sound_migrated
  start := by
    rintro d p - (⟨req, rfl⟩ | ⟨env, rfl⟩)
    · exact .create req
    · exact .deliver env
  begin d f t e _ _ hp := hp.running rfl f
  call d o k _ _ := o.elim
  shape d t e _ ht := (ht.1.shape d).imp_right fun ⟨q, k, hq, hk⟩ =>
    ⟨q, k, hq, fun r ws hx => ⟨(hk r ws hx).1, ⟨(hk r ws hx).2.1, ht.2⟩, (hk r ws hx).2.2⟩⟩
  commit d t e p d' hI ht hrun :=
    have hc := ht.1.commit hrun
    ⟨hc.2.sound hI, hc.1, fun _ h => h, fun _ _ h => h⟩
  abort d t e x _ ht := by
    obtain ⟨r, hr⟩ := ht.2 x
    rw [hr]
    exact .done r

variable {w w' : World db Fresh Empty Reply} {l : World.Label db Fresh Empty Reply}

/-- The events in the outbox fit the orders, in every committed state. -/
theorem concurrent_sound (h : concurrent.Reachable w) : Sound w.db := (serial.invariant h).1

/-- What a step can change. -/
theorem concurrent_commit (h : concurrent.Reachable w) (hst : concurrent.step w l w') :
    Commit w.db w'.db := by
  rcases serial.commits h hst with he | ⟨t, e, p, ht, hrun⟩
  · rw [he]
    exact .same
  · exact (ht.1.commit hrun).2

/-! ### The statuses along a run -/

/-- How far an order has come, from its creation on. -/
def statusRank : Option Status → ℕ
  | none => 0
  | some s => s.rank

/-- A commit creates an order as `PENDING`, or takes it from `PENDING` to another status. -/
theorem Commit.status (hc : Commit d d') (o : UUID)
    (hne : d'.tables.status o ≠ d.tables.status o) :
    (d.tables.status o = none ∧ d'.tables.status o = some .pending) ∨
      (d.tables.status o = some .pending ∧ ∃ s, d'.tables.status o = some s ∧ s ≠ .pending) := by
  cases hc with
  | same => exact absurd rfl hne
  | place req f p d' hrun =>
    obtain ⟨r, hrow, hviol, -, -, rfl⟩ := placeTx_ok hrun
    have hfree := (violates?_eq_none hviol).1
    simp only [status_addOrder hfree] at hne ⊢
    split_ifs at hne ⊢ with ho
    · subst ho
      exact .inl ⟨status_eq_none.2 hfree, congrArg some (row?_eq_ok hrow).2.2.2.2.1⟩
    · exact absurd rfl hne
  | handle env f d' he =>
    cases he with
    | duplicate _ => exact absurd rfl hne
    | unknown _ => exact absurd rfl hne
    | transition o' target _ htarget _ hs _ =>
      simp only [status_setStatus] at hne ⊢
      split_ifs at hne ⊢ with ho
      · subst ho
        refine .inr ⟨hs, target, by simp [hs], fun ht => ?_⟩
        rw [ht] at htarget
        generalize env.eventType = ty at htarget
        cases ty <;> cases htarget
      · exact absurd rfl hne

theorem Commit.rank_lt (hc : Commit d d') (o : UUID)
    (hne : d'.tables.status o ≠ d.tables.status o) :
    statusRank (d.tables.status o) < statusRank (d'.tables.status o) := by
  rcases hc.status o hne with ⟨h₀, h₁⟩ | ⟨h₀, s, h₁, hs⟩
  · rw [h₀, h₁]
    decide
  · rw [h₀, h₁]
    cases s <;> first | exact absurd rfl hs | decide

theorem statusRank_le (s : Option Status) : statusRank s ≤ 2 := by
  rcases s with _ | s
  · decide
  · cases s <;> decide

/-- **The lifecycle of an order.**  In every committed state of every run, with the transactions
interleaved statement by statement: every order has one `order.placed` event, and one
`stock.release` event if its payment has failed and none otherwise; no event is about an order
that does not exist; and from then on every order changes its status at most once, and not at all
when it is not `PENDING`, which is how every order begins. -/
theorem order_lifecycle (h : concurrent.Reachable w) :
    (∀ r ∈ w.db.tables.orders.rows, published w.db .orderPlaced r.id = 1 ∧
      published w.db .stockRelease r.id = if r.status = .paymentFailed then 1 else 0) ∧
    (∀ x ∈ w.db.mail.outbox.rows, w.db.tables.status x.key ≠ none) ∧
    (∀ o s n w', w.db.tables.status o = some s →
      concurrent.Changes (fun w => w.db.tables.status o) w n w' →
        n ≤ 1 ∧ (s ≠ .pending → n = 0 ∧ w'.db.tables.status o = some s)) ∧
    ∀ o s l w', w.db.tables.status o = none → concurrent.step w l w' →
      w'.db.tables.status o = some s → s = .pending := by
  have hsound := concurrent_sound h
  refine ⟨fun r hr => ⟨hsound.placed r hr, hsound.release r hr⟩, hsound.known, ?_, ?_⟩
  · intro o s n w' hs hch
    -- every change raises the rank, from 1 or more to at most 2
    have hle := hch.le_rank statusRank h fun w₁ l w₂ h₁ hst hne =>
      (concurrent_commit h₁ hst).rank_lt o hne
    have htop := statusRank_le (w'.db.tables.status o)
    have hnow : statusRank (w.db.tables.status o) = s.rank := by rw [hs, statusRank]
    have hpos : 1 ≤ s.rank := by cases s <;> decide
    refine ⟨by omega, fun hp => ?_⟩
    -- a terminal status has the highest rank already
    have htwo : s.rank = 2 := by cases s <;> first | exact absurd rfl hp | rfl
    have hzero : n = 0 := by omega
    subst hzero
    exact ⟨rfl, by rw [hch.eq_of_zero, hs]⟩
  · intro o s l w' hnone hst hs
    have hne : w'.db.tables.status o ≠ w.db.tables.status o := by simp [hnone, hs]
    rcases (concurrent_commit h hst).status o hne with ⟨-, hp⟩ | ⟨h₀, -⟩
    · exact Option.some.inj (hs.symm.trans hp)
    · rw [hnone] at h₀
      cases h₀

/-- Two deliveries that contradict each other both pass the idempotency check before either has
locked the order: the first to lock it has its way, the other one is refused. -/
theorem order_lifecycle_contradicted :
    let req : Request := ⟨1, ⟨5, [⟨1, 1, 10⟩]⟩, none, none⟩
    let failed : Envelope := ⟨11, .paymentFailed, 0, { orderId := some 70 }⟩
    let succeeded : Envelope := ⟨12, .paymentSucceeded, 0, { orderId := some 70 }⟩
    let run : List (World.Label db Fresh Empty Reply) :=
      [.start (createOrder req), .begin 0 ⟨70, 1, 2, 0⟩, .step 0, .step 0, .step 0,
        .start (handleMessage failed), .start (handleMessage succeeded),
        .begin 1 ⟨0, 3, 4, 0⟩, .begin 2 ⟨0, 5, 6, 0⟩, .step 1, .step 2,
        .step 1, .step 1, .step 1, .step 1, .step 1, .step 2, .step 2]
    ∃ w, LTS.runAct (World.act (S := db)) (World.idle migrated) run = some w ∧
      ∃ r ∈ w.db.tables.orders.rows, r.status = .paymentFailed ∧
        published w.db .orderPlaced r.id = 1 ∧ published w.db .stockRelease r.id = 1 := by
  intro req failed succeeded run
  have hrun : (LTS.runAct (World.act (S := db)) (World.idle migrated) run).map
      (fun w => w.db.tables.orders.rows.map OrderRow.status) = some [.paymentFailed] := by
    decide +kernel
  obtain ⟨w, hw, hobs⟩ := Option.map_eq_some_iff.1 hrun
  have hreach : concurrent.Reachable w := by
    refine LTS.reachable_of_runAct ⟨migrated, rfl, rfl⟩ ?_ hw
    intro s l hl
    cases l with
    | start p =>
      have hp : p = createOrder req ∨ p = handleMessage failed ∨ p = handleMessage succeeded := by
        simpa [run] using hl
      rcases hp with rfl | rfl | rfl
      exacts [.inl ⟨req, rfl⟩, .inr ⟨failed, rfl⟩, .inr ⟨succeeded, rfl⟩]
    | «begin» i f => trivial
    | step i => exact fun _ _ _ => trivial
    | kill i => trivial
  have hmem : Status.paymentFailed ∈ w.db.tables.orders.rows.map OrderRow.status := by
    rw [hobs]
    exact List.mem_singleton_self _
  obtain ⟨r, hr, hs⟩ := List.mem_map.1 hmem
  obtain ⟨hplaced, hrelease⟩ := (order_lifecycle hreach).1 r hr
  rw [if_pos hs] at hrelease
  exact ⟨w, hw, r, hr, hs, hplaced, hrelease⟩

end Order

end FoodFlow
