import FoodFlow.Shared.Locking
import FoodFlow.Order.Lifecycle
import FoodFlow.Payment.Charging

/-!
# The order and the payment service do not deadlock

A transaction of these services locks rows and keys of one order, or of one payment, then its
outbox row and the event in the ledger.  So, unlike the handlers of the restaurant service, the
transactions never wait for each other in a circle, whatever is requested and delivered.

* `Order.order_transactions_end` : from every state of the order service, the transactions that are
  open can all come to their end;
* `Payment.payment_transactions_end` : so can those of the payment service, reconciliation passes
  included.
-/

namespace FoodFlow

/-! ### The order service -/

namespace Order

variable {Q : Except Err Process → ℕ ⊕ₗ ℕ → Prop} {b : ℕ ⊕ₗ ℕ} {held : List db.Lock}
  {saved : List (List db.Lock)} {env : Envelope} {f : Fresh} {o : UUID} {target : Status}
  {req : Request} {w : World db Fresh Empty Reply}

/-- The transactions lock rows and keys of one order, then what they send. -/
abbrev LocksOnce (Q : Except Err Process → ℕ ⊕ₗ ℕ → Prop) (b : ℕ ⊕ₗ ℕ) (held : List db.Lock)
    (saved : List (List db.Lock)) (t : Tx db Process) : Prop :=
  Mail.LocksOnce tables .sql Q b held saved t

theorem returns_known {p : Process} (hp : Known p) : World.Returns Known (.ok p) b := by
  rintro _ ⟨⟩
  exact hp

theorem returns_error {e : Err} : World.Returns Known (.error e) b := by
  rintro _ ⟨⟩

theorem locksOnce_transitionOrder {k : Unit → Tx db Process} (herr : ∀ e b, Q (.error e) b)
    (hk : ∀ held, LocksOnce Q (Sum.inlₗ 1) held saved (k ())) :
    LocksOnce Q (Sum.inlₗ 0) held saved ((transitionOrder o target f).bind k) := by
  refine Mail.locksOnce_own (D := tables) (q := .selectStatusForUpdate o) (by simp)
    (fun _ _ _ => .inr (by simp)) fun t current ws held hx hown => ?_
  obtain ⟨rfl, -⟩ := Prod.mk.inj (Except.ok.inj hx)
  cases hs : t.status o with
  | none => exact herr _ _
  | some current =>
    show LocksOnce Q _ _ _ (Tx.bind (if _ then _ else _) k)
    split_ifs
    · -- the row has been locked by the `SELECT`
      refine Mail.locksOnce_own (D := tables) (q := .updateStatus target o f.now) le_rfl
        (fun t' l hl => .inl (hown l ?_)) fun _ _ _ held _ _ => hk held
      simp only [needs] at hl
      split_ifs at hl
      · simpa [needs, hs] using hl
      · cases hl
    · exact herr _ _

theorem locksOnce_markProcessed (hb : b < Sum.inrₗ 1) :
    LocksOnce (World.Returns Known) b held saved (markProcessed env) :=
  Mail.ascends_insertProcessed (I := fun _ => True) hb fun _ => returns_known (.done _)

theorem locksOnce_handleTx :
    LocksOnce (World.Returns Known) (Sum.inlₗ 0) held saved (handleTx env f) := by
  refine Mail.ascends_selectProcessed (I := fun _ => True) fun existing => ?_
  cases existing with
  | true => exact returns_known (.done _)
  | false =>
    show LocksOnce (World.Returns Known) (Sum.inlₗ 0) held saved (handleBody env f)
    unfold handleBody
    split
    · exact returns_error
    · have herr : ∀ (e : Err) (b : ℕ ⊕ₗ ℕ), World.Returns Known (.error e) b :=
        fun _ _ => returns_error
      split
      · exact locksOnce_transitionOrder herr fun _ => locksOnce_markProcessed (by simp)
      · refine locksOnce_transitionOrder herr fun _ => ?_
        exact Mail.ascends_insertOutbox (I := fun _ => True) (by simp) fun _ =>
          locksOnce_markProcessed (by simp)
      · exact locksOnce_transitionOrder herr fun _ => locksOnce_markProcessed (by simp)
      · exact returns_known (.done _)

theorem locksOnce_placeTx :
    LocksOnce (World.Returns Known) (Sum.inlₗ 0) held saved (placeTx req f) := by
  refine Mail.locksOnce_own (D := tables) (q := .insertOrder (newOrder req f.id) f.now) (by simp)
    (fun _ _ _ => .inr (by simp)) fun _ _ _ _ _ _ => ?_
  exact Mail.ascends_insertOutbox (I := fun _ => True) (by simp) fun _ => returns_known (.done _)

theorem locksOnce_lookupTx {key : String} :
    LocksOnce (World.Returns Known) (Sum.inlₗ 0) held saved (lookupTx req key f) := by
  refine Mail.locksOnce_own (D := tables) (q := .selectByKey key req.user) (by simp)
    (fun _ _ _ => .inr (by simp)) fun _ existing _ _ _ _ => ?_
  cases existing with
  | none => exact returns_known (.place req)
  | some existing => exact returns_known (.done _)

theorem disciplined :
    World.Disciplined (Mail.rank fun _ : Lock => 1) (fun _ : Db => True) Known where
  call c k h := c.elim
  txn t e f h := by
    generalize hp : Proc.txn t e = p at h
    refine ⟨Sum.inlₗ 0, ?_⟩
    cases h with
    | create req =>
      obtain ⟨-, ⟨key, -, rfl⟩ | rfl⟩ := txn_eq_createOrder hp
      · exact locksOnce_lookupTx
      · exact locksOnce_placeTx
    | place req =>
      obtain ⟨rfl, -⟩ := txn_eq_placeOrder hp
      exact locksOnce_placeTx
    | deliver env =>
      cases hp
      exact locksOnce_handleTx
    | done r => cases hp
  err t e x h := by
    obtain ⟨r, hr⟩ := (h.running rfl ⟨0, 0, 0, 0⟩).2 x
    rw [hr]
    exact .done r

/-- **The order service does not deadlock.**  In every state of every interleaving of requests and
deliveries, the transactions that are open can all come to their end: nobody has to be killed for
the others to go on. -/
theorem order_transactions_end (h : concurrent.Reachable w) :
    ∃ ls w', (concurrent.restrict World.Stepped).Run w ls w' ∧
      ∀ s ∈ w'.slots, World.isBusy s = false := by
  have hstart : ∀ p, concurrentRules.start p → Known p := by
    rintro p (⟨req, rfl⟩ | ⟨env, rfl⟩)
    · exact .create req
    · exact .deliver env
  exact World.exists_run_idle disciplined hstart (fun _ _ => trivial)
    (World.ordered disciplined hstart (fun _ _ => trivial) h)

/-- Two deliveries about the same order: the second one waits for the first. -/
theorem order_transactions_end_waiting :
    let req : Request := ⟨1, ⟨5, [⟨1, 1, 10⟩]⟩, none, none⟩
    let failed : Envelope := ⟨11, .paymentFailed, 0, { orderId := some 70 }⟩
    let succeeded : Envelope := ⟨12, .paymentSucceeded, 0, { orderId := some 70 }⟩
    let run : List (World.Label db Fresh Empty Reply) :=
      [.start (createOrder req), .begin 0 ⟨70, 1, 2, 0⟩, .step 0, .step 0, .step 0,
        .start (handleMessage failed), .start (handleMessage succeeded),
        .begin 1 ⟨0, 3, 4, 0⟩, .begin 2 ⟨0, 5, 6, 0⟩, .step 1, .step 2, .step 1]
    ∃ w, LTS.runAct (World.act (S := db)) (World.idle migrated) run = some w ∧
      (w.act (.step 2)).isNone = true ∧
      ∃ ls w', (concurrent.restrict World.Stepped).Run w ls w' ∧
        ∀ s ∈ w'.slots, World.isBusy s = false := by
  intro req failed succeeded run
  have hrun : (LTS.runAct (World.act (S := db)) (World.idle migrated) run).map
      (fun w => (w.act (.step 2)).isNone) = some true := by decide +kernel
  obtain ⟨w, hw, hwaits⟩ := Option.map_eq_some_iff.1 hrun
  have hreach : concurrent.Reachable w := by
    refine LTS.reachable_of_runAct ⟨migrated, rfl, rfl⟩ ?_ hw
    intro s l hl
    cases l with
    | start p =>
      have hp : p = createOrder req ∨ p = handleMessage failed ∨ p = handleMessage succeeded := by
        simpa [run] using hl
      rcases hp with rfl | rfl | rfl
      exacts [.inl ⟨req, rfl⟩, .inr ⟨failed, rfl⟩, .inr ⟨succeeded, rfl⟩]
    | «begin» i f => trivial
    | step i => exact fun _ _ _ => trivial
    | kill i => trivial
  exact ⟨w, hw, hwaits, order_transactions_end hreach⟩

end Order

/-! ### The payment service -/

namespace Payment

variable {dflt : String} {b : ℕ ⊕ₗ ℕ} {held : List db.Lock} {saved : List (List db.Lock)}
  {env : Envelope} {f : Fresh} {o pid : UUID} {amount : ℚ} {success : Bool} {s : Stuck} {n : ℕ}
  {ps : List Stuck} {w : World db Fresh GatewayCall Reply}

/-- The processes of the service. -/
abbrev Serves (dflt : String) : Process → Prop := Known dflt (fun _ => True) fun _ => True

/-- The transactions lock rows and keys of one payment, then what they send. -/
abbrev LocksOnce (dflt : String) (b : ℕ ⊕ₗ ℕ) (held : List db.Lock) (saved : List (List db.Lock))
    (t : Tx db Process) : Prop :=
  Mail.LocksOnce tables .sql (World.Returns (Serves dflt)) b held saved t

theorem returns_serves {p : Process} (hp : Serves dflt p) :
    World.Returns (Serves dflt) (.ok p) b := by
  rintro _ ⟨⟩
  exact hp

/-- The payment is locked now, or has been. -/
theorem locksOnce_writeOutcome {p : Process} (hp : Serves dflt p) (hb : b ≤ Sum.inlₗ 1)
    (hown : .inl (.row pid) ∈ held ∨ b < Sum.inlₗ 1) :
    LocksOnce dflt b held saved ((writeOutcome success o pid f).bind fun _ => .pure p) := by
  refine Mail.locksOnce_own (D := tables) (q := .updateStatus (statusOf success) pid f.now) hb
    (fun t l hl => ?_) fun _ _ _ _ _ _ => ?_
  · simp only [needs] at hl
    split_ifs at hl
    · rwa [List.mem_singleton.1 hl]
    · cases hl
  · exact Mail.ascends_insertOutbox (I := fun _ => True) (by simp) fun _ => returns_serves hp

theorem locksOnce_recordIntent :
    LocksOnce dflt (Sum.inlₗ 0) held saved (recordIntent dflt env o amount f) := by
  refine Mail.ascends_selectProcessed (I := fun _ => True) fun existing => ?_
  cases existing with
  | true => exact returns_serves (.done _)
  | false =>
    refine Mail.locksOnce_own (D := tables)
      (q := .insertPayment o amount env.payload.paymentSimulate f.id f.now) (by simp)
      (fun _ _ _ => .inr (by simp)) fun _ _ _ _ _ _ => ?_
    exact Mail.ascends_insertProcessed (I := fun _ => True) (by simp) fun _ =>
      returns_serves (.gateway trivial)

theorem locksOnce_settleTx :
    LocksOnce dflt (Sum.inlₗ 0) held saved (settleTx dflt s (reconcileLoop dflt ps) n f) := by
  refine Mail.locksOnce_own (D := tables) (q := .selectStatusForUpdate s.id) (by simp)
    (fun _ _ _ => .inr (by simp)) fun t current ws held hx hown => ?_
  obtain ⟨rfl, -⟩ := Prod.mk.inj (Except.ok.inj hx)
  show LocksOnce dflt _ _ _ (if _ then _ else _)
  split_ifs with hs
  · exact returns_serves (.loop trivial)
  · -- a payment has been found, so it has been locked
    refine locksOnce_writeOutcome (.loop trivial) le_rfl (.inl (hown _ ?_))
    obtain ⟨r, hr, -⟩ := Option.map_eq_some_iff.1 (not_not.1 hs)
    simp [needs, hr]

theorem locksOnce_selectTx {stuckDuration : ℕ} :
    LocksOnce dflt (Sum.inlₗ 0) held saved (selectTx dflt stuckDuration f) :=
  Mail.locksOnce_own (D := tables) (q := .selectStuck stuckDuration f.now) (by simp)
    (fun _ _ _ => .inr (by simp)) fun _ _ _ _ _ _ => returns_serves (.loop trivial)

theorem disciplined :
    World.Disciplined (Mail.rank fun _ : Lock => 1) (fun _ : Db => True) (Serves dflt) where
  call c k h := h.after_call fun _ _ _ => trivial
  txn t e f h := by
    generalize hp : Proc.txn t e = p at h
    refine ⟨Sum.inlₗ 0, ?_⟩
    cases h with
    | handle env =>
      unfold handleMessage at hp
      split at hp
      · cases hp
      · split at hp <;> cases hp
        exact locksOnce_recordIntent
    | gateway _ => cases hp
    | outcome env success o pid =>
      cases hp
      exact locksOnce_writeOutcome (.done _) (by simp) (.inr (by simp))
    | reconcile n =>
      cases hp
      exact locksOnce_selectTx
    | @loop ps n _ => cases ps <;> cases hp
    | settle _ =>
      cases hp
      exact locksOnce_settleTx
    | done r => cases hp
  err t e x h := by
    obtain ⟨r, hr⟩ := h.begins.1 x
    rw [hr]
    exact .done r

/-- **The payment service does not deadlock.**  In every state of every interleaving of deliveries
and reconciliation passes, the transactions that are open can all come to their end. -/
theorem payment_transactions_end (h : (concurrent dflt).Reachable w) :
    ∃ ls w', ((concurrent dflt).restrict World.Stepped).Run w ls w' ∧
      ∀ s ∈ w'.slots, World.isBusy s = false := by
  have hstart : ∀ p, (concurrentRules dflt).start p → Serves dflt p := by
    rintro p (⟨env, rfl⟩ | ⟨stuckDuration, rfl⟩)
    · exact .handle env
    · exact .reconcile stuckDuration
  exact World.exists_run_idle disciplined hstart (fun _ _ => trivial)
    (World.ordered disciplined hstart (fun _ _ => trivial) h)

/-- A pass settles a payment whose outcome the consumer is about to record: the consumer waits. -/
theorem payment_transactions_end_settling :
    let placed : Envelope := ⟨11, .stockReserved, 0, { orderId := some 70, totalAmount := some 25 }⟩
    let run : List (World.Label db Fresh GatewayCall Reply) :=
      [.start (handleMessage "success" placed), .begin 0 ⟨1, 2, 3, 0⟩, .step 0, .step 0, .step 0,
        .step 0, .step 0, .start (reconcileStuckPayments "success" 300),
        .begin 1 ⟨4, 5, 6, 1000⟩, .step 1, .step 1, .step 1, .begin 1 ⟨7, 8, 9, 1000⟩, .step 1,
        .begin 0 ⟨10, 11, 12, 1000⟩]
    ∃ w, LTS.runAct (World.act (S := db)) (World.idle ⟨⟨.empty⟩, .empty⟩) run = some w ∧
      (w.act (.step 0)).isNone = true ∧
      ∃ ls w', ((concurrent "success").restrict World.Stepped).Run w ls w' ∧
        ∀ s ∈ w'.slots, World.isBusy s = false := by
  intro placed run
  have hrun : (LTS.runAct (World.act (S := db)) (World.idle ⟨⟨.empty⟩, .empty⟩) run).map
      (fun w => (w.act (.step 0)).isNone) = some true := by decide +kernel
  obtain ⟨w, hw, hwaits⟩ := Option.map_eq_some_iff.1 hrun
  have hreach : (concurrent "success").Reachable w := by
    refine LTS.reachable_of_runAct ⟨_, ⟨rfl, rfl⟩, rfl⟩ ?_ hw
    intro s l hl
    cases l with
    | start p =>
      have hp : p = handleMessage "success" placed ∨ p = reconcileStuckPayments "success" 300 := by
        simpa [run] using hl
      rcases hp with rfl | rfl
      exacts [.inl ⟨placed, rfl⟩, .inr ⟨300, rfl⟩]
    | «begin» i f => trivial
    | step i => exact fun _ _ _ => trivial
    | kill i => trivial
  exact ⟨w, hw, hwaits, payment_transactions_end hreach⟩

end Payment

end FoodFlow
