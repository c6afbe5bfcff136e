import FoodFlow.Payment.Outcome
import FoodFlow.Sql.ReadCommitted

/-!
# Write-ahead charging

How often the gateway is called for an order, when the deliveries and the reconciliation passes of
the payment service interleave statement by statement and crash at any point.

* `concurrent` : the service;
* `Known`, `Leads` : where its processes and its open transactions can be; the process that calls
  the gateway comes out of a transaction that has inserted the payment;
* `charged_once` : a call finds the payment committed, the consumer makes at most one for an
  order, and the reconciliation at most one for each pass that has selected the payment.
-/

namespace FoodFlow

namespace Payment

/-- Deliveries of any envelopes and reconciliation passes. -/
def concurrentRules (dflt : String) : World.Rules db Fresh GatewayCall Reply where
  start p := (∃ env, p = handleMessage dflt env) ∨
    ∃ stuckDuration, p = reconcileStuckPayments dflt stuckDuration

/-- The payment service with its transactions interleaved statement by statement. -/
def concurrent (dflt : String) :
    LTS (World db Fresh GatewayCall Reply) (World.Label db Fresh GatewayCall Reply) :=
  World.lts (concurrentRules dflt) Initial

/-! ### The calls of the gateway -/

section Calls

variable (dflt : String) (o : UUID) (w : World db Fresh GatewayCall Reply)
  (l : World.Label db Fresh GatewayCall Reply)

/-- There is a payment for the order. -/
def Paid (d : Db) (o : UUID) : Prop := ∃ r ∈ d.tables.payments.rows, r.orderId = o

/-- The consumer calls the gateway for the order. -/
def ConsumerCall : Prop := ∃ i env amount pid, l = .step i ∧
  w.slots[i]? = some (some (.idle (callGateway dflt env o amount pid)))

/-- The reconciliation calls the gateway for the order. -/
def ReconcileCall : Prop := ∃ i s ps n, l = .step i ∧ s.orderId = o ∧
  w.slots[i]? = some (some (.idle (reconcileLoop dflt (s :: ps) n)))

/-- The gateway is called for the order. -/
def Call : Prop := ConsumerCall dflt o w l ∨ ReconcileCall dflt o w l

/-- A pass selects the payment of the order, which is in the state `PROCESSING` and older than
the interval. -/
def Selects : Prop := ∃ i stuckDuration f e, l = .step i ∧
  w.slots[i]? = some (some (.busy (.start (selectTx dflt stuckDuration f)) e)) ∧
  ∃ r ∈ w.db.tables.payments.rows, r.orderId = o ∧ isStuck stuckDuration f.now r

end Calls

variable {dflt : String} {d d' : Db} {o o' : UUID} {p : Process} {Q Q' : UUID → Prop}
  {L L' : List Stuck → Prop}

/-! ### Where the processes can be -/

/-- Where a process can be: the orders it calls the gateway for satisfy `Q`, the payments that a
pass has still to look at `L`. -/
inductive Known (dflt : String) (Q : UUID → Prop) (L : List Stuck → Prop) : Process → Prop
  | handle (env) : Known dflt Q L (handleMessage dflt env)
  | gateway {env o amount pid} : Q o → Known dflt Q L (callGateway dflt env o amount pid)
  | outcome (env success o pid) : Known dflt Q L (recordOutcome env success o pid)
  | reconcile (stuckDuration) : Known dflt Q L (reconcileStuckPayments dflt stuckDuration)
  | loop {ps n} : L ps → Known dflt Q L (reconcileLoop dflt ps n)
  | settle {s ps n} : L ps →
      Known dflt Q L (.txn (settleTx dflt s (reconcileLoop dflt ps) n) passError)
  | done (r) : Known dflt Q L (.done r)

theorem Known.mono (hQ : ∀ o, Q o → Q' o) (hL : ∀ ps, L ps → L' ps) (h : Known dflt Q L p) :
    Known dflt Q' L' p := by
  cases h with
  | handle env => exact .handle env
  | gateway h => exact .gateway (hQ _ h)
  | outcome env success o pid => exact .outcome env success o pid
  | reconcile n => exact .reconcile n
  | loop h => exact .loop (hL _ h)
  | settle h => exact .settle (hL _ h)
  | done r => exact .done r

/-- What the rest of a transaction can end with; `Q` has the orders for which it has inserted a
payment. -/
def Leads (dflt : String) (L : List Stuck → Prop) (Q : UUID → Prop) : Tx db Process → Prop
  | .pure p => Known dflt Q L p
  | .throw _ => True
  | .stmt (.inl (.insertPayment o _ _ _ _)) k => ∀ r, Leads dflt L (fun o' => o' = o ∨ Q o') (k r)
  | .stmt _ k => ∀ r, Leads dflt L Q (k r)
  | .savepoint _ => False
  | .release _ => False
  | .rollbackTo _ => False

theorem Leads.mono {t : Tx db Process} (hL : ∀ ps, L ps → L' ps) (hQ : ∀ o, Q o → Q' o)
    (h : Leads dflt L Q t) : Leads dflt L' Q' t := by
  induction t generalizing Q Q' with
  | pure p => exact Known.mono hQ hL h
  | throw e => trivial
  | stmt q k ih =>
    rcases q with q | q
    · cases q with
      | insertPayment o amount directive id now =>
        exact fun r => ih r (fun o' ho => ho.imp_right (hQ o')) (h r)
      | updateStatus status id now => exact fun r => ih r hQ (h r)
      | selectStuck n now => exact fun r => ih r hQ (h r)
      | selectStatusForUpdate id => exact fun r => ih r hQ (h r)
    · exact fun r => ih r hQ (h r)
  | savepoint k _ => exact h
  | release k _ => exact h
  | rollbackTo k _ => exact h

theorem leads_writeOutcome {success : Bool} {o pid : UUID} {f : Fresh} {k : Unit → Tx db Process}
    (h : Leads dflt L Q (k ())) : Leads dflt L Q ((writeOutcome success o pid f).bind k) :=
  fun _ _ => h

/-- **The transactions of the service**: the selection of the stuck payments, or one that ends
with what its process can go on as. -/
theorem Known.begins {t : Fresh → Tx db Process} {e : Err → Process}
    (h : Known dflt Q L (.txn t e)) : (∀ x, ∃ r, e x = .done r) ∧
      ((∃ n, t = selectTx dflt n) ∨ ∀ f, Leads dflt L (fun _ => False) (t f)) := by
  generalize hq : Proc.txn t e = q at h
  cases h with
  | handle env =>
    unfold handleMessage at hq
    split at hq
    · cases hq
    · rename_i o ho
      split at hq
      · cases hq
      · rename_i amount ha
        cases hq
        refine ⟨intentError_done env, .inr fun f existing => ?_⟩
        have hbranch : ∀ existing : Bool, Leads dflt L (fun _ => False)
            (if existing then pure (returned env) else do
              let paymentId ← insertPayment o amount env.payload.paymentSimulate f
              Mail.insertProcessed env.eventId
              pure (callGateway dflt env o amount paymentId)) := by
          intro existing
          cases existing with
          | true => exact .done _
          | false => exact fun paymentId _ => .gateway (.inl rfl)
        exact hbranch existing
  | gateway _ => cases hq
  | outcome env success o pid =>
    cases hq
    exact ⟨fun x => ⟨_, rfl⟩, .inr fun f => leads_writeOutcome (.done _)⟩
  | reconcile n =>
    cases hq
    exact ⟨fun x => ⟨_, rfl⟩, .inl ⟨n, rfl⟩⟩
  | @loop ps n _ => cases ps <;> cases hq
  | @settle s ps n hL =>
    cases hq
    refine ⟨fun x => ⟨_, rfl⟩, .inr fun f current => ?_⟩
    have hbranch : ∀ current : Option Status, Leads dflt L (fun _ => False)
        (if current ≠ some .processing then pure (reconcileLoop dflt ps n) else do
          writeOutcome (s.success dflt) s.orderId s.id f
          pure (reconcileLoop dflt ps (n + 1))) := by
      intro current
      split_ifs
      · exact .loop hL
      · exact leads_writeOutcome (.loop hL)
    exact hbranch current
  | done r => cases hq

/-- A delivery begins with a transaction, or ends at once. -/
theorem handleMessage_ne_call {env : Envelope} {c : GatewayCall} {k : Process} :
    handleMessage dflt env ≠ .call c k := by
  unfold handleMessage
  split
  · intro h; cases h
  · split <;> intro h <;> cases h

/-- The processes that call the gateway. -/
theorem Known.call_cases {c : GatewayCall} {k : Process} (h : Known dflt Q L (.call c k)) :
    (∃ o, Q o ∧ ∃ env amount pid, Proc.call c k = callGateway dflt env o amount pid) ∨
      ∃ s ps n, L (s :: ps) ∧ Proc.call c k = reconcileLoop dflt (s :: ps) n := by
  generalize hq : Proc.call c k = q at h
  cases h with
  | handle env => exact absurd hq.symm handleMessage_ne_call
  | @gateway env o amount pid ho => exact .inl ⟨o, ho, env, amount, pid, rfl⟩
  | outcome env success o pid => cases hq
  | reconcile n => cases hq
  | @loop ps n h =>
    cases ps with
    | nil => cases hq
    | cons s ps => exact .inr ⟨s, ps, n, h, rfl⟩
  | settle _ => cases hq
  | done r => cases hq

/-- What follows a call. -/
theorem Known.after_call (hL : ∀ s ps, L (s :: ps) → L ps) {c : GatewayCall} {k : Process}
    (h : Known dflt Q L (.call c k)) : Known dflt Q L k := by
  rcases h.call_cases with ⟨o, -, env, amount, pid, hq⟩ | ⟨s, ps, n, hps, hq⟩
  · cases hq
    exact .outcome _ _ _ _
  · cases hq
    exact .settle (hL s ps hps)

/-! ### Open transactions -/

variable {c c' : Session db Process} {e : Err → Process}

/-- The writes of a transaction include a payment for the order. -/
def Written (ws : List db.Write) (o : UUID) : Prop :=
  ∃ r, .inl (.addPayment r) ∈ ws ∧ r.orderId = o

/-- An `INSERT` into `payments` that is not refused. -/
theorem exec_insertPayment {amount : ℚ} {directive : Option String} {id : UUID} {now : Time}
    {r : UUID} {ws : List db.Write}
    (hx : db.exec (.inl (.insertPayment o amount directive id now)) d = .ok (r, ws)) :
    d.tables.payments.get? o = none ∧ ∃ x, ws = [.inl (.addPayment x)] ∧ x.orderId = o := by
  simp only [exec] at hx
  split at hx
  · cases hx
  · cases hx
  · split_ifs at hx with h₁ h₂
    · cases hx
    · cases hx
    · cases hx
      exact ⟨by simpa using h₂, _, rfl, rfl⟩

/-- What the next statement of the transaction leaves to do. -/
theorem leads_go (h : Leads dflt L (Written c.writes) c.prog) (hn : c.next d = .go c') :
    Leads dflt L (Written c'.writes) c'.prog := by
  cases hp : c.prog with
  | pure p => rw [Session.commit_of_pure hp] at hn; cases hn
  | throw x => rw [Session.abort_of_throw hp] at hn; cases hn
  | savepoint k => rw [hp] at h; exact h.elim
  | release k => rw [hp] at h; exact h.elim
  | rollbackTo k => rw [hp] at h; exact h.elim
  | stmt q k =>
    obtain ⟨r, ws, hx, hprog, hwrites, -⟩ := Session.go_of_stmt hp hn
    rw [hp] at h
    rw [hprog, hwrites]
    have hold : ∀ o, Written c.writes o → Written (c.writes ++ ws) o :=
      fun o ⟨x, hm, ho⟩ => ⟨x, List.mem_append_left _ hm, ho⟩
    rcases q with q | q
    · cases q with
      | insertPayment o amount directive id now =>
        refine Leads.mono (fun _ hps => hps) (fun o' ho => ?_) (h r)
        rcases ho with rfl | ho
        · obtain ⟨-, x, rfl, hxo⟩ := exec_insertPayment hx
          exact ⟨x, List.mem_append_right _ (List.mem_singleton_self _), hxo⟩
        · exact hold o' ho
      | updateStatus status id now => exact Leads.mono (fun _ hps => hps) hold (h r)
      | selectStuck n now => exact Leads.mono (fun _ hps => hps) hold (h r)
      | selectStatusForUpdate id => exact Leads.mono (fun _ hps => hps) hold (h r)
    · exact Leads.mono (fun _ hps => hps) hold (h r)

/-- What a transaction has inserted was not there, and it owns the order's value of the unique
column. -/
def Claims (d : Db) (c : Session db Process) : Prop :=
  ∀ r, .inl (.addPayment r) ∈ c.writes →
    .inl (.order r.orderId) ∈ c.held ∧ d.tables.payments.get? r.orderId = none

/-- An open transaction: it is selecting the stuck payments, or ends with a process that may call
the gateway only for an order whose payment it has inserted. -/
structure Running (dflt : String) (L : List Stuck → Prop) (d : Db) (c : Session db Process)
    (e : Err → Process) : Prop where
  onErr : ∀ x, ∃ r, e x = .done r
  claims : Claims d c
  leads : (∃ n f, c = .start (selectTx dflt n f)) ∨ Leads dflt L (Written c.writes) c.prog

/-- What a transaction that commits ends with. -/
theorem Running.ends (h : Running dflt L d c e) (hn : c.next d = .commit p) :
    Known dflt (Written c.writes) L p := by
  have hp : c.prog = .pure p := Session.prog_of_commit hn
  rcases h.leads with ⟨n, f, rfl⟩ | hl
  · cases hp
  · rw [hp] at hl
    exact hl

/-! ### Payments are kept -/

theorem paid_iff : Paid d o ↔ d.tables.payments.get? o ≠ none := by
  rw [Ne, Table.get?_eq_none]
  push Not
  rfl

theorem paid_apply (w : db.Write) : Paid (db.apply w d) o ↔
    Paid d o ∨ ∃ r, w = .inl (.addPayment r) ∧ r.orderId = o := by
  rw [paid_iff, paid_iff]
  rcases w with w | w
  · cases w with
    | addPayment r =>
      show (d.tables.payments.insert r).get? o ≠ none ↔ _
      rw [Ne, Table.get?_insert_eq_none, not_and_or, not_not]
      refine or_congr Iff.rfl ⟨fun ho => ⟨r, rfl, ho⟩, ?_⟩
      rintro ⟨r', hr, ho⟩
      cases hr
      exact ho
    | setStatus id status now =>
      have hget : (apply (.setStatus id status now) d.tables).payments.get? o = none ↔
          d.tables.payments.get? o = none := by
        simp only [apply]
        rw [Table.get?_update, Option.map_eq_none_iff]
      refine ⟨fun h => .inl (mt hget.2 h), ?_⟩
      rintro (h | ⟨r, hr, -⟩)
      · exact mt hget.1 h
      · cases hr
  · refine ⟨.inl, ?_⟩
    rintro (h | ⟨r, hr, -⟩)
    · exact h
    · cases hr

/-- The payments after a commit are those from before and those inserted. -/
theorem paid_applyAll (ws : List db.Write) :
    Paid (db.applyAll ws d) o ↔ Paid d o ∨ Written ws o := by
  induction ws generalizing d with
  | nil =>
    refine ⟨.inl, ?_⟩
    rintro (h | ⟨r, hr, -⟩)
    · exact h
    · cases hr
  | cons w ws ih =>
    rw [Dbms.applyAll_cons, ih, paid_apply, or_assoc]
    refine or_congr Iff.rfl ?_
    constructor
    · rintro (⟨r, rfl, ho⟩ | ⟨r, hr, ho⟩)
      · exact ⟨r, List.mem_cons_self, ho⟩
      · exact ⟨r, List.mem_cons_of_mem _ hr, ho⟩
    · rintro ⟨r, hr, ho⟩
      rcases List.mem_cons.1 hr with rfl | hr
      · exact .inl ⟨r, rfl, ho⟩
      · exact .inr ⟨r, hr, ho⟩

/-! ### Every run -/

/-- The payments listed are there. -/
def AllPaid (d : Db) (ps : List Stuck) : Prop := ∀ s ∈ ps, Paid d s.orderId

/-- The selection of the stuck payments leads to the loop over them. -/
theorem select_go {n : ℕ} {f : Fresh} (hn : Session.next d (.start (selectTx dflt n f)) = .go c') :
    c'.writes = [] ∧ c'.prog = .pure (reconcileLoop dflt
      ((d.tables.payments.rows.filter (isStuck n f.now)).map PaymentRow.stuck) 0) := by
  have hp : (Session.start (selectTx dflt n f)).prog = .stmt (.inl (.selectStuck n f.now)) _ := rfl
  obtain ⟨r, ws, hx, hprog, hwrites, -⟩ := Session.go_of_stmt hp hn
  cases hx
  exact ⟨hwrites, hprog⟩

theorem Claims.go (h : Claims d c) (hl : Leads dflt L (Written c.writes) c.prog)
    (hn : c.next d = .go c') : Claims d c' := by
  cases hp : c.prog with
  | pure p => rw [Session.commit_of_pure hp] at hn; cases hn
  | throw x => rw [Session.abort_of_throw hp] at hn; cases hn
  | savepoint k => rw [hp] at hl; exact hl.elim
  | release k => rw [hp] at hl; exact hl.elim
  | rollbackTo k => rw [hp] at hl; exact hl.elim
  | stmt q k =>
    obtain ⟨r, ws, hx, -, hwrites, hheld⟩ := Session.go_of_stmt hp hn
    intro x hm
    rw [hwrites] at hm
    rw [hheld]
    rcases List.mem_append.1 hm with hm | hm
    · exact ⟨List.mem_append_left _ (h x hm).1, (h x hm).2⟩
    · -- the only statement that writes a payment is the `INSERT`
      have hq : ∃ o amount directive id now,
          q = .inl (.insertPayment o amount directive id now) := by
        rcases q with q | q
        · cases q with
          | insertPayment o amount directive id now => exact ⟨o, amount, directive, id, now, rfl⟩
          | updateStatus status id now => cases hx; simp at hm
          | selectStuck n now => cases hx; cases hm
          | selectStatusForUpdate id => cases hx; cases hm
        · simp only at hx
          split at hx
          · cases hx
          · cases hx
            simp at hm
      obtain ⟨o, amount, directive, id, now, rfl⟩ := hq
      obtain ⟨hnone, x', rfl, rfl⟩ := exec_insertPayment hx
      cases List.mem_singleton.1 hm
      refine ⟨List.mem_append_right _ (by simp [needs]), ?_⟩
      by_contra hsome
      exact paid_iff.1 ((paid_applyAll c.writes).2 (.inl (paid_iff.2 hsome))) hnone

/-- What is known of an idle process. -/
def Waiting (dflt : String) (d : Db) (p : Process) : Prop := Known dflt (Paid d) (AllPaid d) p

/-- **What is known of the processes and the open transactions.** -/
theorem concurrent_invariant {w : World db Fresh GatewayCall Reply}
    (h : (concurrent dflt).Reachable w) : ∀ s, some s ∈ w.slots →
      s.Sat (Waiting dflt) (fun d c e => Running dflt (AllPaid d) d c e) w.db := by
  refine (World.invariant (fun _ => True) (Waiting dflt)
    (fun d c e => Running dflt (AllPaid d) d c e) (fun _ _ => trivial) ?_ ?_ ?_ ?_ ?_ ?_ h).2
  · rintro d p - (⟨env, rfl⟩ | ⟨n, rfl⟩)
    · exact .handle env
    · exact .reconcile n
  · intro d f t e _ _ hJ
    obtain ⟨herr, ⟨n, rfl⟩ | hl⟩ := Known.begins hJ
    · exact ⟨herr, fun r hr => (by cases hr), .inl ⟨n, f, rfl⟩⟩
    · exact ⟨herr, fun r hr => (by cases hr), .inr ((hl f).mono (fun _ h => h) fun o h => h.elim)⟩
  · intro d c k _ hJ
    exact Known.after_call (fun s ps h s' hs' => h s' (List.mem_cons_of_mem _ hs')) hJ
  · intro d c c' e _ hK _ hn
    rcases hK.leads with ⟨n, f, rfl⟩ | hl
    · obtain ⟨hwrites, hprog⟩ := select_go hn
      refine ⟨hK.onErr, fun r hr => ?_, .inr ?_⟩
      · rw [hwrites] at hr
        cases hr
      rw [hprog]
      refine Known.loop fun s hs => ?_
      obtain ⟨r, hr, rfl⟩ := List.mem_map.1 hs
      exact ⟨r, (List.mem_filter.1 hr).1, rfl⟩
    · exact ⟨hK.onErr, hK.claims.go hl hn, .inr (leads_go hl hn)⟩
  · intro d c e p _ hK hn
    -- what was there is still there, and what was inserted is new
    have hpaid : ∀ o, Paid d o → Paid (c.view d) o := fun o ho => (paid_applyAll _).2 (.inl ho)
    have hall : ∀ ps, AllPaid d ps → AllPaid (c.view d) ps := fun ps h s hs => hpaid _ (h s hs)
    refine ⟨trivial, ?_, fun p' hp' => hp'.mono hpaid hall, fun c' e' hdisj hK' => ?_⟩
    · exact (hK.ends hn).mono (fun o ho => (paid_applyAll _).2 (.inr ho)) hall
    · refine ⟨hK'.onErr, fun r hr => ?_, hK'.leads.imp_right fun hl => hl.mono hall fun _ h => h⟩
      obtain ⟨hlock, hnone⟩ := hK'.claims r hr
      refine ⟨hlock, ?_⟩
      by_contra hsome
      rcases (paid_applyAll _).1 (paid_iff.2 hsome) with hp | ⟨x, hx, ho⟩
      · exact paid_iff.1 hp hnone
      · exact hdisj (ho ▸ (hK.claims x hx).1) hlock
  · intro d c e x _ hK _
    obtain ⟨r, hr⟩ := hK.onErr x
    rw [hr]
    exact .done r

/-! ### Telling processes apart -/

/-- The gateway is called for one order. -/
theorem callGateway_inj {env env' : Envelope} {amount amount' : ℚ} {pid pid' : UUID}
    (h : callGateway dflt env o amount pid = callGateway dflt env' o' amount' pid') : o = o' := by
  have ht := congrFun (Proc.txn.inj (Proc.call.inj h).2).1 ⟨0, 0, 0, 0⟩
  have hk := congrFun (eq_of_heq (Tx.stmt.inj ht).2) ()
  exact (OutboxRow.mk.inj (Mail.Stmt.insertOutbox.inj (Sum.inr.inj (Tx.stmt.inj hk).1))).2.2.1

theorem callGateway_ne_reconcileLoop {env : Envelope} {amount : ℚ} {pid : UUID} {ps : List Stuck}
    {n : ℕ} : callGateway dflt env o amount pid ≠ reconcileLoop dflt ps n := by
  intro h
  cases ps with
  | nil => cases h
  | cons s ps =>
    have he := congrFun (Proc.txn.inj (Proc.call.inj h).2).2 (.keyError "")
    cases he

/-- The loop is over one list of orders. -/
theorem reconcileLoop_inj {ps ps' : List Stuck} {n n' : ℕ}
    (h : reconcileLoop dflt ps n = reconcileLoop dflt ps' n') :
    ps.map Stuck.orderId = ps'.map Stuck.orderId := by
  induction ps generalizing ps' n n' with
  | nil =>
    cases ps' with
    | nil => rfl
    | cons s ps' => cases h
  | cons s ps ih =>
    cases ps' with
    | nil => cases h
    | cons s' ps' =>
      have ht := congrFun (Proc.txn.inj (Proc.call.inj h).2).1 ⟨0, 0, 0, 0⟩
      have hk := eq_of_heq (Tx.stmt.inj ht).2
      -- the rest of the loop is what follows for a payment that has been resolved
      have hps := ih (Tx.pure.inj (congrFun hk none))
      have hset := congrFun hk (some .processing)
      have hout := congrFun (eq_of_heq (Tx.stmt.inj hset).2) ()
      have hrow := Mail.Stmt.insertOutbox.inj (Sum.inr.inj (Tx.stmt.inj hout).1)
      have ho := (OutboxRow.mk.inj hrow).2.2.1
      rw [List.map_cons, List.map_cons, hps, ho]

/-! ### The consumer -/

variable {w w' : World db Fresh GatewayCall Reply} {l : World.Label db Fresh GatewayCall Reply}
  {tr : List (World db Fresh GatewayCall Reply × World.Label db Fresh GatewayCall Reply)}

/-- A process that is about to call the gateway for the order owes one call. -/
def CallerOwes (dflt : String) (o : UUID) (k : ℕ)
    (s : Option (Slot db Fresh GatewayCall Reply)) : Prop :=
  (∃ env amount pid, s = some (.idle (callGateway dflt env o amount pid))) → 1 ≤ k

/-- The calls made and owed by the consumer: at most one, and none before there is a payment. -/
def CallsOnce (dflt : String) (o : UUID)
    (tr : List (World db Fresh GatewayCall Reply × World.Label db Fresh GatewayCall Reply))
    (w : World db Fresh GatewayCall Reply) : Prop :=
  ∃ n, Owed (CallerOwes dflt o) w.slots n ∧ LTS.tally (ConsumerCall dflt o) tr + n ≤ 1 ∧
    (¬ Paid w.db o → LTS.tally (ConsumerCall dflt o) tr + n = 0)

theorem callerOwes_of_ne {p : Process} (h : ∀ c k, p ≠ .call c k) :
    CallerOwes dflt o 0 (some (.idle p)) := by
  rintro ⟨env, amount, pid, he⟩
  exact absurd (Slot.idle.inj (Option.some.inj he)) (h _ _)

theorem callerOwes_busy {c : Session db Process} {e : Err → Process} :
    CallerOwes dflt o 0 (some (.busy c e)) := by
  rintro ⟨env, amount, pid, he⟩
  cases he

/-- A step inside a transaction is no call. -/
theorem not_consumerCall {i : ℕ} {c : Session db Process} {e : Err → Process}
    (hi : w.slots[i]? = some (some (.busy c e))) : ¬ ConsumerCall dflt o w (.step i) := by
  rintro ⟨i', env, amount, pid, hl, hi'⟩
  cases hl
  rw [hi] at hi'
  cases hi'

theorem not_reconcileCall {i : ℕ} {c : Session db Process} {e : Err → Process}
    (hi : w.slots[i]? = some (some (.busy c e))) : ¬ ReconcileCall dflt o w (.step i) := by
  rintro ⟨i', s, ps, n, hl, -, hi'⟩
  cases hl
  rw [hi] at hi'
  cases hi'

/-- A step of the consumer's accounts. -/
theorem CallsOnce.step (h : CallsOnce dflt o tr w) (hr : (concurrent dflt).Reachable w)
    (hst : (concurrent dflt).step w l w') : CallsOnce dflt o (tr ++ [(w, l)]) w' := by
  obtain ⟨n, howed, hone, hzero⟩ := h
  have hinv := concurrent_invariant hr
  -- a step that is no call of the consumer and leaves the tables as they are
  have idle : ∀ {w'}, ¬ ConsumerCall dflt o w l → w'.db = w.db →
      (∃ n' ≤ n, Owed (CallerOwes dflt o) w'.slots n') →
      CallsOnce dflt o (tr ++ [(w, l)]) w' := by
    rintro w' hc hdb ⟨n', hn', howed'⟩
    refine ⟨n', howed', ?_, fun hp => ?_⟩
    · rw [LTS.tally_snoc_not hc]
      omega
    · have := hzero (hdb ▸ hp)
      rw [LTS.tally_snoc_not hc]
      omega
  cases World.step_cases hst with
  | start hp =>
    refine idle (by rintro ⟨i, env, amount, pid, hl, -⟩; cases hl) rfl ⟨n, le_rfl, ?_⟩
    refine howed.snoc (k := 0) (callerOwes_of_ne fun c k he => ?_)
    rcases hp with ⟨env, rfl⟩ | ⟨m, rfl⟩
    · exact handleMessage_ne_call he
    · cases he
  | «begin» _ hi =>
    exact idle (by rintro ⟨i, env, amount, pid, hl, -⟩; cases hl) rfl
      (howed.forgive callerOwes_busy _)
  | @call i c k hi =>
    obtain ⟨k₀, m, hk₀, rfl, hset⟩ := howed.get hi
    have hafter : CallerOwes dflt o 0 (some (.idle k)) := by
      refine callerOwes_of_ne fun c' k' he => ?_
      rcases Known.call_cases (hinv _ (List.mem_of_getElem? hi)) with
        ⟨o', -, env, amount, pid, hq⟩ | ⟨s, ps, n, -, hq⟩ <;> cases hq <;> cases he
    by_cases hc : ConsumerCall dflt o w (.step i)
    · obtain ⟨i', env, amount, pid, hl, hi'⟩ := id hc
      cases hl
      have h1 : 1 ≤ k₀ := hk₀ ⟨env, amount, pid, Option.some.inj (hi.symm.trans hi')⟩
      refine ⟨m, hset 0 _ hafter, ?_, fun hp => ?_⟩
      · rw [LTS.tally_snoc_of hc]
        omega
      · have := hzero hp
        omega
    · exact idle hc rfl ⟨m, Nat.le_add_right _ _, hset 0 _ hafter⟩
  | go hi _ _ _ =>
    exact idle (not_consumerCall hi) rfl (howed.forgive callerOwes_busy _)
  | @commit i c p e hi hn =>
    have hc : ¬ ConsumerCall dflt o w (.step i) := not_consumerCall hi
    have hK : Running dflt (AllPaid w.db) w.db c e := hinv _ (List.mem_of_getElem? hi)
    obtain ⟨k₀, m, -, rfl, hset⟩ := howed.get hi
    by_cases hp : ∃ env amount pid, p = callGateway dflt env o amount pid
    · -- Transaction 1 of the consumer: there was no payment for the order before
      obtain ⟨env, amount, pid, rfl⟩ := hp
      have hw : Written c.writes o := by
        rcases (hK.ends hn).call_cases with ⟨o', ho', env', amount', pid', hq⟩ | ⟨s, ps, n, -, hq⟩
        · rw [callGateway_inj hq]
          exact ho'
        · exact absurd hq callGateway_ne_reconcileLoop
      obtain ⟨r, hrw, rfl⟩ := id hw
      have hnone : ¬ Paid w.db r.orderId := fun hp => paid_iff.1 hp (hK.claims r hrw).2
      have hz := hzero hnone
      refine ⟨m + 1, hset 1 _ fun _ => le_rfl, ?_, fun hp => ?_⟩
      · rw [LTS.tally_snoc_not hc]
        omega
      · exact absurd ((paid_applyAll c.writes).2 (.inr hw)) hp
    · refine ⟨m, hset 0 _ ?_, ?_, fun hp' => ?_⟩
      · rintro ⟨env, amount, pid, he⟩
        exact absurd ⟨env, amount, pid, Slot.idle.inj (Option.some.inj he)⟩ hp
      · rw [LTS.tally_snoc_not hc]
        omega
      · have := hzero fun hpaid => hp' ((paid_applyAll c.writes).2 (.inl hpaid))
        rw [LTS.tally_snoc_not hc]
        omega
  | @abort i c x e hi hn =>
    have hK : Running dflt (AllPaid w.db) w.db c e := hinv _ (List.mem_of_getElem? hi)
    refine idle (not_consumerCall hi) rfl (howed.forgive (callerOwes_of_ne fun c' k he => ?_) _)
    obtain ⟨r, hr⟩ := hK.onErr x
    rw [hr] at he
    cases he
  | kill _ =>
    refine idle (by rintro ⟨i, env, amount, pid, hl, -⟩; cases hl) rfl (howed.forgive ?_ _)
    rintro ⟨env, amount, pid, he⟩
    cases he

/-! ### The reconciliation -/

/-- The order is listed at most `k` times. -/
def Listed (o : UUID) (k : ℕ) (ps : List Stuck) : Prop := (ps.map Stuck.orderId).count o ≤ k

theorem Listed.tail {s : Stuck} {ps : List Stuck} {k : ℕ} (h : Listed o k (s :: ps)) :
    Listed o k ps := by
  rw [Listed, List.map_cons, List.count_cons] at h
  exact Nat.le_of_add_right_le h

/-- A pass owes a call for every payment of the order that it has still to look at. -/
def LoopOwes (dflt : String) (o : UUID) (k : ℕ) : Option (Slot db Fresh GatewayCall Reply) → Prop
  | some (.idle p) => Known dflt (fun _ => True) (Listed o k) p
  | some (.busy c _) => (∃ n f, c = .start (selectTx dflt n f)) ∨
      Leads dflt (Listed o k) (Written c.writes) c.prog
  | none => True

/-- The calls made and owed by the passes: at most one for each pass that has selected the
payment. -/
def CallsSelected (dflt : String) (o : UUID)
    (tr : List (World db Fresh GatewayCall Reply × World.Label db Fresh GatewayCall Reply))
    (w : World db Fresh GatewayCall Reply) : Prop :=
  ∃ n, Owed (LoopOwes dflt o) w.slots n ∧
    LTS.tally (ReconcileCall dflt o) tr + n ≤ LTS.tally (Selects dflt o) tr

/-- A pass selects the payment of an order at most once. -/
theorem listed_selected (o : UUID) (φ : PaymentRow → Bool) :
    Listed o 1 ((d.tables.payments.rows.filter φ).map PaymentRow.stuck) := by
  have hnd : ((d.tables.payments.rows.filter φ).map PaymentRow.orderId).Nodup :=
    d.tables.payments.nodup.sublist (List.filter_sublist.map _)
  have hmap : ((d.tables.payments.rows.filter φ).map PaymentRow.stuck).map Stuck.orderId =
      (d.tables.payments.rows.filter φ).map PaymentRow.orderId := by
    rw [List.map_map]
    rfl
  rw [Listed, hmap]
  exact List.nodup_iff_count_le_one.1 hnd o

/-- A step of the accounts of the passes. -/
theorem CallsSelected.step (h : CallsSelected dflt o tr w) (hr : (concurrent dflt).Reachable w)
    (hst : (concurrent dflt).step w l w') : CallsSelected dflt o (tr ++ [(w, l)]) w' := by
  obtain ⟨n, howed, hle⟩ := h
  have hinv := concurrent_invariant hr
  have hsel : LTS.tally (Selects dflt o) tr ≤ LTS.tally (Selects dflt o) (tr ++ [(w, l)]) :=
    LTS.tally_le_snoc
  -- a step that is no call of a pass and selects nothing that it would owe a call for
  have other : ∀ {w' : World db Fresh GatewayCall Reply}, ¬ ReconcileCall dflt o w l →
      (∃ n' ≤ n, Owed (LoopOwes dflt o) w'.slots n') →
      CallsSelected dflt o (tr ++ [(w, l)]) w' := by
    rintro w' hc ⟨n', hn', howed'⟩
    refine ⟨n', howed', ?_⟩
    rw [LTS.tally_snoc_not hc]
    omega
  cases World.step_cases hst with
  | start hp =>
    refine other (by rintro ⟨i, s, ps, m, hl, -⟩; cases hl) ⟨n, le_rfl, howed.snoc (k := 0) ?_⟩
    rcases hp with ⟨env, rfl⟩ | ⟨m, rfl⟩
    · exact Known.handle env
    · exact Known.reconcile m
  | @«begin» i f t e _ hi =>
    obtain ⟨k, m, hk, rfl, hset⟩ := howed.get hi
    refine other (by rintro ⟨i, s, ps, m, hl, -⟩; cases hl) ⟨m + k, le_rfl, hset k _ ?_⟩
    rcases (Known.begins hk).2 with ⟨n, rfl⟩ | hl
    · exact .inl ⟨n, f, rfl⟩
    · exact .inr ((hl f).mono (fun _ h => h) fun o h => h.elim)
  | @call i c k hi =>
    obtain ⟨k₀, m, hk₀, rfl, hset⟩ := howed.get hi
    by_cases hc : ReconcileCall dflt o w (.step i)
    · obtain ⟨i', s, ps, n, hl, ho, hi'⟩ := id hc
      cases hl
      rw [hi] at hi'
      have hq : Proc.call c k = reconcileLoop dflt (s :: ps) n :=
        Slot.idle.inj (Option.some.inj (Option.some.inj hi'))
      -- what the pass owed included this call
      have hcount : 1 + (ps.map Stuck.orderId).count o ≤ k₀ := by
        rcases Known.call_cases hk₀ with ⟨o', -, env, amount, pid, hq'⟩ | ⟨s', ps', n', hps, hq'⟩
        · exact absurd (hq'.symm.trans hq) callGateway_ne_reconcileLoop
        · have hmap := reconcileLoop_inj (hq'.symm.trans hq)
          rw [Listed, hmap, List.map_cons, ho, List.count_cons_self] at hps
          omega
      have hafter : LoopOwes dflt o (k₀ - 1) (some (.idle k)) := by
        cases hq
        exact Known.settle (show (ps.map Stuck.orderId).count o ≤ k₀ - 1 by omega)
      refine ⟨m + (k₀ - 1), hset _ _ hafter, ?_⟩
      rw [LTS.tally_snoc_of hc]
      omega
    · exact other hc ⟨m + k₀, le_rfl, hset k₀ _ (Known.after_call (fun _ _ h => h.tail) hk₀)⟩
  | @go i c c' e hi _ _ hn =>
    have hc : ¬ ReconcileCall dflt o w (.step i) := not_reconcileCall hi
    obtain ⟨k, m, hk, rfl, hset⟩ := howed.get hi
    rcases hk with ⟨n, f, rfl⟩ | hl
    · obtain ⟨hwrites, hprog⟩ := select_go hn
      have hleads : ∀ k', Listed o k' ((w.db.tables.payments.rows.filter
          (isStuck n f.now)).map PaymentRow.stuck) → LoopOwes dflt o k' (some (.busy c' e)) := by
        intro k' hk'
        refine .inr ?_
        rw [hprog]
        exact Known.loop hk'
      by_cases hs : Selects dflt o w (.step i)
      · refine ⟨m + 1, hset 1 _ (hleads 1 (listed_selected o _)), ?_⟩
        rw [LTS.tally_snoc_not hc, LTS.tally_snoc_of hs]
        omega
      · -- the payment of the order was not selected
        refine other hc ⟨m, Nat.le_add_right _ _, hset 0 _ (hleads 0 ?_)⟩
        refine (List.count_eq_zero.2 fun hm => hs ?_).le
        obtain ⟨s, hsm, rfl⟩ := List.mem_map.1 hm
        obtain ⟨r, hr, rfl⟩ := List.mem_map.1 hsm
        obtain ⟨hr, hstuck⟩ := List.mem_filter.1 hr
        exact ⟨i, n, f, e, rfl, hi, r, hr, rfl, hstuck⟩
    · exact other hc ⟨m + k, le_rfl, hset k _ (.inr (leads_go hl hn))⟩
  | @commit i c p e hi hn =>
    obtain ⟨k, m, hk, rfl, hset⟩ := howed.get hi
    have hK : Running dflt (AllPaid w.db) w.db c e := hinv _ (List.mem_of_getElem? hi)
    refine other (not_reconcileCall hi) ⟨m + k, le_rfl, hset k _ ?_⟩
    exact (Running.ends ⟨hK.onErr, hK.claims, hk⟩ hn).mono (fun _ _ => trivial) fun _ h => h
  | @abort i c x e hi hn =>
    have hK : Running dflt (AllPaid w.db) w.db c e := hinv _ (List.mem_of_getElem? hi)
    refine other (not_reconcileCall hi) (howed.forgive ?_ _)
    obtain ⟨r, hr⟩ := hK.onErr x
    show Known _ _ _ (e x)
    rw [hr]
    exact .done r
  | kill _ =>
    have hnone : LoopOwes dflt o 0 none := trivial
    exact other (by rintro ⟨i, s, ps, n, hl, -⟩; cases hl) (howed.forgive hnone _)

/-! ### The calls of a run -/

/-- **Write-ahead charging.**  In every run, every call of the gateway is for some order; when it
is made for an order, there is a committed payment for it; the consumer makes at most one call for
an order; and all calls for it are at most one more than the passes that have selected its payment
as stuck. -/
theorem charged_once {w₀ : World db Fresh GatewayCall Reply} (h₀ : (concurrent dflt).init w₀)
    (h : (concurrent dflt).Trace w₀ tr w) (o : UUID) :
    (∀ x ∈ tr, ∀ i c k, x.2 = .step i → x.1.slots[i]? = some (some (.idle (.call c k))) →
      ∃ o, Call dflt o x.1 x.2) ∧
    (∀ x ∈ tr, Call dflt o x.1 x.2 → Paid x.1.db o) ∧
    LTS.tally (ConsumerCall dflt o) tr ≤ 1 ∧
    LTS.tally (Call dflt o) tr ≤ 1 + LTS.tally (Selects dflt o) tr := by
  have hreach : ∀ x ∈ tr, (concurrent dflt).Reachable x.1 := fun x hx => h.reachable_of_mem h₀ hx
  have hcalls : CallsOnce dflt o tr w ∧ CallsSelected dflt o tr w := by
    refine h.invariant (I := fun tr w => CallsOnce dflt o tr w ∧ CallsSelected dflt o tr w) ?_ ?_
    · obtain ⟨d, -, rfl⟩ := h₀
      exact ⟨⟨0, .nil, by simp, by simp⟩, ⟨0, .nil, by simp⟩⟩
    · rintro tr w₁ l w₂ hrun ⟨hc, hs⟩ hst
      have hr : (concurrent dflt).Reachable w₁ := ⟨w₀, _, h₀, hrun⟩
      exact ⟨hc.step hr hst, hs.step hr hst⟩
  obtain ⟨⟨n, -, hone, -⟩, m, -, hsel⟩ := hcalls
  refine ⟨fun x hx i c k hl hi => ?_, fun x hx hcall => ?_, by omega, ?_⟩
  · rcases Known.call_cases (concurrent_invariant (hreach x hx) _ (List.mem_of_getElem? hi)) with
      ⟨o, -, env, amount, pid, hq⟩ | ⟨s, ps, n, -, hq⟩
    · exact ⟨o, .inl ⟨i, env, amount, pid, hl, hq ▸ hi⟩⟩
    · exact ⟨s.orderId, .inr ⟨i, s, ps, n, hl, rfl, hq ▸ hi⟩⟩
  · have hinv := concurrent_invariant (hreach x hx)
    rcases hcall with ⟨i, env, amount, pid, -, hi⟩ | ⟨i, s, ps, n, -, rfl, hi⟩
    · rcases Known.call_cases (hinv _ (List.mem_of_getElem? hi)) with
        ⟨o', ho', env', amount', pid', hq⟩ | ⟨s, ps, n, -, hq⟩
      · rw [callGateway_inj hq]
        exact ho'
      · exact absurd hq callGateway_ne_reconcileLoop
    · rcases Known.call_cases (hinv _ (List.mem_of_getElem? hi)) with
        ⟨o', -, env', amount', pid', hq⟩ | ⟨s', ps', n', hall, hq⟩
      · exact absurd hq.symm (callGateway_ne_reconcileLoop : _ ≠ reconcileLoop dflt (s :: ps) n)
      · have hloop : reconcileLoop dflt (s :: ps) n = reconcileLoop dflt (s' :: ps') n' := hq
        have hmap := reconcileLoop_inj hloop
        rw [List.map_cons, List.map_cons] at hmap
        rw [(List.cons.inj hmap).1]
        exact hall s' List.mem_cons_self
  · have hor : LTS.tally (fun w l => ConsumerCall dflt o w l ∨ ReconcileCall dflt o w l) tr ≤
        LTS.tally (ConsumerCall dflt o) tr + LTS.tally (ReconcileCall dflt o) tr := LTS.tally_or_le
    show LTS.tally (fun w l => ConsumerCall dflt o w l ∨ ReconcileCall dflt o w l) tr ≤ _
    omega

/-- Two deliveries of the same order under different ids: both pass the idempotency check before
either inserts its payment; the one that is first calls the gateway and is killed, the other is
refused.  A pass then calls the gateway for the payment that is stuck. -/
theorem charged_once_killed :
    let payload : Payload := { orderId := some 7, totalAmount := some 25 }
    let d₀ : Db := ⟨⟨.empty⟩, .empty⟩
    let run : List (World.Label db Fresh GatewayCall Reply) :=
      [.start (handleMessage "success" ⟨1, .stockReserved, 0, payload⟩),
        .start (handleMessage "success" ⟨2, .stockReserved, 0, payload⟩),
        .begin 0 ⟨70, 0, 0, 0⟩, .begin 1 ⟨71, 0, 0, 0⟩, .step 0, .step 1, .step 0, .step 0, .step 0,
        .step 1, .step 0, .kill 0, .start (reconcileStuckPayments "success" 180),
        .begin 2 ⟨0, 0, 0, 240⟩, .step 2, .step 2, .step 2]
    ∃ tr w, (concurrent "success").Trace (World.idle d₀) tr w ∧ tr.map Prod.snd = run ∧
      w.calls = [⟨25, none⟩, ⟨25, none⟩] ∧ LTS.tally (ConsumerCall "success" 7) tr ≤ 1 ∧
      LTS.tally (Call "success" 7) tr ≤ 1 + LTS.tally (Selects "success" 7) tr := by
  intro payload d₀ run
  have hrun : (LTS.runAct (World.act (S := db)) (World.idle d₀) run).map World.calls =
      some [⟨25, none⟩, ⟨25, none⟩] := by decide +kernel
  obtain ⟨w, hw, hcalls⟩ := Option.map_eq_some_iff.1 hrun
  have hr : (concurrent "success").Run (World.idle d₀) run w := by
    refine LTS.run_of_runAct ?_ hw
    intro w l hl
    cases l with
    | start p =>
      have hp : p = handleMessage "success" ⟨1, .stockReserved, 0, payload⟩ ∨
          p = handleMessage "success" ⟨2, .stockReserved, 0, payload⟩ ∨
            p = reconcileStuckPayments "success" 180 := by simpa [run] using hl
      rcases hp with rfl | rfl | rfl
      · exact .inl ⟨_, rfl⟩
      · exact .inl ⟨_, rfl⟩
      · exact .inr ⟨180, rfl⟩
    | «begin» i f => trivial
    | step i => exact fun _ _ _ => trivial
    | kill i => trivial
  obtain ⟨tr, htr, hls⟩ := hr.trace
  have h := charged_once ⟨d₀, ⟨rfl, rfl⟩, rfl⟩ htr 7
  exact ⟨tr, w, htr, hls, hcalls, h.2.2⟩

end Payment

end FoodFlow
