import FoodFlow.Restaurant.Conservation

/-!
# The verdicts of the restaurant service

`stock.reserved` and `stock.rejected` are the verdicts on an order.  An `order.placed` that comes
again under another event id is not in the ledger; it is stopped by the unique constraint on the
reservations alone, which is the last thing that `reserve_stock` tries.

* `verdict_once` : as long as a repeated order still has its reservation and enough stock to get
  as far as that, an order has at most one verdict;
* `verdict_twice` : without it, an order that was reserved is rejected as well.
-/

namespace FoodFlow

namespace Restaurant

/-- The verdict events about an order. -/
def IsVerdict (o : UUID) (r : OutboxRow) : Prop :=
  (r.payload.eventType = .stockReserved ∨ r.payload.eventType = .stockRejected) ∧
    r.payload.payload.orderId = some o

instance (o : UUID) (r : OutboxRow) : Decidable (IsVerdict o r) :=
  inferInstanceAs (Decidable (_ ∧ _))

/-- The verdicts on an order that are in the outbox. -/
def verdicts (o : UUID) (d : Db) : List OutboxRow :=
  d.mail.outbox.rows.filter fun r => IsVerdict o r

/-- The restaurant service on any database in which there are no events. -/
def system : LTS (Node db Fresh Empty Handled) (Node.Label db Fresh Empty Handled) :=
  Node.lts rules fun d => d.mail.outbox = .empty

/-- A repeated order gets as far as the unique constraint: no line is short, and where every line
can be deducted the reservation of the order is there. -/
def Stopped (o : UUID) (items : List Item) (t : Tables) : Prop :=
  isShort items t = false ∧ (isDeductible items t → (t.reservations.get? o).isSome)

instance (o : UUID) (items : List Item) (t : Tables) : Decidable (Stopped o items t) :=
  inferInstanceAs (Decidable (_ ∧ _))

/-- The envelope brings an order that has a verdict under a new event id. -/
def Repeats (d : Db) (env : Envelope) (o : UUID) (items : List Item) : Prop :=
  env.eventType = .orderPlaced ∧ env.payload.orderId = some o ∧ env.payload.items = some items ∧
    env.eventId ∉ d.mail.processed ∧ verdicts o d ≠ []

instance (d : Db) (env : Envelope) (o : UUID) (items : List Item) :
    Decidable (Repeats d env o items) :=
  inferInstanceAs (Decidable (_ ∧ _))

/-- A transaction that handles a repeated order is stopped by the unique constraint. -/
def RepeatsStopped (n : Node db Fresh Empty Handled) (l : Node.Label db Fresh Empty Handled) :
    Prop :=
  ∀ i f env o items, l = .run i f → n.procs[i]? = some (some (handleMessage env)) →
    Repeats n.db env o items → Stopped o items n.db.tables

variable {env : Envelope} {f : Fresh} {d d' : Db} {p : Process} {o o' : UUID} {items : List Item}

/-- When the transaction for an `order.placed` commits, some line was short, or all could be
deducted and there was no reservation. -/
theorem handleTx_placed (hrun : (handleTx env f).run d = .ok (p, d'))
    (hty : env.eventType = .orderPlaced) (ho : env.payload.orderId = some o)
    (hitems : env.payload.items = some items) (hnew : env.eventId ∉ d.mail.processed) :
    isShort items d.tables ∨
      (isDeductible items d.tables ∧ d.tables.reservations.get? o = none) := by
  obtain ⟨saved', h⟩ := Tx.run_eq_ok.1 hrun
  simp only [handleTx, Tx.bind_def, Mail.eval_selectProcessed, decide_eq_true_eq, if_neg hnew] at h
  unfold handleBody at h
  rw [ho, hty, hitems] at h
  simp only at h
  rw [Tx.eval_nested (flat_reserveStock o items)] at h
  split at h
  · rename_i a d₁ saved₁ hres
    obtain ⟨-, hded, t, -, ht⟩ := reserveStock_ok hres
    exact .inr ⟨hded, ht.unreserved⟩
  · rename_i e hres
    exact .inl (reserveStock_thrown hres).2
  · cases h

/-- An `order.placed` without items is not handled. -/
theorem items_of_handleTx (hrun : (handleTx env f).run d = .ok (p, d'))
    (hty : env.eventType = .orderPlaced) (ho : env.payload.orderId = some o)
    (hnew : env.eventId ∉ d.mail.processed) : ∃ items, env.payload.items = some items := by
  obtain ⟨saved', h⟩ := Tx.run_eq_ok.1 hrun
  simp only [handleTx, Tx.bind_def, Mail.eval_selectProcessed, decide_eq_true_eq, if_neg hnew] at h
  unfold handleBody at h
  rw [ho, hty] at h
  cases hitems : env.payload.items with
  | some items => exact ⟨items, rfl⟩
  | none =>
    rw [hitems] at h
    cases h

/-- What a commit adds to the verdicts: at most one, for the order that was placed. -/
theorem verdicts_effect (he : Effect env f d d') (o : UUID) :
    verdicts o d' = verdicts o d ∨ (env.eventType = .orderPlaced ∧ env.payload.orderId = some o ∧
      env.eventId ∉ d.mail.processed ∧ (verdicts o d').length = (verdicts o d).length + 1) := by
  -- a row appended for the order `o'`
  have append : ∀ {t : Tables} {r : OutboxRow} {o' : UUID}, env.payload.orderId = some o' →
      r.payload.payload.orderId = some o' → env.eventType = .orderPlaced →
      env.eventId ∉ d.mail.processed → d.mail.outbox.get? r.id = none →
      verdicts o ⟨t, marked env (Mail.apply (.addOutbox r) d.mail)⟩ = verdicts o d ∨
        (env.eventType = .orderPlaced ∧ env.payload.orderId = some o ∧
          env.eventId ∉ d.mail.processed ∧
          (verdicts o ⟨t, marked env (Mail.apply (.addOutbox r) d.mail)⟩).length =
            (verdicts o d).length + 1) := by
    intro t r o' ho hr hty hnew hfree
    have hrows : verdicts o ⟨t, marked env (Mail.apply (.addOutbox r) d.mail)⟩ =
        verdicts o d ++ [r].filter fun r => IsVerdict o r := by
      show (d.mail.outbox.insert r).rows.filter _ = _
      rw [Table.rows_insert hfree, List.filter_append]
      rfl
    by_cases hv : IsVerdict o r
    · refine .inr ⟨hty, ?_, hnew, ?_⟩
      · rw [ho, ← hr, hv.2]
      · rw [hrows, List.length_append, List.filter_cons, if_pos (by simpa using hv)]
        rfl
    · refine .inl ?_
      rw [hrows, List.filter_cons, if_neg (by simpa using hv)]
      exact List.append_nil _
  cases he with
  | duplicate _ => exact .inl rfl
  | unknown _ _ => exact .inl rfl
  | reserved hty ho _ hnew _ hfree => exact append ho ho hty hnew hfree
  | rejected hty ho _ _ hnew hfree => exact append ho rfl hty hnew hfree
  | released _ _ _ _ => exact .inl rfl
  | notFound _ _ _ _ => exact .inl rfl

theorem verdicts_migrate (d : Db) (o : UUID) : verdicts o (migrate d) = verdicts o d := by
  rw [verdicts, mail_migrate, verdicts]

/-- Where a process of the service can be. -/
def Handling (p : Process) : Prop := (∃ env, p = handleMessage env) ∨ ∃ r, p = .done r

/-- **One verdict per order**, in every run in which the transactions that handle a repeated order
are stopped by the unique constraint. -/
theorem verdict_once {n : Node db Fresh Empty Handled}
    (h : (system.restrict RepeatsStopped).Reachable n) (o : UUID) :
    (verdicts o n.db).length ≤ 1 := by
  have hinv : (∀ p, some p ∈ n.procs → Handling p) ∧ ∀ o, (verdicts o n.db).length ≤ 1 := by
    refine h.invariant (I := fun n => (∀ p, some p ∈ n.procs → Handling p) ∧
      ∀ o, (verdicts o n.db).length ≤ 1) ?_ ?_
    · rintro _ ⟨d, hd, rfl⟩
      refine ⟨fun p hp => (by cases hp), fun o => ?_⟩
      simp [verdicts, Node.idle, hd, Table.empty]
    · rintro n l n' ⟨hprocs, hv⟩ ⟨hcond, hst⟩
      have others : ∀ (i : ℕ) (p' : Process), Handling p' →
          ∀ p, some p ∈ n.procs.set i (some p') → Handling p := by
        intro i p' hp' p hp
        rcases Node.mem_set hp with hp | hp
        · exact hprocs p hp
        · exact Option.some.inj hp ▸ hp'
      cases Node.step_cases hst with
      | start hp =>
        refine ⟨fun p hm => ?_, hv⟩
        rcases List.mem_append.1 hm with hm | hm
        · exact hprocs p hm
        · exact Option.some.inj (List.mem_singleton.1 hm) ▸ .inl hp
      | @call i f c k _ => exact c.elim
      | @commit i f t e p d _ hi hrun =>
        rcases hprocs _ (List.mem_of_getElem? hi) with ⟨env, he⟩ | ⟨r, hr⟩
        · cases he
          obtain ⟨rfl, heff⟩ := handleTx_ok hrun
          refine ⟨others i _ (.inr ⟨_, rfl⟩), fun o => ?_⟩
          rcases verdicts_effect heff o with hsame | ⟨hty, ho, hnew, hlen⟩
          · exact hsame ▸ hv o
          · show (verdicts o d).length ≤ 1
            -- a second verdict is excluded by the condition on the step
            by_cases hnone : verdicts o n.db = []
            · rw [hlen, hnone]
              exact Nat.le_refl 1
            · exfalso
              obtain ⟨items, hitems⟩ := items_of_handleTx hrun hty ho hnew
              obtain ⟨hshort, hres⟩ :=
                hcond i f env o items rfl hi ⟨hty, ho, hitems, hnew, hnone⟩
              rcases handleTx_placed hrun hty ho hitems hnew with hs | ⟨hd, hfree⟩
              · rw [hshort] at hs
                cases hs
              · simpa [hfree] using hres hd
        · cases hr
      | @abort i f t e x _ hi _ =>
        rcases hprocs _ (List.mem_of_getElem? hi) with ⟨env, he⟩ | ⟨r, hr⟩
        · cases he
          exact ⟨others i _ (.inr (handleError_done env x)), hv⟩
        · cases hr
      | @kill i =>
        refine ⟨fun p hp => ?_, hv⟩
        rcases Node.mem_set hp with hp | hp
        · exact hprocs p hp
        · cases hp
      | env hg =>
        obtain rfl : _ = migrate := hg
        exact ⟨hprocs, fun o => (verdicts_migrate n.db o).symm ▸ hv o⟩
  exact hinv.2 o

theorem handleMessage_inj {env env' : Envelope} (h : handleMessage env = handleMessage env') :
    env = env' := by
  have he : handleError env (.keyError "") = handleError env' (.keyError "") :=
    congrFun (Proc.txn.inj h).2 _
  cases he
  rfl

/-- Two burgers of five, ordered under the event ids 1 and 2: there is stock enough for both, but
the second event finds the reservation of the first. -/
theorem verdict_once_repeated :
    let placed (e : UUID) : Envelope :=
      ⟨e, .orderPlaced, 0, { orderId := some 7, items := some [⟨1, 2, 10⟩] }⟩
    let d₀ : Db := ⟨⟨Table.empty.insert ⟨1, 5⟩, .empty⟩, .empty⟩
    ∃ n : Node db Fresh Empty Handled, LTS.runAct Node.act (Node.idle d₀)
        [.start (handleMessage (placed 1)), .run 0 ⟨3, 4, 5, 0⟩, .start (handleMessage (placed 2)),
          .run 1 ⟨6, 7, 8, 0⟩] = some n ∧
      verdicts 7 n.db ≠ [] ∧ (verdicts 7 n.db).length ≤ 1 := by
  intro placed d₀
  let f : Fresh := ⟨3, 4, 5, 0⟩
  let f' : Fresh := ⟨6, 7, 8, 0⟩
  have hrun : ((handleTx (placed 1) f).run d₀).toOption.map (fun x =>
      (decide (verdicts 7 x.2 ≠ []), decide (Stopped 7 [⟨1, 2, 10⟩] x.2.tables),
        ((handleTx (placed 2) f').run x.2).toOption.isNone)) = some (true, true, true) := by
    decide +kernel
  obtain ⟨⟨p, d₁⟩, hok, hobs⟩ := Option.map_eq_some_iff.1 hrun
  simp only [Prod.mk.injEq, decide_eq_true_eq] at hobs
  obtain ⟨hv, hstopped, hfails⟩ := hobs
  have h₁ : (handleTx (placed 1) f).run d₀ = .ok (p, d₁) := by
    cases hr : (handleTx (placed 1) f).run d₀ with
    | ok x => rw [hr] at hok; exact congrArg Except.ok (Option.some.inj hok)
    | error x => rw [hr] at hok; cases hok
  obtain ⟨x, h₂⟩ : ∃ x, (handleTx (placed 2) f').run d₁ = .error x := by
    cases hr : (handleTx (placed 2) f').run d₁ with
    | ok x => rw [hr] at hfails; cases hfails
    | error x => exact ⟨x, rfl⟩
  let n₁ : Node db Fresh Empty Handled := ⟨d₀, [some (handleMessage (placed 1))], []⟩
  let n₂ : Node db Fresh Empty Handled := ⟨d₁, [some p], []⟩
  let n₃ : Node db Fresh Empty Handled := ⟨d₁, [some p, some (handleMessage (placed 2))], []⟩
  let n₄ : Node db Fresh Empty Handled := ⟨d₁, [some p, some (handleError (placed 2) x)], []⟩
  have a₂ : Node.act n₁ (.run 0 f) = some n₂ := by
    simp only [Node.act, n₁, handleMessage, List.getElem?_cons_zero, h₁]
    rfl
  have a₄ : Node.act n₃ (.run 1 f') = some n₄ := by
    simp only [Node.act, n₃, handleMessage, List.getElem?_cons_succ, List.getElem?_cons_zero, h₂]
    rfl
  have t₂ : RepeatsStopped n₁ (.run 0 f) := by
    rintro i g env o items ⟨⟩ - ⟨-, -, -, -, hne⟩
    exact absurd rfl hne
  have t₄ : RepeatsStopped n₃ (.run 1 f') := by
    rintro i g env o items ⟨⟩ hi ⟨-, ho, hitems, -, -⟩
    obtain rfl := handleMessage_inj (Option.some.inj (Option.some.inj hi))
    cases ho
    cases hitems
    exact hstopped
  have r₀ : (system.restrict RepeatsStopped).Reachable (Node.idle d₀) := .init ⟨d₀, rfl, rfl⟩
  have r₁ : (system.restrict RepeatsStopped).Reachable n₁ :=
    r₀.tail (l := .start (handleMessage (placed 1))) ⟨by rintro i g env o items ⟨⟩, ⟨_, rfl⟩, rfl⟩
  have r₂ : (system.restrict RepeatsStopped).Reachable n₂ := r₁.tail ⟨t₂, trivial, a₂⟩
  have r₃ : (system.restrict RepeatsStopped).Reachable n₃ :=
    r₂.tail (l := .start (handleMessage (placed 2))) ⟨by rintro i g env o items ⟨⟩, ⟨_, rfl⟩, rfl⟩
  have r₄ : (system.restrict RepeatsStopped).Reachable n₄ := r₃.tail ⟨t₄, trivial, a₄⟩
  refine ⟨n₄, ?_, hv, verdict_once r₄ 7⟩
  show LTS.runAct Node.act n₁ [.run 0 f, .start (handleMessage (placed 2)), .run 1 f'] = some n₄
  simp only [LTS.runAct, a₂, Option.bind_some]
  show (Node.act n₃ (.run 1 f')).bind _ = some n₄
  rw [a₄]
  rfl

/-- Three burgers of five: the second event finds two, and the order that is reserved is rejected
as well. -/
theorem verdict_twice :
    let placed (e : UUID) : Envelope :=
      ⟨e, .orderPlaced, 0, { orderId := some 7, items := some [⟨1, 3, 10⟩] }⟩
    let d₀ : Db := ⟨⟨Table.empty.insert ⟨1, 5⟩, .empty⟩, .empty⟩
    ∃ n : Node db Fresh Empty Handled, LTS.runAct Node.act (Node.idle d₀)
        [.start (handleMessage (placed 1)), .run 0 ⟨3, 4, 5, 0⟩, .start (handleMessage (placed 2)),
          .run 1 ⟨6, 7, 8, 0⟩] = some n ∧ system.Reachable n ∧
      (verdicts 7 n.db).map (·.payload.eventType) = [.stockReserved, .stockRejected] ∧
      ¬ (verdicts 7 n.db).length ≤ 1 := by
  intro placed d₀
  let run : List (Node.Label db Fresh Empty Handled) :=
    [.start (handleMessage (placed 1)), .run 0 ⟨3, 4, 5, 0⟩, .start (handleMessage (placed 2)),
      .run 1 ⟨6, 7, 8, 0⟩]
  have hrun : (LTS.runAct Node.act (Node.idle d₀) run).map
      (fun n => (verdicts 7 n.db).map (·.payload.eventType)) =
        some [.stockReserved, .stockRejected] := by decide +kernel
  obtain ⟨n, hn, hv⟩ := Option.map_eq_some_iff.1 hrun
  refine ⟨n, hn, LTS.reachable_of_runAct ⟨d₀, rfl, rfl⟩ ?_ hn, hv, ?_⟩
  · intro s l hl
    simp only [run, List.mem_cons, List.not_mem_nil, or_false] at hl
    rcases hl with rfl | rfl | rfl | rfl
    exacts [⟨_, rfl⟩, trivial, ⟨_, rfl⟩, trivial]
  · rw [← List.length_map (f := (·.payload.eventType)), hv]
    decide

end Restaurant

end FoodFlow
