import FoodFlow.Payment.Outcome

/-!
# Concurrent passes of the reconciliation

Any number of passes of `reconcile_stuck_payments` on the same payments, each working from its own
stale selection.  What they have resolved so far is a list of payments (`Resolves`): the check of
the status in the transaction keeps it without repetitions, and a pass counts its part of it.

* `Resolves.row`, `Resolves.outbox` : what a list of resolutions leaves;
* `passes_resolve` : **every stuck payment is resolved exactly once**, and the counts returned add
  up to the number of payments that have changed.
-/

namespace FoodFlow

namespace Payment

/-- Passes of the reconciliation, when the clock shows `T` at first; the ids drawn are new. -/
def passRules (dflt : String) (stuckDuration : ℕ) (T : Time) :
    Node.Rules db Fresh GatewayCall Reply where
  start p := p = reconcileStuckPayments dflt stuckDuration
  draw d f := T ≤ f.now ∧ d.FreshRow f

/-- The passes running on the database `d₀`; none is killed. -/
def passes (dflt : String) (stuckDuration : ℕ) (T : Time) (d₀ : Db) :
    LTS (Node db Fresh GatewayCall Reply) (Node.Label db Fresh GatewayCall Reply) :=
  (Node.lts (passRules dflt stuckDuration T) (· = d₀)).restrict fun _ l => ∀ i, l ≠ .kill i

/-- The ids of the payments are distinct: the primary key. -/
def UniqueIds (t : Tables) : Prop := (t.payments.rows.map PaymentRow.id).Nodup

/-- In this step a pass selects the payment. -/
def Fetches (dflt : String) (stuckDuration : ℕ)
    (x : Node db Fresh GatewayCall Reply × Node.Label db Fresh GatewayCall Reply)
    (r : PaymentRow) : Prop :=
  ∃ i f, x.2 = .run i f ∧ x.1.procs[i]? = some (some (reconcileStuckPayments dflt stuckDuration)) ∧
    r ∈ x.1.db.tables.payments.rows ∧ isStuck stuckDuration f.now r

/-- A payment with the status that the gateway gives for its directive. -/
def PaymentRow.settled (dflt : String) (r : PaymentRow) (f : Fresh) : PaymentRow :=
  { r with status := statusOf (r.stuck.success dflt), updatedAt := f.now }

/-- The event for the outcome. -/
def PaymentRow.outcome (dflt : String) (r : PaymentRow) (f : Fresh) : OutboxRow :=
  outcomeRow (r.stuck.success dflt) r.orderId f

/-- The events about the order that are in the outbox of `d` and were not in that of `d₀`. -/
def newEvents (d₀ d : Db) (o : UUID) : List OutboxRow :=
  d.mail.outbox.rows.filter fun x => x.key = o ∧ x ∉ d₀.mail.outbox.rows

/-! ### Lists of resolutions -/

/-- The payments in `done`, resolved one after the other with the draws given, lead from `d₀` to
the last argument. -/
inductive Resolves (dflt : String) (d₀ : Db) : List (PaymentRow × Fresh) → Db → Prop
  | nil : Resolves dflt d₀ [] d₀
  | snoc {done : List (PaymentRow × Fresh)} {d : Db} {r : PaymentRow} {f : Fresh} :
      Resolves dflt d₀ done d → r ∈ d₀.tables.payments.rows → r.status = .processing →
      r ∉ done.map Prod.fst → d.FreshRow f →
      Resolves dflt d₀ (done ++ [(r, f)])
        (resolved (r.stuck.success dflt) r.orderId r.id f d)

variable {dflt : String} {stuckDuration : ℕ} {T : Time} {d₀ d : Db} {r r' : PaymentRow}
  {f : Fresh} {done : List (PaymentRow × Fresh)}

theorem eq_of_id {t : Tables} (h : UniqueIds t) (hr : r ∈ t.payments.rows)
    (hr' : r' ∈ t.payments.rows) (hid : r.id = r'.id) : r = r' :=
  List.inj_on_of_nodup_map h hr hr' hid

theorem byId?_of_mem {t : Tables} (h : UniqueIds t) (hr : r ∈ t.payments.rows) :
    t.byId? r.id = some r := by
  cases hb : t.byId? r.id with
  | none => exact absurd rfl (byId?_eq_none (d := ⟨t, .empty⟩) hb hr)
  | some r' =>
    have hid : r'.id = r.id := by simpa using List.find?_some hb
    rw [eq_of_id h (List.mem_of_find?_eq_some hb) hr hid]

theorem get?_resolved (success : Bool) (o pid k : UUID) :
    (resolved success o pid f d).tables.payments.get? k = (d.tables.payments.get? k).map fun r =>
      if r.id = pid then { r with status := statusOf success, updatedAt := f.now } else r := by
  show (d.tables.payments.update (·.id = pid) fun r =>
    { r with status := statusOf success, updatedAt := f.now }).get? k = _
  rw [Table.get?_update]
  simp only [decide_eq_true_eq]

/-- A resolution keeps the columns other than the status and the time. -/
theorem map_resolved {α : Type} {g : PaymentRow → α} (hg : ∀ (r : PaymentRow) status now,
    g { r with status := status, updatedAt := now } = g r) (success : Bool) (o pid : UUID) :
    (resolved success o pid f d).tables.payments.rows.map g =
      d.tables.payments.rows.map g := by
  show (d.tables.payments.rows.map fun r => if decide (r.id = pid) then
    { r with status := statusOf success, updatedAt := f.now } else r).map g = _
  rw [List.map_map]
  refine List.map_congr_left fun r _ => ?_
  simp only [Function.comp]
  split_ifs
  · exact hg _ _ _
  · rfl

namespace Resolves

variable (h : Resolves dflt d₀ done d)
include h

theorem mem (x) (hx : x ∈ done) :
    x.1 ∈ d₀.tables.payments.rows ∧ x.1.status = .processing := by
  induction h with
  | nil => cases hx
  | snoc _ hr hst _ _ ih =>
    rcases List.mem_append.1 hx with hx | hx
    · exact ih hx
    · obtain rfl := List.mem_singleton.1 hx
      exact ⟨hr, hst⟩

theorem nodup : (done.map Prod.fst).Nodup := by
  induction h with
  | nil => exact List.nodup_nil
  | snoc _ _ _ hnew _ ih =>
    rw [List.map_append, List.map_singleton]
    exact List.nodup_append_comm.1 (List.nodup_cons.2 ⟨hnew, ih⟩)

/-- What has become of a payment. -/
theorem row (hid : UniqueIds d₀.tables) (hr : r ∈ d₀.tables.payments.rows) :
    (∃ f, (r, f) ∈ done ∧ d.tables.payments.get? r.orderId = some (r.settled dflt f)) ∨
      (r ∉ done.map Prod.fst ∧ d.tables.payments.get? r.orderId = some r) := by
  induction h with
  | nil => exact .inr ⟨List.not_mem_nil, Table.get?_of_mem hr⟩
  | @snoc done d r' f' h hr' _ hnew _ ih =>
    rw [get?_resolved]
    by_cases he : r = r'
    · -- the payment that has just been resolved
      subst he
      obtain ⟨f, hf, -⟩ | ⟨-, hget⟩ := ih
      · exact absurd (List.mem_map_of_mem hf) hnew
      · exact .inl ⟨f', by simp, by simp [hget, PaymentRow.settled]⟩
    · have hne : r.id ≠ r'.id := fun hi => he (eq_of_id hid hr hr' hi)
      obtain ⟨f, hf, hget⟩ | ⟨hnot, hget⟩ := ih
      · refine .inl ⟨f, List.mem_append_left _ hf, ?_⟩
        have hid' : (r.settled dflt f).id = r.id := rfl
        rw [hget, Option.map_some, if_neg (hid' ▸ hne)]
      · refine .inr ⟨?_, by rw [hget, Option.map_some, if_neg hne]⟩
        rw [List.map_append, List.mem_append, not_or]
        exact ⟨hnot, by simpa using he⟩

theorem keys : d.tables.payments.rows.map PaymentRow.orderId =
    d₀.tables.payments.rows.map PaymentRow.orderId := by
  induction h with
  | nil => rfl
  | snoc _ _ _ _ _ ih => exact (map_resolved (fun _ _ _ => rfl) _ _ _).trans ih

theorem uniqueIds (hid : UniqueIds d₀.tables) : UniqueIds d.tables := by
  induction h with
  | nil => exact hid
  | snoc _ _ _ _ _ ih =>
    rw [UniqueIds, map_resolved fun _ _ _ => rfl]
    exact ih

/-- A payment that is still `PROCESSING` is as it was at first. -/
theorem processing (hid : UniqueIds d₀.tables) (hr : r ∈ d.tables.payments.rows)
    (hst : r.status = .processing) :
    r ∈ d₀.tables.payments.rows ∧ r ∉ done.map Prod.fst := by
  have hkey : r.orderId ∈ d₀.tables.payments.rows.map PaymentRow.orderId :=
    h.keys ▸ List.mem_map_of_mem hr
  obtain ⟨r₀, hr₀, hk⟩ := List.mem_map.1 hkey
  have hget : d.tables.payments.get? r₀.orderId = some r := hk ▸ Table.get?_of_mem hr
  obtain ⟨f, -, hset⟩ | ⟨hnot, hsame⟩ := h.row hid hr₀
  · obtain rfl := Option.some.inj (hget.symm.trans hset)
    exact absurd hst (statusOf_ne _)
  · obtain rfl := Option.some.inj (hget.symm.trans hsame)
    exact ⟨hr₀, hnot⟩

theorem outbox : d.mail.outbox.rows =
    d₀.mail.outbox.rows ++ done.map fun x => x.1.outcome dflt x.2 := by
  induction h with
  | nil => rw [List.map_nil, List.append_nil]
  | snoc _ _ _ _ hf ih =>
    rw [rows_outbox_resolved hf, ih, List.map_append, List.append_assoc]
    rfl

theorem outcome_new (x) (hx : x ∈ done) : x.1.outcome dflt x.2 ∉ d₀.mail.outbox.rows := by
  induction h with
  | nil => cases hx
  | @snoc done d r f h _ _ _ hf ih =>
    rcases List.mem_append.1 hx with hx | hx
    · exact ih hx
    · obtain rfl := List.mem_singleton.1 hx
      intro hmem
      have hmem' : r.outcome dflt f ∈ d.mail.outbox.rows :=
        h.outbox ▸ List.mem_append_left _ hmem
      exact (d.mail.outbox.get?_eq_none.1 hf) _ hmem' rfl

/-- The new events about an order are those of the resolutions of its payment. -/
theorem newEvents_eq (o : UUID) : newEvents d₀ d o =
    (done.filter fun x => x.1.orderId = o).map fun x => x.1.outcome dflt x.2 := by
  rw [newEvents, h.outbox, List.filter_append]
  have hold : d₀.mail.outbox.rows.filter
      (fun x => x.key = o ∧ x ∉ d₀.mail.outbox.rows) = [] :=
    List.filter_eq_nil_iff.2 fun x hx => by simp [hx]
  rw [hold, List.nil_append, List.filter_map]
  congr 1
  refine List.filter_congr fun x hx => ?_
  have hkey : (x.1.outcome dflt x.2).key = x.1.orderId := rfl
  simp only [Function.comp, hkey, h.outcome_new x hx, not_false_eq_true, and_true]

end Resolves

/-! ### One pass -/

/-- What the transaction for a payment does. -/
theorem run_settleTx {s : Stuck} {next : ℕ → Process} {n : ℕ} (hf : d.FreshRow f) :
    (settleTx dflt s next n f).run d =
      if (d.tables.byId? s.id).map PaymentRow.status = some .processing then
        .ok (next (n + 1), resolved (s.success dflt) s.orderId s.id f d)
      else .ok (next n, d) := by
  rw [Tx.run, settleTx, Tx.bind_def, eval_selectStatusForUpdate]
  by_cases hs : (d.tables.byId? s.id).map PaymentRow.status = some .processing
  · have hw : (writeOutcome (s.success dflt) s.orderId s.id f).eval d [] =
        .ok () (resolved (s.success dflt) s.orderId s.id f d) [] := by
      simp only [writeOutcome, Tx.bind_def, eval_updateStatus]
      rw [Mail.eval_insertOutbox_pure, if_neg (by simp [show _ = _ from hf])]
      rfl
    rw [if_pos hs, if_neg (not_not.2 hs), Tx.bind_def, Tx.eval_bind, hw]
    rfl
  · rw [if_neg hs, if_pos hs]
    rfl

/-- The payments of a pass that are still to come. -/
structure Remaining (stuckDuration : ℕ) (T : Time) (d₀ : Db) (Fetched : PaymentRow → Prop)
    (done : List (PaymentRow × Fresh)) (rs : List PaymentRow) : Prop where
  fetched : ∀ r ∈ rs, r ∈ d₀.tables.payments.rows ∧ r.status = .processing ∧ Fetched r
  /-- A payment that was stuck at first has been resolved, or comes. -/
  covers : ∀ r ∈ d₀.tables.payments.rows, isStuck stuckDuration T r →
    r ∈ done.map Prod.fst ∨ r ∈ rs

/-- Where a pass is that has counted `k`. -/
inductive Pass (dflt : String) (stuckDuration : ℕ) (T : Time) (d₀ : Db)
    (Fetched : PaymentRow → Prop) (done : List (PaymentRow × Fresh)) :
    ℕ → Option Process → Prop
  | start : Pass dflt stuckDuration T d₀ Fetched done 0
      (some (reconcileStuckPayments dflt stuckDuration))
  | loop {k : ℕ} {rs : List PaymentRow} : Remaining stuckDuration T d₀ Fetched done rs →
      Pass dflt stuckDuration T d₀ Fetched done k
        (some (reconcileLoop dflt (rs.map PaymentRow.stuck) k))
  | settle {k : ℕ} {r : PaymentRow} {rs : List PaymentRow} :
      Remaining stuckDuration T d₀ Fetched done (r :: rs) →
      Pass dflt stuckDuration T d₀ Fetched done k
        (some (.txn (settleTx dflt r.stuck (reconcileLoop dflt (rs.map PaymentRow.stuck)) k)
          passError))

section Mono

variable {Fetched Fetched' : PaymentRow → Prop} {done' : List (PaymentRow × Fresh)}
  {rs : List PaymentRow} {k : ℕ} {p : Option Process}

theorem Remaining.mono (hF : ∀ r, Fetched r → Fetched' r) (hd : done ⊆ done')
    (h : Remaining stuckDuration T d₀ Fetched done rs) :
    Remaining stuckDuration T d₀ Fetched' done' rs where
  fetched r hr := (h.fetched r hr).imp_right fun h' => ⟨h'.1, hF r h'.2⟩
  covers r hr hs := (h.covers r hr hs).imp_left fun hm => List.map_subset _ hd hm

/-- The first of the payments has been resolved. -/
theorem Remaining.tail (h : Remaining stuckDuration T d₀ Fetched done (r :: rs))
    (hr : r ∈ done.map Prod.fst) : Remaining stuckDuration T d₀ Fetched done rs where
  fetched x hx := h.fetched x (List.mem_cons_of_mem _ hx)
  covers x hx hs := (h.covers x hx hs).elim .inl fun hm =>
    (List.mem_cons.1 hm).elim (fun he => .inl (he ▸ hr)) .inr

theorem Pass.mono (hF : ∀ r, Fetched r → Fetched' r) (hd : done ⊆ done')
    (h : Pass dflt stuckDuration T d₀ Fetched done k p) :
    Pass dflt stuckDuration T d₀ Fetched' done' k p := by
  cases h with
  | start => exact .start
  | loop hr => exact .loop (hr.mono hF hd)
  | settle hr => exact .settle (hr.mono hF hd)

end Mono

/-! ### All passes together -/

/-- The payment has been selected in one of the steps. -/
def Fetched (dflt : String) (stuckDuration : ℕ)
    (tr : List (Node db Fresh GatewayCall Reply × Node.Label db Fresh GatewayCall Reply))
    (r : PaymentRow) : Prop :=
  ∃ x ∈ tr, Fetches dflt stuckDuration x r

variable {n : Node db Fresh GatewayCall Reply}
  {tr : List (Node db Fresh GatewayCall Reply × Node.Label db Fresh GatewayCall Reply)}

/-- The payments resolved so far have been selected, and each of them is counted by one pass. -/
def Inv (dflt : String) (stuckDuration : ℕ) (T : Time) (d₀ : Db)
    (tr : List (Node db Fresh GatewayCall Reply × Node.Label db Fresh GatewayCall Reply))
    (n : Node db Fresh GatewayCall Reply) : Prop :=
  ∃ done, Resolves dflt d₀ done n.db ∧
    (∀ x ∈ done, Fetched dflt stuckDuration tr x.1) ∧
    Owed (Pass dflt stuckDuration T d₀ (Fetched dflt stuckDuration tr) done) n.procs done.length

theorem fetched_snoc {x} (h : Fetched dflt stuckDuration tr r) :
    Fetched dflt stuckDuration (tr ++ [x]) r := by
  obtain ⟨y, hy, hr⟩ := h
  exact ⟨y, List.mem_append_left _ hy, hr⟩

/-- What a pass selects. -/
theorem remaining_selected (hid : UniqueIds d₀.tables) (h : Resolves dflt d₀ done d)
    {F : PaymentRow → Prop} (hT : T ≤ f.now)
    (hF : ∀ r ∈ d.tables.payments.rows, isStuck stuckDuration f.now r → F r) :
    Remaining stuckDuration T d₀ F done
      (d.tables.payments.rows.filter (isStuck stuckDuration f.now)) where
  fetched r hr := by
    obtain ⟨hm, hs⟩ := List.mem_filter.1 hr
    have hst : r.status = .processing := by
      simp only [isStuck, Bool.and_eq_true, decide_eq_true_eq] at hs
      exact hs.1
    exact ⟨(h.processing hid hm hst).1, hst, hF r hm hs⟩
  covers r hr hs := by
    obtain ⟨f', hf', -⟩ | ⟨-, hget⟩ := h.row hid hr
    · exact .inl (List.mem_map_of_mem hf')
    · -- it is stuck at a later time all the more
      refine .inr (List.mem_filter.2 ⟨Table.mem_of_get? hget, ?_⟩)
      simp only [isStuck, Bool.and_eq_true, decide_eq_true_eq] at hs ⊢
      exact ⟨hs.1, hs.2.trans_le hT⟩

theorem Inv.step (hid : UniqueIds d₀.tables) {l : Node.Label db Fresh GatewayCall Reply}
    {n' : Node db Fresh GatewayCall Reply} (h : Inv dflt stuckDuration T d₀ tr n)
    (hst : (passes dflt stuckDuration T d₀).step n l n') :
    Inv dflt stuckDuration T d₀ (tr ++ [(n, l)]) n' := by
  obtain ⟨done, hres, hfetched, howed⟩ := h
  have hF : ∀ r, Fetched dflt stuckDuration tr r →
      Fetched dflt stuckDuration (tr ++ [(n, l)]) r := fun r hr => fetched_snoc hr
  have hfetched' : ∀ x ∈ done, Fetched dflt stuckDuration (tr ++ [(n, l)]) x.1 :=
    fun x hx => hF _ (hfetched x hx)
  have howed' := howed.mono fun k p hp => hp.mono hF (List.Subset.refl done)
  obtain ⟨hkill, hst⟩ := hst
  cases Node.step_cases hst with
  | start hp =>
    obtain rfl : _ = reconcileStuckPayments dflt stuckDuration := hp
    exact ⟨done, hres, hfetched', howed'.snoc .start⟩
  | @call i f o k hi =>
    obtain ⟨m, m', hpass, hsum, hset⟩ := howed'.get hi
    refine ⟨done, hres, hfetched', hsum ▸ hset m _ ?_⟩
    generalize hx : some (Proc.call o k) = x at hpass
    cases hpass with
    | start => cases hx
    | @loop m rs hrem =>
      cases rs with
      | nil => cases hx
      | cons r rs =>
        cases hx
        exact .settle hrem
    | settle _ => cases hx
  | @commit i f t e p d hf hi hrun =>
    obtain ⟨hT, hfresh⟩ : T ≤ f.now ∧ n.db.FreshRow f := hf
    obtain ⟨m, m', hpass, hsum, hset⟩ := howed'.get_mono hi
    generalize hx : some (Proc.txn t e) = x at hpass hi
    cases hpass with
    | start =>
      cases hx
      obtain ⟨rfl, rfl⟩ := selectTx_ok hrun
      refine ⟨done, hres, hfetched', hsum ▸ hset _ (fun _ _ h => h) 0 _ (.loop ?_)⟩
      exact remaining_selected hid hres hT fun r hr hs =>
        ⟨_, List.mem_append_right _ (List.mem_singleton_self _), i, f, rfl, hi, hr, hs⟩
    | @loop m rs hrem =>
      cases rs with
      | nil => cases hx
      | cons r rs => cases hx
    | @settle m r rs hrem =>
      cases hx
      rw [run_settleTx hfresh] at hrun
      obtain ⟨hr, hstatus, hrF⟩ := hrem.fetched r List.mem_cons_self
      obtain ⟨f', hf', hget⟩ | ⟨hnot, hget⟩ := hres.row hid hr
      · -- another pass has resolved the payment
        have hby : n.db.tables.byId? r.stuck.id = some (r.settled dflt f') :=
          byId?_of_mem (hres.uniqueIds hid) (Table.mem_of_get? hget)
        have hne : (r.settled dflt f').status ≠ .processing := statusOf_ne _
        rw [hby, Option.map_some, if_neg fun hp => hne (Option.some.inj hp)] at hrun
        cases hrun
        exact ⟨done, hres, hfetched', hsum ▸ hset _ (fun _ _ h => h) m _
          (.loop (hrem.tail (List.mem_map_of_mem hf')))⟩
      · have hby : n.db.tables.byId? r.stuck.id = some r :=
          byId?_of_mem (hres.uniqueIds hid) (Table.mem_of_get? hget)
        rw [hby, Option.map_some, if_pos (congrArg some hstatus)] at hrun
        cases hrun
        have hsub : done ⊆ done ++ [(r, f)] := List.subset_append_left _ _
        have hlen : (done ++ [(r, f)]).length = m' + (m + 1) := by
          rw [List.length_append, hsum]
          rfl
        refine ⟨done ++ [(r, f)], hres.snoc hr hstatus hnot hfresh, fun x hx => ?_, ?_⟩
        · rcases List.mem_append.1 hx with hx | hx
          · exact hfetched' x hx
          · exact List.mem_singleton.1 hx ▸ hrF
        · rw [hlen]
          refine hset _ (fun _ _ h => h.mono (fun _ h => h) hsub) (m + 1) _ (.loop ?_)
          exact (hrem.mono (fun _ h => h) hsub).tail (by simp)
  | @abort i f t e x hf hi hrun =>
    obtain ⟨m, m', hpass, -, -⟩ := howed'.get hi
    generalize hx : some (Proc.txn t e) = x at hpass hi
    cases hpass with
    | start => cases hx; cases hrun
    | @loop m rs hrem =>
      cases rs with
      | nil => cases hx
      | cons r rs => cases hx
    | @settle m r rs hrem =>
      cases hx
      rw [run_settleTx hf.2] at hrun
      split_ifs at hrun
  | kill => exact absurd rfl (hkill _)
  | env hg => exact hg.elim

theorem trace_inv (hid : UniqueIds d₀.tables)
    (h : (passes dflt stuckDuration T d₀).Trace (Node.idle d₀) tr n) :
    Inv dflt stuckDuration T d₀ tr n :=
  h.invariant ⟨[], .nil, fun x hx => (by cases hx), .nil⟩ fun _ _ _ _ _ hI hst => hI.step hid hst

/-- A pass that has returned. -/
theorem pass_done {F : PaymentRow → Prop} {k : ℕ} {r : Reply}
    (h : Pass dflt stuckDuration T d₀ F done k (some (.done r))) :
    r = .reconciled (.ok k) ∧ Remaining stuckDuration T d₀ F done [] := by
  generalize hx : some (Proc.done r) = x at h
  cases h with
  | start => cases hx
  | @loop k rs hrem =>
    cases rs with
    | nil =>
      cases hx
      exact ⟨rfl, hrem⟩
    | cons r rs => cases hx
  | settle _ => cases hx

/-- The counts of passes that have returned. -/
theorem counts_of_owed {F : PaymentRow → Prop} {l : List (Option Process)} {m : ℕ}
    (h : Owed (Pass dflt stuckDuration T d₀ F done) l m)
    (hend : ∀ p ∈ l, ∃ r, p = some (.done r)) :
    ∃ counts : List ℕ, l = counts.map (fun k => some (.done (.reconciled (.ok k)))) ∧
      counts.sum = m := by
  induction h with
  | nil => exact ⟨[], rfl, rfl⟩
  | @cons k m p l hp _ ih =>
    obtain ⟨counts, rfl, rfl⟩ := ih fun p hp => hend p (List.mem_cons_of_mem _ hp)
    obtain ⟨r, rfl⟩ := hend p List.mem_cons_self
    obtain ⟨rfl, -⟩ := pass_done hp
    exact ⟨k :: counts, rfl, by rw [List.sum_cons, Nat.add_comm]⟩

/-- A payment that is resolved has changed. -/
theorem settled_ne (hst : r.status = .processing) (f : Fresh) : r.settled dflt f ≠ r := by
  intro he
  have := congrArg PaymentRow.status he
  rw [hst] at this
  exact statusOf_ne _ this

/-- The payments that have changed are those resolved. -/
theorem length_changed (hid : UniqueIds d₀.tables) (h : Resolves dflt d₀ done d) :
    (d₀.tables.payments.rows.filter fun r =>
      d.tables.payments.get? r.orderId ≠ some r).length = done.length := by
  have hnodup : d₀.tables.payments.rows.Nodup := .of_map _ hid
  have hperm : (d₀.tables.payments.rows.filter fun r =>
      d.tables.payments.get? r.orderId ≠ some r).Perm (done.map Prod.fst) := by
    refine (List.perm_ext_iff_of_nodup (hnodup.filter _) h.nodup).2 fun r => ?_
    rw [List.mem_filter, decide_eq_true_eq]
    constructor
    · rintro ⟨hr, hne⟩
      obtain ⟨f, hf, -⟩ | ⟨-, hget⟩ := h.row hid hr
      · exact List.mem_map_of_mem hf
      · exact absurd hget hne
    · intro hr
      obtain ⟨x, hx, rfl⟩ := List.mem_map.1 hr
      obtain ⟨hm, hst⟩ := h.mem x hx
      obtain ⟨f, -, hget⟩ | ⟨hnot, -⟩ := h.row hid hm
      · exact ⟨hm, fun hsame => settled_ne hst f (Option.some.inj (hget.symm.trans hsame))⟩
      · exact absurd hr hnot
  rw [hperm.length_eq, List.length_map]

/-- The events about a payment in a list of resolutions. -/
theorem newEvents_of_mem (h : Resolves dflt d₀ done d) (hf : (r, f) ∈ done) :
    newEvents d₀ d r.orderId = [r.outcome dflt f] := by
  have hmem := (h.mem _ hf).1
  have hone : (done.filter fun x => x.1.orderId = r.orderId) = [(r, f)] := by
    have hnodup : done.Nodup := .of_map _ h.nodup
    refine List.perm_singleton.1 ((List.perm_ext_iff_of_nodup (hnodup.filter _)
      (List.nodup_singleton _)).2 fun x => ?_)
    rw [List.mem_filter, decide_eq_true_eq, List.mem_singleton]
    constructor
    · rintro ⟨hx, hk⟩
      have hxr : x.1 = r :=
        List.inj_on_of_nodup_map d₀.tables.payments.nodup (h.mem x hx).1 hmem hk
      exact List.inj_on_of_nodup_map h.nodup hx hf hxr
    · rintro rfl
      exact ⟨hf, rfl⟩
  rw [h.newEvents_eq, hone]
  rfl

theorem newEvents_of_not_mem (h : Resolves dflt d₀ done d) (hr : r ∈ d₀.tables.payments.rows)
    (hnot : r ∉ done.map Prod.fst) : newEvents d₀ d r.orderId = [] := by
  have hnone : (done.filter fun x => x.1.orderId = r.orderId) = [] := by
    refine List.filter_eq_nil_iff.2 fun x hx hk => hnot ?_
    have hxr : x.1 = r := List.inj_on_of_nodup_map d₀.tables.payments.nodup (h.mem x hx).1 hr
      (of_decide_eq_true hk)
    exact hxr ▸ List.mem_map_of_mem hx
  rw [h.newEvents_eq, hnone]
  rfl

/-- **Reconciliation resolves each stuck payment exactly once.**  Once all of any number of
interleaved passes have returned: every payment that was stuck at first has the status that the
gateway gives for its directive, and there is one new event about its order, with the outcome;
a payment that no pass has selected is as it was, and there is no event about it; and the counts
returned add up to the number of payments that have changed. -/
theorem passes_resolve (hid : UniqueIds d₀.tables)
    (h : (passes dflt stuckDuration T d₀).Trace (Node.idle d₀) tr n) (hne : n.procs ≠ [])
    (hend : ∀ p ∈ n.procs, ∃ r, p = some (.done r)) :
    (∀ r ∈ d₀.tables.payments.rows, isStuck stuckDuration T r →
      ∃ f, n.db.tables.payments.get? r.orderId = some (r.settled dflt f) ∧
        newEvents d₀ n.db r.orderId = [r.outcome dflt f]) ∧
    (∀ r ∈ d₀.tables.payments.rows, ¬ Fetched dflt stuckDuration tr r →
      n.db.tables.payments.get? r.orderId = some r ∧ newEvents d₀ n.db r.orderId = []) ∧
    ∃ counts : List ℕ, n.procs = counts.map (fun k => some (.done (.reconciled (.ok k)))) ∧
      counts.sum = (d₀.tables.payments.rows.filter fun r =>
        n.db.tables.payments.get? r.orderId ≠ some r).length := by
  obtain ⟨done, hres, hfetched, howed⟩ := trace_inv hid h
  -- no payment is left to the first pass, which has returned
  have hrem : Remaining stuckDuration T d₀ (Fetched dflt stuckDuration tr) done [] := by
    obtain ⟨p, hp⟩ := List.exists_mem_of_ne_nil _ hne
    obtain ⟨i, hi⟩ := List.mem_iff_getElem?.1 hp
    obtain ⟨r, rfl⟩ := hend p hp
    obtain ⟨k, m, hpass, -, -⟩ := howed.get hi
    exact (pass_done hpass).2
  refine ⟨fun r hr hs => ?_, fun r hr hnf => ?_, ?_⟩
  · obtain ⟨f, hf, hget⟩ | ⟨hnot, -⟩ := hres.row hid hr
    · exact ⟨f, hget, newEvents_of_mem hres hf⟩
    · exact absurd ((hrem.covers r hr hs).resolve_right List.not_mem_nil) hnot
  · obtain ⟨f, hf, -⟩ | ⟨hnot, hget⟩ := hres.row hid hr
    · exact absurd (hfetched _ hf) hnf
    · exact ⟨hget, newEvents_of_not_mem hres hr hnot⟩
  · rw [length_changed hid hres]
    exact counts_of_owed howed hend

/-- Two passes select the same payment, and both call the gateway for it; the second one finds it
resolved. -/
theorem passes_resolve_two :
    let p : PaymentRow := ⟨5, 7, 2500, .processing, some "failure", 0, 0⟩
    let d₀ : Db := ⟨⟨Table.empty.insert p⟩, .empty⟩
    ∃ tr n, (passes "success" 180 1000 d₀).Trace (Node.idle d₀) tr n ∧ ∃ f,
      n.db.tables.payments.get? 7 = some (p.settled "success" f) ∧
        newEvents d₀ n.db 7 = [p.outcome "success" f] := by
  intro p d₀
  let pass : Process := reconcileStuckPayments "success" 180
  let f : Fresh := ⟨0, 1, 2, 1000⟩
  let f' : Fresh := ⟨0, 3, 4, 1000⟩
  let run : List (Node.Label db Fresh GatewayCall Reply) :=
    [.start pass, .start pass, .run 0 f, .run 1 f, .run 0 f, .run 1 f, .run 0 f, .run 1 f']
  let check (n : Node db Fresh GatewayCall Reply) : Node.Label db Fresh GatewayCall Reply → Bool
    | .run _ f => decide (1000 ≤ f.now) && (n.db.mail.outbox.get? f.rowId).isNone
    | _ => true
  have hrun : (LTS.runAct (fun n l => if check n l then Node.act n l else none) (Node.idle d₀)
      run).map (fun n => (n.procs.length, n.procs.all Proc.returned)) = some (2, true) := by
    decide +kernel
  obtain ⟨n, hn, hobs⟩ := Option.map_eq_some_iff.1 hrun
  obtain ⟨hlen, hdone⟩ := Prod.mk.inj hobs
  have hr : (Node.lts (passRules "success" 180 1000) (· = d₀)).Run (Node.idle d₀) run n := by
    refine LTS.run_of_runAct_check ?_ hn
    intro s l hl hc
    cases l with
    | start q => simpa [run, Node.Rules.guard, passRules, pass] using hl
    | run i f =>
      simp only [check, Bool.and_eq_true, decide_eq_true_eq] at hc
      exact ⟨hc.1, Option.isNone_iff_eq_none.1 hc.2⟩
    | kill i => trivial
    | env g => simp [run] at hl
  obtain ⟨tr, htr, -⟩ := (hr.restrict (C := fun _ l => ∀ i, l ≠ .kill i) fun _ l hl i he => by
    subst he
    simp [run] at hl).trace
  have hend : ∀ q ∈ n.procs, ∃ r, q = some (.done r) :=
    fun q hq => Proc.eq_of_returned (List.all_eq_true.1 hdone q hq)
  have hid : UniqueIds d₀.tables := by rw [UniqueIds]; decide
  have hne : n.procs ≠ [] := fun hnil => by simp [hnil] at hlen
  obtain ⟨hstuck, -, -⟩ := passes_resolve hid htr hne hend
  exact ⟨tr, n, htr, hstuck p (by decide) (by decide)⟩

end Payment

end FoodFlow
