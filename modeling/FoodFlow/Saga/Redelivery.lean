import FoodFlow.LTS.Repeats
import FoodFlow.Saga.Duplicates

/-!
# Redelivery to the order service

The consumer of the order service handling one envelope after the other.  An event that fails is
not entered into the ledger, and is handled again whenever it comes again.  It fails again, though:
its order does not exist or has left `PENDING` for good, or it is of no interest (`Settled`).

* `redelivery_absorbed` : **handling a list of envelopes leaves what handling the first
  occurrences leaves**, and a batch that is interrupted and delivered again what the batch leaves.
-/

namespace FoodFlow

namespace Order

/-- The consumer: an envelope is handled, and an exception is logged. -/
def consumer : LTS Db Envelope where
  init _ := True
  step d env d' := ∃ r os, (handleMessage env).Finishes WithMail.FreshRow d d' r os

/-- The envelope can no longer have an effect. -/
def Settled (env : Envelope) (d : Db) : Prop :=
  env.eventId ∈ d.mail.processed ∨ targetOf env.eventType = none ∨
    ∀ o, env.payload.orderId = some o → d.tables.status o ≠ some .pending

variable {env env' : Envelope} {d d' e e' : Db} {f : Fresh} {o : UUID} {target : Status}

theorem consumer_step (h : consumer.step d env d') :
    ∃ f, d.FreshRow f ∧ d' = (handleTx env f).after d := by
  obtain ⟨r, os, h⟩ := h
  obtain ⟨f, hf, hd, -⟩ := h.after (fun d f p d' hrun => ⟨_, (handleTx_ok hrun).1⟩)
    fun x => ⟨_, rfl⟩
  exact ⟨f, hf, hd⟩

/-- What a step of the consumer does: nothing, or the transition of an order. -/
inductive Handles (env : Envelope) (d : Db) : Db → Prop
  | settled : Settled env d → Handles env d d
  | transition (f : Fresh) {o target} : ¬ Settled env d → d.FreshRow f →
      env.payload.orderId = some o → targetOf env.eventType = some target →
      d.tables.status o = some .pending →
      Handles env d ⟨apply (.setStatus o target f.now) d.tables, transitioned env o target f d.mail⟩

theorem handles_of_step (h : consumer.step d env d') : Handles env d d' := by
  obtain ⟨f, hf, rfl⟩ := consumer_step h
  by_cases hs : Settled env d
  · rw [after_handleTx hf]
    rcases hs with hs | hs | hs
    · rw [if_pos hs]
      exact .settled (.inl hs)
    · rw [hs]
      split_ifs with hp
      · exact .settled (.inl hp)
      · cases env.payload.orderId <;> exact .settled (.inr (.inl hs))
    · split_ifs with hp
      · exact .settled (.inl hp)
      · split
        · rename_i o target ho _
          rw [if_neg (hs o ho)]
          exact .settled (.inr (.inr hs))
        · exact .settled (.inr (.inr hs))
  · have hs' := hs
    rw [Settled, not_or, not_or, not_forall] at hs'
    obtain ⟨hp, ht, o, ho⟩ := hs'
    obtain ⟨target, ht⟩ := Option.ne_none_iff_exists'.1 ht
    rw [Classical.not_imp, not_not] at ho
    rw [after_handleTx hf, if_neg hp, ho.1, ht]
    simp only [if_pos ho.2]
    exact .transition f hs hf ho.1 ht ho.2

/-! ### Settled envelopes stay settled -/

theorem processed_transitioned (env : Envelope) (o : UUID) (target : Status) (f : Fresh)
    (m : Mail) : (transitioned env o target f m).processed = env.eventId :: m.processed := by
  unfold transitioned
  split_ifs <;> rfl

/-- An order that is not `PENDING` does not become it. -/
theorem status_setStatus_ne_pending (ht : target ≠ .pending) {t : Tables} {o' : UUID}
    {now : Time} (h : t.status o' ≠ some .pending) :
    (apply (.setStatus o target now) t).status o' ≠ some .pending := by
  rw [Tables.status, get?_setStatus]
  rw [Tables.status] at h
  cases hr : t.orders.get? o' with
  | none => simp
  | some r =>
    rw [hr] at h
    by_cases hid : r.id = o
    · simpa [hid] using ht
    · simpa [hid] using h

theorem absorbs_consumer : consumer.Absorbs Settled where
  idle env d d' hs h := by
    cases handles_of_step h with
    | settled _ => rfl
    | transition f hn _ _ _ _ => exact absurd hs hn
  settles env d d' h := by
    cases handles_of_step h with
    | settled hs => exact hs
    | transition f _ _ _ _ _ =>
      refine .inl ?_
      rw [processed_transitioned]
      exact List.mem_cons_self
  keeps env env' d d' hs h := by
    cases handles_of_step h with
    | settled _ => exact hs
    | @transition f o target _ _ _ ht _ =>
      rcases hs with hs | hs | hs
      · refine .inl ?_
        rw [processed_transitioned]
        exact List.mem_cons_of_mem _ hs
      · exact .inr (.inl hs)
      · exact .inr (.inr fun o' ho' => status_setStatus_ne_pending (targetOf_ne_pending ht)
          (hs o' ho'))

/-! ### Up to ids and times -/

theorem status_eq_forget (d : Db) (o : UUID) :
    d.tables.status o = ((forget d).1.find? fun r => r.id = o).map OrderRow.status := by
  rw [forget, List.find?_map, Option.map_map]
  rfl

theorem forget_setStatus_eq (t : Tables) (o : UUID) (target : Status) (now : Time) :
    (apply (.setStatus o target now) t).orders.rows.map (fun r => { r with updatedAt := 0 }) =
      (t.orders.rows.map fun r => { r with updatedAt := 0 }).map fun r =>
        if r.id = o then { r with status := target } else r := by
  simp only [apply, Table.update, List.map_map]
  refine List.map_congr_left fun r _ => ?_
  by_cases hr : r.id = o <;> simp [hr]

theorem settled_congr (h : forget d = forget e) : Settled env d ↔ Settled env e := by
  have hp : d.mail.processed = e.mail.processed := congrArg (fun x => x.2.2) h
  rw [Settled, Settled, hp]
  simp only [status_eq_forget, h]

theorem forget_congr (env : Envelope) (d d' e e' : Db) (h : forget d = forget e)
    (hd : consumer.step d env d') (he : consumer.step e env e') : forget d' = forget e' := by
  cases handles_of_step hd with
  | settled hs =>
    cases handles_of_step he with
    | settled _ => exact h
    | transition _ hn _ _ _ _ => exact absurd ((settled_congr h).1 hs) hn
  | transition f hn hf ho ht _ =>
    cases handles_of_step he with
    | settled hs => exact absurd ((settled_congr h).2 hs) hn
    | transition f' _ hf' ho' ht' _ =>
      obtain rfl := Option.some.inj (ho.symm.trans ho')
      obtain rfl := Option.some.inj (ht.symm.trans ht')
      obtain ⟨hrows, hmail⟩ := Prod.mk.inj h
      obtain ⟨-, hproc⟩ := Prod.mk.inj hmail
      rw [forget, forget, forget_setStatus_eq, forget_setStatus_eq, hrows,
        forget_transitioned hf, forget_transitioned hf', hmail, hproc]

/-- **Redelivery equals single delivery.**  Up to new ids and times, handling a list of envelopes
in which equal event ids mean equal envelopes leaves the same orders, outbox and ledger as handling
the first occurrences alone, and so does a batch of which a part had been handled before. -/
theorem redelivery_absorbed {envs : List Envelope}
    (hkey : ∀ x ∈ envs, ∀ y ∈ envs, x.eventId = y.eventId → x = y)
    (h : consumer.Run d envs d') :
    consumer.Run d (LTS.firsts Envelope.eventId envs) d' ∧
      (∀ e', consumer.Run d (LTS.firsts Envelope.eventId envs) e' → forget d' = forget e') ∧
      ∀ handled e', handled <+: envs → consumer.Run d (handled ++ envs) e' →
        forget d' = forget e' := by
  have hfirsts := absorbs_consumer.run_firsts hkey h
  refine ⟨hfirsts, fun e' h' => LTS.Run.congr forget_congr rfl hfirsts h',
    fun handled e' hp h' => ?_⟩
  have hsub : ∀ x ∈ handled ++ envs, x ∈ envs := fun x hx =>
    (List.mem_append.1 hx).elim (fun hx => hp.subset hx) id
  have hfirsts' := absorbs_consumer.run_firsts
    (fun x hx y hy => hkey x (hsub x hx) y (hsub y hy)) h'
  rw [LTS.firsts_append_of_prefix hp] at hfirsts'
  exact LTS.Run.congr forget_congr rfl hfirsts hfirsts'

/-- A run with given draws. -/
theorem consumer_run {xs : List (Envelope × Fresh)}
    (h : LTS.runAct (fun d x => if (d.mail.outbox.get? x.2.rowId).isNone then
      some ((handleTx x.1 x.2).after d) else none) d xs = some d') :
    consumer.Run d (xs.map Prod.fst) d' := by
  induction xs generalizing d with
  | nil =>
    obtain rfl : d = d' := by simpa [LTS.runAct] using h
    exact .refl
  | cons x xs ih =>
    obtain ⟨d₁, h₁, h₂⟩ := Option.bind_eq_some_iff.1 h
    simp only at h₁
    split_ifs at h₁ with hf
    obtain rfl := Option.some.inj h₁
    have hfresh : d.FreshRow x.2 := Option.isNone_iff_eq_none.1 hf
    have hst : consumer.step d x.1 ((handleTx x.1 x.2).after d) := by
      rw [Tx.after]
      cases hrun : (handleTx x.1 x.2).run d with
      | ok v =>
        obtain ⟨p, d₂⟩ := v
        obtain ⟨rfl, -⟩ := handleTx_ok hrun
        exact ⟨_, _, .commit hfresh hrun .done⟩
      | error e => exact ⟨_, _, .abort hfresh hrun .done⟩
    exact (LTS.Run.single hst).trans (ih h₂)

/-- An order whose payment has failed, a success that contradicts it, an event about an unknown
order, and all of it again. -/
theorem redelivery_absorbed_contradicted :
    let d : Db := ⟨⟨Table.empty.insert ⟨7, 1, 5, [], 0, .pending, none, none, 0, 0⟩⟩, .empty⟩
    let failed : Envelope := ⟨1, .paymentFailed, 0, { orderId := some 7 }⟩
    let succeeded : Envelope := ⟨2, .paymentSucceeded, 0, { orderId := some 7 }⟩
    let unknown : Envelope := ⟨3, .stockRejected, 0, { orderId := some 8 }⟩
    ∃ d', consumer.Run d [failed, succeeded, unknown, failed, succeeded, unknown] d' ∧
      consumer.Run d [failed, succeeded, unknown] d' := by
  intro d failed succeeded unknown
  let f : Fresh := ⟨4, 5, 6, 9⟩
  let f' : Fresh := ⟨10, 11, 12, 13⟩
  let xs : List (Envelope × Fresh) := [(failed, f), (succeeded, f'), (unknown, f'), (failed, f'),
    (succeeded, f'), (unknown, f')]
  have hrun : (LTS.runAct (fun (d : Db) x => if (d.mail.outbox.get? x.2.rowId).isNone then
      some ((handleTx x.1 x.2).after d) else none) d xs).isSome := by decide +kernel
  obtain ⟨d', hd'⟩ := Option.isSome_iff_exists.1 hrun
  have h : consumer.Run d [failed, succeeded, unknown, failed, succeeded, unknown] d' :=
    consumer_run hd'
  have hkey : ∀ x ∈ [failed, succeeded, unknown, failed, succeeded, unknown],
      ∀ y ∈ [failed, succeeded, unknown, failed, succeeded, unknown],
        x.eventId = y.eventId → x = y := by decide
  exact ⟨d', h, (redelivery_absorbed hkey h).1⟩

end Order

end FoodFlow
