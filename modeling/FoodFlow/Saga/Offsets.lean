import FoodFlow.Shared.Consumer
import FoodFlow.Saga.Duplicates
import FoodFlow.Restaurant.Ranges

/-!
# Committed offsets

The consumers of the three services as instances of the loop of `FoodFlow.Shared.Consumer`.  Their
`run_consumer` swallows the exceptions of the handler and commits the offsets of the whole batch
after it.

* `offsets_committed` : the committed offsets are past handled messages only, **as long as no
  delivery of a committed batch meets a failure**: a transient failure, a message without the
  entries that its handler reads, or a value that a column cannot hold;
* `offsets_lost` : a transient failure is enough for a message to be lost.
-/

namespace FoodFlow

/-! ### The order service -/

namespace Order

/-- `run_consumer`. -/
def runConsumer : Consumer db Fresh Empty Reply Envelope where
  handle := handleMessage
  draws := WithMail.FreshRow
  other d d' := d.mail.processed ⊆ d'.mail.processed
  entered d env := decide (env.eventId ∈ d.mail.processed)
  Refuses d env := targetOf env.eventType = none ∨
    ∃ o, env.payload.orderId = some o ∧ d.tables.status o ≠ some .pending
  readable env := (targetOf env.eventType).isNone || env.payload.orderId.isSome
  storable _ _ := true

variable {env : Envelope} {f : Fresh} {d : Db} {x : Err}

/-- A transition of an order that is `PENDING`. -/
theorem eval_transitionOrder {o : UUID} {target : Status} (hs : d.tables.status o = some .pending)
    (ht : target ≠ .pending) (saved : List Db) :
    (transitionOrder o target f).eval d saved =
      .ok () { d with tables := apply (.setStatus o target f.now) d.tables } saved := by
  rw [transitionOrder, Tx.bind_def, eval_selectStatusForUpdate, hs]
  simp only [mem_allowedTransitions, true_and, ne_eq, ht, not_false_eq_true, not_true, if_false]
  rfl

/-- A message raises only because its type is unknown, its order is not given, or its order is
unknown or has left `PENDING`. -/
theorem handleTx_error (hf : d.FreshRow f) (h : (handleTx env f).run d = .error x) :
    targetOf env.eventType = none ∨ env.payload.orderId = none ∨
      ∃ o, env.payload.orderId = some o ∧ d.tables.status o ≠ some .pending := by
  simp only [Tx.run, handleTx, Tx.bind_def, Mail.eval_selectProcessed, decide_eq_true_eq] at h
  split_ifs at h with he
  · cases h
  · cases ho : env.payload.orderId with
    | none => exact .inr (.inl rfl)
    | some o =>
      by_cases hs : d.tables.status o = some .pending
      · left
        -- the transition is made, and what follows it commits
        have commits : ∀ {target : Status} {rest : Tx db Process}, target ≠ .pending →
            (∃ v d', rest.eval ⟨apply (.setStatus o target f.now) d.tables, d.mail⟩ [] =
              .ok v d' []) →
            ((transitionOrder o target f).bind fun _ => rest).run d ≠ .error x := by
          rintro target rest ht ⟨v, d', hrest⟩ hrun
          rw [Tx.run, Tx.eval_bind, eval_transitionOrder hs ht] at hrun
          simp only [hrest] at hrun
          cases hrun
        have hbody : (handleBody env f).run d = .error x := h
        unfold handleBody at hbody
        rw [ho] at hbody
        simp only at hbody
        split at hbody
        · exact absurd hbody (commits (by decide) ⟨_, _, eval_markProcessed he⟩)
        · exact absurd hbody (commits (by decide) ⟨_, _, eval_releaseAndMark he hf⟩)
        · exact absurd hbody (commits (by decide) ⟨_, _, eval_markProcessed he⟩)
        · cases hbody
      · exact .inr (.inr ⟨o, rfl, hs⟩)

theorem runConsumer_sound : runConsumer.Sound where
  other hsub hm := decide_eq_true (hsub (of_decide_eq_true hm))
  keeps hrun hm := decide_eq_true (Mail.mem_processed_run hrun (of_decide_eq_true hm))
  handle env hr := by
    refine ⟨_, _, rfl, fun d f hf => ⟨fun p d' hrun => ?_, fun x hrun _ => ?_⟩⟩
    · obtain ⟨-, he⟩ := handleTx_ok hrun
      cases he with
      | duplicate hm => exact .inl (decide_eq_true hm)
      | unknown hty => exact .inr (.inl hty)
      | transition _ _ _ _ _ _ _ => exact .inl (decide_eq_true List.mem_cons_self)
    · obtain hty | ho | href := handleTx_error hf hrun
      · exact .inl hty
      · have hr : ((targetOf env.eventType).isNone || env.payload.orderId.isSome) = true := hr
        rw [ho] at hr
        simp only [Option.isSome_none, Bool.or_false, Option.isNone_iff_eq_none] at hr
        exact .inl hr
      · exact .inr href

end Order

/-! ### The restaurant service -/

namespace Restaurant

/-- The message is about the stock of an order. -/
def isKnown : EventType → Bool
  | .orderPlaced => true
  | .stockRelease => true
  | _ => false

/-- The message has the entries that are read. -/
def isReadable (env : Envelope) : Bool :=
  match env.eventType with
  | .orderPlaced => env.payload.orderId.isSome && env.payload.items.isSome
  | .stockRelease => env.payload.orderId.isSome
  | _ => true

/-- The `UPDATE`s of the stock are not refused. -/
def isStorable (t : Tables) (env : Envelope) : Bool :=
  match env.eventType, env.payload.orderId with
  | .orderPlaced, _ =>
    let items := env.payload.items.getD []
    isShort items t || isDeductible items t
  | .stockRelease, some o =>
    match t.reservations.get? o with
    | none => true
    | some r => isAddable r.items t
  | _, _ => true

/-- `run_consumer`. -/
def runConsumer : Consumer db Fresh Empty Handled Envelope where
  handle := handleMessage
  draws := WithMail.FreshRow
  other d d' := d.mail.processed ⊆ d'.mail.processed
  entered d env := decide (env.eventId ∈ d.mail.processed)
  Refuses d env := isKnown env.eventType = false ∨ env.eventType = .orderPlaced ∧
    ∃ o, env.payload.orderId = some o ∧ (d.tables.reservations.get? o).isSome
  readable := isReadable
  storable d := isStorable d.tables

variable {env : Envelope} {f : Fresh} {d : Db} {x : Err} {o : UUID} {items : List Item}

/-- A message raises only because its type is unknown, an entry is missing, an `UPDATE` is refused
or its order has its reservation. -/
theorem handleTx_error (hf : d.FreshRow f) (h : (handleTx env f).run d = .error x)
    (hr : isReadable env) (hst : isStorable d.tables env) :
    isKnown env.eventType = false ∨ env.eventType = .orderPlaced ∧
      ∃ o, env.payload.orderId = some o ∧ (d.tables.reservations.get? o).isSome := by
  simp only [Tx.run, handleTx, Tx.bind_def, Mail.eval_selectProcessed, decide_eq_true_eq] at h
  split_ifs at h with he
  · cases h
  · have hbody : ((handleBody env f).eval d []).toExcept = .error x := h
    unfold handleBody at hbody
    unfold isReadable at hr
    unfold isStorable at hst
    cases hty : env.eventType with
    | orderPlaced =>
      simp only [hty, Bool.and_eq_true, Option.isSome_iff_exists] at hr hst
      obtain ⟨⟨o, ho⟩, items, hitems⟩ := hr
      rw [ho, hty, hitems] at hbody
      rw [hitems, Option.getD_some] at hst
      simp only [Tx.eval_nested (flat_reserveStock o items)] at hbody
      obtain ⟨e, hres⟩ | hres | ⟨t, hres⟩ := eval_reserveStock (o := o) hst []
      · rw [hres] at hbody
        simp only [eval_publishAndMark he hf] at hbody
        cases hbody
      · exact .inr ⟨rfl, o, ho, hres⟩
      · rw [hres] at hbody
        simp only [eval_publishAndMark (d := ⟨t, d.mail⟩) he hf] at hbody
        cases hbody
    | stockRelease =>
      simp only [hty, Option.isSome_iff_exists] at hr
      obtain ⟨o, ho⟩ := hr
      rw [ho, hty] at hbody
      simp only [hty, ho] at hst
      obtain ⟨t, hrel⟩ := eval_releaseStock (o := o) (d := d)
        (fun r hr => by rw [hr] at hst; exact hst) []
      simp only [Tx.bind_def, Tx.eval_bind, hrel] at hbody
      rw [eval_markProcessed (d := ⟨t, d.mail⟩) he] at hbody
      cases hbody
    | stockReserved => exact .inl rfl
    | stockRejected => exact .inl rfl
    | paymentSucceeded => exact .inl rfl
    | paymentFailed => exact .inl rfl
    | other name => exact .inl rfl

theorem runConsumer_sound : runConsumer.Sound where
  other hsub hm := decide_eq_true (hsub (of_decide_eq_true hm))
  keeps hrun hm := decide_eq_true (Mail.mem_processed_run hrun (of_decide_eq_true hm))
  handle env hr := by
    refine ⟨_, _, rfl, fun d f hf => ⟨fun p d' hrun => ?_, fun x hrun hst => ?_⟩⟩
    · obtain ⟨-, he⟩ := handleTx_ok hrun
      cases he with
      | duplicate hm => exact .inl (decide_eq_true hm)
      | unknown h₁ h₂ =>
        refine .inr (.inl ?_)
        unfold isKnown
        split
        · exact absurd ‹_› h₁
        · exact absurd ‹_› h₂
        · rfl
      | reserved _ _ _ _ _ _ => exact .inl (decide_eq_true List.mem_cons_self)
      | rejected _ _ _ _ _ _ => exact .inl (decide_eq_true List.mem_cons_self)
      | released _ _ _ _ => exact .inl (decide_eq_true List.mem_cons_self)
      | notFound _ _ _ _ => exact .inl (decide_eq_true List.mem_cons_self)
    · exact handleTx_error hf hrun hr hst

end Restaurant

/-! ### The payment service -/

namespace Payment

/-- `run_consumer`. -/
def runConsumer (dflt : String) : Consumer db Fresh GatewayCall Reply Envelope where
  handle := handleMessage dflt
  draws := FreshIn
  other d d' := d.mail.processed ⊆ d'.mail.processed
  entered d env := decide (env.eventId ∈ d.mail.processed)
  Refuses d env := ∃ o, env.payload.orderId = some o ∧ (d.tables.payments.get? o).isSome
  readable env := env.payload.orderId.isSome && env.payload.totalAmount.isSome
  storable _ env := (env.payload.totalAmount.bind decimal).isSome &&
    (varchar? 20 env.payload.paymentSimulate).isSome

variable {dflt : String} {env : Envelope} {f : Fresh} {d : Db} {x : Err} {o : UUID} {amount : ℚ}

/-- Transaction 1 raises only because a value cannot be stored, or its order has its payment. -/
theorem recordIntent_error (hf : FreshIn d f)
    (h : (recordIntent dflt env o amount f).run d = .error x) (hc : (decimal amount).isSome)
    (hv : (varchar? 20 env.payload.paymentSimulate).isSome) :
    (d.tables.payments.get? o).isSome := by
  by_contra ho
  obtain ⟨cents, hc⟩ := Option.isSome_iff_exists.1 hc
  obtain ⟨directive, hv⟩ := Option.isSome_iff_exists.1 hv
  by_cases he : env.eventId ∈ d.mail.processed
  · simp only [Tx.run, recordIntent, Tx.bind_def, Mail.eval_selectProcessed, he, decide_true,
      if_true] at h
    cases h
  · rw [run_recordIntent ⟨hc, hv, he, by simpa using ho⟩ hf] at h
    cases h

theorem runConsumer_sound (dflt : String) : (runConsumer dflt).Sound where
  other hsub hm := decide_eq_true (hsub (of_decide_eq_true hm))
  keeps hrun hm := decide_eq_true (Mail.mem_processed_run hrun (of_decide_eq_true hm))
  handle env hr := by
    obtain ⟨ho, ha⟩ := Bool.and_eq_true_iff.1 hr
    obtain ⟨o, ho⟩ := Option.isSome_iff_exists.1 ho
    obtain ⟨amount, ha⟩ := Option.isSome_iff_exists.1 ha
    have hm : (runConsumer dflt).handle env = .txn (recordIntent dflt env o amount)
        (intentError env) := by
      show handleMessage dflt env = _
      rw [handleMessage, ho, ha]
    refine ⟨_, _, hm, fun d f hf => ⟨fun p d' hrun => .inl ?_, fun x hrun hst => ⟨o, ho, ?_⟩⟩⟩
    · obtain ⟨hm, -, rfl⟩ | ⟨_, _, -, -, -, -, -, -, rfl⟩ := recordIntent_ok hrun
      · exact decide_eq_true hm
      · exact decide_eq_true List.mem_cons_self
    · obtain ⟨hc, hv⟩ := Bool.and_eq_true_iff.1 hst
      rw [ha] at hc
      exact recordIntent_error hf hrun hc hv

end Payment

/-- **Offsets are committed past handled messages only, as long as no delivery of a committed batch
meets a failure.**  In every run of a consumer, whatever is produced and fetched and wherever it
crashes, a message before the committed offset of its partition is in `processed_events`, or has
been delivered when there was a permanent reason to refuse it. -/
theorem offsets_committed {P : Type} [DecidableEq P] (dflt : String) :
    (∀ s₀ tr (s : Consumer.State Order.db Fresh Empty Order.Reply Envelope P),
      Order.runConsumer.careful.init s₀ → Order.runConsumer.careful.Trace s₀ tr s →
      Order.runConsumer.OffsetsSettled tr s) ∧
    (∀ s₀ tr (s : Consumer.State Restaurant.db Fresh Empty Restaurant.Handled Envelope P),
      Restaurant.runConsumer.careful.init s₀ → Restaurant.runConsumer.careful.Trace s₀ tr s →
      Restaurant.runConsumer.OffsetsSettled tr s) ∧
    ∀ s₀ tr (s : Consumer.State Payment.db Fresh Payment.GatewayCall Payment.Reply Envelope P),
      (Payment.runConsumer dflt).careful.init s₀ →
      (Payment.runConsumer dflt).careful.Trace s₀ tr s →
      (Payment.runConsumer dflt).OffsetsSettled tr s :=
  ⟨fun _ _ _ h₀ h => Consumer.offsets Order.runConsumer_sound h₀ h,
    fun _ _ _ h₀ h => Consumer.offsets Restaurant.runConsumer_sound h₀ h,
    fun _ _ _ h₀ h => Consumer.offsets (Payment.runConsumer_sound dflt) h₀ h⟩

/-- A payment that has succeeded, for an order that is unknown: the handler raises, and the offset
is committed. -/
theorem offsets_committed_unknown :
    ∃ s₀ tr, ∃ s : Consumer.State Order.db Fresh Empty Order.Reply Envelope Unit,
      Order.runConsumer.careful.init s₀ ∧ Order.runConsumer.careful.Trace s₀ tr s ∧
      s.db.mail.processed = [] ∧ s.committed () = 1 ∧ Order.runConsumer.OffsetsSettled tr s := by
  let env : Envelope := ⟨1, .paymentSucceeded, 0, { orderId := some 7 }⟩
  let d : Order.Db := ⟨⟨.empty⟩, .empty⟩
  let f : Fresh := ⟨2, 3, 4, 0⟩
  let log : Unit → List Envelope := Function.update (fun _ => []) () [env]
  let pos : Unit → ℕ := Consumer.advanced (fun _ => 0) [()] fun _ => 1
  let e : Order.Err := .valueError 7
  have hrun : (Order.handleTx env f).run d = .error e := rfl
  have a₁ : Order.runConsumer.careful.step ⟨d, fun _ => [], fun _ => 0, .down⟩ .produce
      ⟨d, log, fun _ => 0, .down⟩ := ⟨by rintro ⟨⟩, .produce () env⟩
  have a₂ : Order.runConsumer.careful.step ⟨d, log, fun _ => 0, .down⟩ .start
      ⟨d, log, fun _ => 0, .polling fun _ => 0⟩ := ⟨by rintro ⟨⟩, .start rfl⟩
  have a₃ : Order.runConsumer.careful.step ⟨d, log, fun _ => 0, .polling fun _ => 0⟩ .poll
      ⟨d, log, fun _ => 0, .handling pos [env] []⟩ :=
    ⟨by rintro ⟨⟩, .poll _ [()] (fun _ => 1) rfl (by simp) (by simp [log]) (by simp [log,
      Consumer.fetched])⟩
  have a₄ : Order.runConsumer.careful.step ⟨d, log, fun _ => 0, .handling pos [env] []⟩ .deliver
      ⟨d, log, fun _ => 0, .delivering pos env (Order.handleMessage env) [] []⟩ :=
    ⟨by rintro ⟨⟩, .deliver _ _ _ _ rfl⟩
  have a₅ : Order.runConsumer.careful.step
      ⟨d, log, fun _ => 0, .delivering pos env (Order.handleMessage env) [] []⟩ .transaction
      ⟨d, log, fun _ => 0, .delivering pos env (Order.handleError env e) [] []⟩ :=
    ⟨by rintro ⟨⟩, .exception pos env (Order.handleTx env) (Order.handleError env) [] [] f e rfl rfl
      hrun⟩
  have a₆ : Order.runConsumer.careful.step
      ⟨d, log, fun _ => 0, .delivering pos env (Order.handleError env e) [] []⟩ .finish
      ⟨d, log, fun _ => 0, .handling pos [] []⟩ := ⟨by rintro ⟨⟩, .finish _ _ _ _ _ rfl⟩
  have a₇ : Order.runConsumer.careful.step ⟨d, log, fun _ => 0, .handling pos [] []⟩ .commit
      ⟨d, log, pos, .polling pos⟩ := ⟨by rintro - _ _ ⟨⟩; rfl, .commit _ _ rfl⟩
  have h := ((((((LTS.Trace.refl.snoc a₁).snoc a₂).snoc a₃).snoc a₄).snoc a₅).snoc a₆).snoc a₇
  exact ⟨_, _, _, ⟨rfl, fun _ => rfl⟩, h, rfl, rfl,
    (offsets_committed "").1 _ _ _ ⟨rfl, fun _ => rfl⟩ h⟩

/-- A payment that has succeeded, for an order that is `PENDING`: a transient failure rolls the
transaction back, the offset is committed all the same, and the message is lost. -/
theorem offsets_lost :
    ¬ ∀ s₀ tr (s : Consumer.State Order.db Fresh Empty Order.Reply Envelope Unit),
    Order.runConsumer.lts.init s₀ → Order.runConsumer.lts.Trace s₀ tr s →
    Order.runConsumer.OffsetsSettled tr s := by
  intro hall
  let env : Envelope := ⟨1, .paymentSucceeded, 0, { orderId := some 7 }⟩
  let order : Order.OrderRow := ⟨7, 8, 9, [], 0, .pending, none, none, 0, 0⟩
  let d : Order.Db := ⟨⟨Table.empty.insert order⟩, .empty⟩
  let log : Unit → List Envelope := Function.update (fun _ => []) () [env]
  let pos : Unit → ℕ := Consumer.advanced (fun _ => 0) [()] fun _ => 1
  have a₁ : Order.runConsumer.lts.step ⟨d, fun _ => [], fun _ => 0, .down⟩ .produce
      ⟨d, log, fun _ => 0, .down⟩ := .produce () env
  have a₂ : Order.runConsumer.lts.step ⟨d, log, fun _ => 0, .down⟩ .start
      ⟨d, log, fun _ => 0, .polling fun _ => 0⟩ := .start rfl
  have a₃ : Order.runConsumer.lts.step ⟨d, log, fun _ => 0, .polling fun _ => 0⟩ .poll
      ⟨d, log, fun _ => 0, .handling pos [env] []⟩ :=
    .poll _ [()] (fun _ => 1) rfl (by simp) (by simp [log]) (by simp [log, Consumer.fetched])
  have a₄ : Order.runConsumer.lts.step ⟨d, log, fun _ => 0, .handling pos [env] []⟩ .deliver
      ⟨d, log, fun _ => 0, .delivering pos env (Order.handleMessage env) [] []⟩ :=
    .deliver _ _ _ _ rfl
  have a₅ : Order.runConsumer.lts.step
      ⟨d, log, fun _ => 0, .delivering pos env (Order.handleMessage env) [] []⟩ .failure
      ⟨d, log, fun _ => 0, .handling pos [] [env]⟩ :=
    .failure pos env (Order.handleMessage env) [] [] d rfl (.inl rfl)
  have a₆ : Order.runConsumer.lts.step ⟨d, log, fun _ => 0, .handling pos [] [env]⟩ .commit
      ⟨d, log, pos, .polling pos⟩ := .commit _ _ rfl
  have h := (((((LTS.Trace.refl.snoc a₁).snoc a₂).snoc a₃).snoc a₄).snoc a₅).snoc a₆
  have hsettled := hall _ _ _ ⟨rfl, fun _ => rfl⟩ h () 0 env Nat.zero_lt_one rfl
  obtain he | ⟨x, hx, -, href⟩ := hsettled
  · cases he
  · -- the order is `PENDING` throughout
    have hd : x.1.db = d := by
      simp only [List.nil_append, List.cons_append, List.mem_cons, List.not_mem_nil, or_false] at hx
      rcases hx with rfl | rfl | rfl | rfl | rfl | rfl <;> rfl
    rw [hd] at href
    obtain hty | ⟨o, ho, hs⟩ := href
    · cases hty
    · cases ho
      exact hs rfl

end FoodFlow
