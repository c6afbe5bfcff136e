import FoodFlow.Saga.Fidelity

/-!
# Reservations and payments

What the payment service can rely on when a `stock.reserved` event comes to it: there is one such
event for each order whose stock was reserved, its directive can be stored, and it has been handled
where the order has its payment.

* `Recorded.step` : every step keeps this;
* `run_recorded` : it holds in every run.
-/

namespace FoodFlow

namespace Saga

/-- What is known of the `stock.reserved` events. -/
structure Recorded (s : Stores) : Prop where
  directive : ∀ topic o e, s.Event topic o e → topic = .orderPlaced ∨ topic = .stockReserved →
    (varchar? 20 e.payload.paymentSimulate).isSome
  unique : ∀ o e e', s.Event .stockReserved o e → s.Event .stockReserved o e' → e = e'
  handled : ∀ o e, s.HasPayment o → s.Event .stockReserved o e → s.Handled .payment e

variable {dflt : String} {t₀ : Restaurant.Tables} {s s' : Stores} {o : UUID} {e env : Envelope}
  {i : Service} {f : Fresh}

/-- The directive that goes with the event can be stored when that of the order can. -/
theorem varchar?_truthy {x : Option String} (h : (varchar? 20 x).isSome) :
    (varchar? 20 (Order.truthy x)).isSome := by
  cases x with
  | none => rfl
  | some v =>
    by_cases hv : v = ""
    · subst hv
      rfl
    · rwa [Order.truthy_some hv]

/-! ### The ledgers -/

theorem handled_order {d' : Order.Db}
    (hsub : ∀ id ∈ s.order.mail.processed, id ∈ d'.mail.processed) (h : s.Handled i e) :
    ({ s with order := d' } : Stores).Handled i e := by
  cases i with
  | order => exact hsub _ h
  | restaurant => exact h
  | payment => exact h

theorem handled_restaurant {d' : Restaurant.Db}
    (hsub : ∀ id ∈ s.restaurant.mail.processed, id ∈ d'.mail.processed) (h : s.Handled i e) :
    ({ s with restaurant := d' } : Stores).Handled i e := by
  cases i with
  | order => exact h
  | restaurant => exact hsub _ h
  | payment => exact h

theorem handled_payment {d' : Payment.Db}
    (hsub : ∀ id ∈ s.payment.mail.processed, id ∈ d'.mail.processed) (h : s.Handled i e) :
    ({ s with payment := d' } : Stores).Handled i e := by
  cases i with
  | order => exact h
  | restaurant => exact h
  | payment => exact hsub _ h

/-- What has been handled stays so. -/
theorem Commits.handled (hc : Commits dflt s s') (h : s.Handled i e) : s'.Handled i e := by
  cases hc with
  | same => exact h
  | place _ hrun => exact handled_order (fun _ hid => Mail.mem_processed_run hrun hid) h
  | order _ _ he =>
    refine handled_order (fun id hid => ?_) h
    cases he with
    | duplicate _ => exact hid
    | unknown _ => exact hid
    | transition o target _ _ _ _ hr => exact ((adds_transitioned hr).processed _).2 (.inl hid)
  | restaurant _ _ he =>
    refine handled_restaurant (fun id hid => ?_) h
    cases he with
    | duplicate _ => exact hid
    | unknown _ _ => exact hid
    | reserved _ _ _ _ _ _ => exact List.mem_cons_of_mem _ hid
    | rejected _ _ _ _ _ _ => exact List.mem_cons_of_mem _ hid
    | released _ _ _ _ => exact List.mem_cons_of_mem _ hid
    | notFound _ _ _ _ => exact List.mem_cons_of_mem _ hid
  | restart =>
    refine handled_restaurant (fun id hid => ?_) h
    rwa [Restaurant.mail_migrate]
  | payment _ he =>
    refine handled_payment (fun id hid => ?_) h
    cases he with
    | unchanged => exact hid
    | intent _ _ _ _ _ _ _ _ => exact List.mem_cons_of_mem _ hid
    | outcome _ _ _ => exact hid
    | settled _ _ _ _ => exact hid
  | relay hrel _ _ _ =>
    have hprocessed : (s'.mail i).processed = (s.mail i).processed := (hrel.marked i).processed
    rwa [Stores.Handled, hprocessed]

/-! ### The `stock.reserved` events -/

/-- Such an event is in the outbox of the restaurant service. -/
theorem event_of_mail (hsound : s'.post.Sound Service.produces)
    (hout : s'.restaurant.mail.outbox = s.restaurant.mail.outbox)
    (he : s'.Event .stockReserved o e) : s.Event .stockReserved o e := by
  have ht : .stockReserved ∈ Service.restaurant.produces := by decide
  obtain ⟨x, hx, hxe⟩ := row_of_event hsound ht he
  refine ⟨.restaurant, x, ?_, hxe⟩
  change x ∈ s.restaurant.mail.outbox.rows
  rw [← hout]
  exact hx

theorem hasPayment_restaurant (d' : Restaurant.Db) :
    ({ s with restaurant := d' } : Stores).HasPayment o ↔ s.HasPayment o := Iff.rfl

/-- The event is an old one, or the only one about its order. -/
theorem Consistent.reserved_cases (h : Consistent dflt t₀ s)
    (hsound : s'.post.Sound Service.produces) (hc : Commits dflt s s')
    (he : s'.Event .stockReserved o e) : s.Event .stockReserved o e ∨
      (∀ e', ¬ s.Event .stockReserved o e') ∧ s'.payment = s.payment ∧
        ∀ e', s'.Event .stockReserved o e' → e' = e := by
  cases hc with
  | same => exact .inl he
  | place _ _ => exact .inl (event_of_mail hsound rfl he)
  | order _ _ _ => exact .inl (event_of_mail hsound rfl he)
  | payment _ _ => exact .inl (event_of_mail hsound rfl he)
  | restart =>
    have hmail := Restaurant.mail_migrate s.restaurant
    exact .inl (event_of_mail hsound (congrArg Mail.outbox hmail) he)
  | relay hrel _ _ _ => exact .inl (hrel.event.1 he)
  | @restaurant env f d' hd _ heff =>
    cases heff with
    | duplicate _ => exact .inl he
    | unknown _ _ => exact .inl he
    | released _ _ _ _ => exact .inl (event_of_mail hsound rfl he)
    | notFound _ _ _ _ => exact .inl (event_of_mail hsound rfl he)
    | @rejected o₁ items reason _ _ _ _ _ hout =>
      have hw := writes_restaurant (s := s) ⟨s.restaurant.tables, _⟩
        ((Mail.adds_addOutbox (x := Restaurant.outRow .stockRejected o₁
          { orderId := some o₁, reason := some reason } f) hout).addProcessed env.eventId)
      rcases hw.event.1 he with he | ⟨x, hx, hxt, -⟩
      · exact .inl he
      · obtain rfl := Option.some.inj hx
        cases hxt
    | @reserved o₁ items t hty ho₁ _ hn _ hout =>
      obtain ⟨topic, -, o', hev, rfl, ho⟩ := hd.event h.post
      obtain rfl := Option.some.inj (ho.symm.trans ho₁)
      rw [hty] at hev
      have hw := writes_restaurant (s := s) ⟨t, _⟩
        ((Mail.adds_addOutbox (x := Restaurant.outRow .stockReserved o' env.payload f)
          hout).addProcessed env.eventId)
      rcases hw.event.1 he with he | ⟨x, hx, -, rfl, rfl⟩
      · exact .inl he
      · -- the order had not been touched before
        obtain rfl := Option.some.inj hx
        obtain ⟨g, hg⟩ := h.stage o'
        obtain ⟨rfl, -⟩ := h.untouched hg hev hn
        have hnone : ∀ e', ¬ s.Event .stockReserved o' e' := fun e' he' => by
          simpa using hg.reserved.1 ⟨e', he'⟩
        refine .inr ⟨hnone, rfl, fun e' he' => ?_⟩
        rcases hw.event.1 he' with he' | ⟨y, hy, -, -, rfl⟩
        · exact absurd he' (hnone e')
        · obtain rfl := Option.some.inj hy
          rfl

/-- A payment is an old one, or has been recorded on an event that is then in the ledger. -/
theorem hasPayment_of_commits (hsound : s.post.Sound Service.produces) (hc : Commits dflt s s')
    (hp : s'.HasPayment o) : s.HasPayment o ∨
      ∃ env, s.Event .stockReserved o env ∧ s'.Handled .payment env := by
  cases hc with
  | same => exact .inl hp
  | place _ _ => exact .inl hp
  | order _ _ _ => exact .inl hp
  | restaurant _ _ _ => exact .inl ((hasPayment_restaurant _).1 hp)
  | restart => exact .inl ((hasPayment_restaurant _).1 hp)
  | relay _ _ _ hpay => exact .inl (by rwa [Stores.HasPayment, hpay] at hp)
  | payment _ heff =>
    cases heff with
    | unchanged => exact .inl hp
    | outcome _ _ _ => exact .inl (hasPayment_resolved.1 hp)
    | settled _ _ _ _ => exact .inl (hasPayment_resolved.1 hp)
    | @intent env o' amount cents directive hd _ ho _ _ _ _ hnone =>
      obtain ⟨topic, ht, o₁, hev, rfl, ho₁⟩ := hd.event hsound
      obtain rfl := Option.some.inj (ho.symm.trans ho₁)
      have ht : env.eventType = .stockReserved := List.mem_singleton.1 ht
      change ((s.payment.tables.payments.insert _).get? o).isSome at hp
      rw [Table.get?_insert hnone] at hp
      split_ifs at hp with heq
      · obtain rfl : o' = o := heq
        exact .inr ⟨env, ht ▸ hev, List.mem_cons_self⟩
      · exact .inl hp

/-! ### Every run -/

/-- **Every step keeps what is known of the events.** -/
theorem Recorded.step (hr : Recorded s) (h : Consistent dflt t₀ s)
    (hsound : s'.post.Sound Service.produces) (hc : Commits dflt s s') : Recorded s' where
  directive topic o e he ht := by
    rcases event_of_commits h.post hc he with he | hw
    · exact hr.directive topic o e he ht
    · cases hw with
      | placed hrow _ hpay =>
        obtain ⟨-, -, -, -, -, -, hdirective, -⟩ := Order.row?_eq_ok hrow
        rw [hpay]
        exact varchar?_truthy (Option.isSome_of_eq_some hdirective)
      | reserved hev hpay => exact hpay ▸ hr.directive _ o _ hev (.inl rfl)
      | release => simp at ht
      | rejected _ _ _ _ => simp at ht
      | outcome success => cases success <;> simp [Payment.topicOf] at ht
  unique o e e' he he' := by
    rcases h.reserved_cases hsound hc he with hold | ⟨-, -, hone⟩
    · rcases h.reserved_cases hsound hc he' with hold' | ⟨-, -, hone⟩
      · exact hr.unique o e e' hold hold'
      · exact hone e he
    · exact (hone e' he').symm
  handled o e hp he := by
    rcases h.reserved_cases hsound hc he with hold | ⟨hnone, hpay, -⟩
    · rcases hasPayment_of_commits h.post hc hp with hp | ⟨env, henv, hh⟩
      · exact hc.handled (hr.handled o e hp hold)
      · exact hr.unique o env e henv hold ▸ hh
    · -- without such an event there was no payment
      rw [Stores.HasPayment, hpay] at hp
      obtain ⟨e', he'⟩ := h.paid o hp
      exact absurd he' (hnone e')

/-- **In every run there is one `stock.reserved` event for each order reserved, and it is in the
ledger of the payment service just when the order has its payment.** -/
theorem run_recorded (ht₀ : Restaurant.Migrated ⟨t₀, .empty⟩) {n : State} {ls : List Label}
    (hr : (system dflt).Run (.start t₀) ls n) : Recorded n.stores := by
  refine (run_invariant (fun s => Consistent dflt t₀ s ∧ Recorded s)
    ⟨consistent_start ht₀, ?_⟩ (fun s s' h hc => ?_) hr).1.2
  · constructor
    · rintro topic o e ⟨i, x, hx, -⟩
      cases i <;> cases hx
    · rintro o e e' ⟨i, x, hx, -⟩
      cases i <;> cases hx
    · rintro o e - ⟨i, x, hx, -⟩
      cases i <;> cases hx
  · have h' := h.1.step ht₀.seededTables hc
    exact ⟨h', h.2.step h.1 h'.post hc⟩

end Saga

end FoodFlow
