import FoodFlow.Sql.Savepoint
import FoodFlow.Restaurant.Consumers

/-!
# What a handler of the restaurant service depends on

* `Does`, `handleTx_posts` : what a handler that runs alone does to the stock and the reservations
  does not depend on what else is in the outbox and the ledger;
* `reliance` : next to what it locks, a handler relies on the reservation of its own order, on its
  own event in the ledger, and on which items are stocked at all: no other handler changes these;
* `tracked_deductStock` and its like : nothing that a handler does depends on anything else.
-/

namespace FoodFlow

namespace Restaurant

variable {env : Envelope} {f : Fresh} {d d' : Db} {p : Process} {o : UUID} {items : List Item}

/-! ### The handler alone -/

theorem eval_handleTx_processed (he : env.eventId ∈ d.mail.processed) :
    (handleTx env f).eval d [] = .ok (returned env) d [] := by
  simp only [handleTx, Tx.bind_def, Mail.eval_selectProcessed, he, decide_true, if_true]
  rfl

theorem run_handleTx_processed (he : env.eventId ∈ d.mail.processed) :
    (handleTx env f).run d = .ok (returned env, d) := by
  rw [Tx.run, eval_handleTx_processed he]
  rfl

theorem eval_handleTx (he : env.eventId ∉ d.mail.processed) :
    (handleTx env f).eval d [] = (handleBody env f).eval d [] := by
  simp only [handleTx, Tx.bind_def, Mail.eval_selectProcessed, he, decide_false,
    Bool.false_eq_true, if_false]

/-- For an order that was placed, the business logic is a block with a savepoint. -/
structure Block (env : Envelope) (f : Fresh) (o : UUID) (items : List Item)
    (err : Err → Tx db Process) : Prop where
  order : env.payload.orderId = some o
  body : handleBody env f = Tx.nested (reserveStock o items)
    (fun _ => publishAndMark env .stockReserved o env.payload f) err
  short : ∀ e, err (.insufficientStock e) = publishAndMark env .stockRejected o
    { orderId := some o, reason := some e.str } f

/-- The shapes of the business logic. -/
inductive Shape (env : Envelope) (f : Fresh) : Prop
  | refused {e : Err} : handleBody env f = .throw e → Shape env f
  | placed {o : UUID} {items : List Item} {err : Err → Tx db Process} :
      Block env f o items err → Shape env f
  | release {o : UUID} : env.payload.orderId = some o →
      handleBody env f = ((releaseStock o).bind fun _ => markProcessed env) → Shape env f
  | nothing : handleBody env f = .pure (returned env) → Shape env f

theorem shape (env : Envelope) (f : Fresh) : Shape env f := by
  cases ho : env.payload.orderId with
  | none => exact .refused (by rw [handleBody, ho])
  | some o =>
    cases hty : env.eventType with
    | orderPlaced =>
      cases hitems : env.payload.items with
      | none => exact .refused (by rw [handleBody, ho, hty, hitems])
      | some items => exact .placed ⟨ho, by rw [handleBody, ho, hty, hitems], fun _ => rfl⟩
    | stockRelease =>
      exact .release ho (by rw [handleBody, ho, hty]; rfl)
    | paymentSucceeded => exact .nothing (by rw [handleBody, ho, hty]; rfl)
    | paymentFailed => exact .nothing (by rw [handleBody, ho, hty]; rfl)
    | stockReserved => exact .nothing (by rw [handleBody, ho, hty]; rfl)
    | stockRejected => exact .nothing (by rw [handleBody, ho, hty]; rfl)
    | other name => exact .nothing (by rw [handleBody, ho, hty]; rfl)

theorem ownOnly_reserveStock (o : UUID) (items : List Item) :
    Mail.OwnOnly (reserveStock o items) :=
  uses_reserveStock (fun _ => ⟨_, rfl⟩) (fun _ _ => ⟨_, rfl⟩) ⟨_, rfl⟩

theorem ownOnly_releaseStock (o : UUID) : Mail.OwnOnly (releaseStock o) :=
  uses_releaseStock ⟨_, rfl⟩ (fun _ _ => ⟨_, rfl⟩) ⟨_, rfl⟩

/-- What a handler adds to the outbox and to the ledger. -/
structure Posted where
  row : Option OutboxRow
  events : List UUID

/-- The row can be added. -/
def Posted.Fits (x : Posted) (m : Mail) : Prop := ∀ r ∈ x.row, m.outbox.get? r.id = none

/-- Adding it. -/
def Posted.post (x : Posted) (m : Mail) : Mail :=
  ⟨x.row.elim m.outbox m.outbox.insert, x.events ++ m.processed⟩

/-- What a handler posts with its verdict. -/
def verdict (env : Envelope) (ty : EventType) (o : UUID) (payload : Payload) (f : Fresh) :
    Posted :=
  ⟨some (outRow ty o payload f), [env.eventId]⟩

/-- Whatever else is in outbox and ledger, the handler running alone posts `x` and leaves the
tables `t'` of `t`; `seen` says whether its event is in the ledger. -/
def Does (env : Envelope) (f : Fresh) (seen : Prop) (x : Posted) (t t' : Tables) : Prop :=
  ∀ m, (env.eventId ∈ m.processed ↔ seen) → x.Fits m →
    (handleTx env f).run ⟨t, m⟩ = .ok (returned env, ⟨t', x.post m⟩)

variable {t t' : Tables} {m : Mail} {seen : Prop} {ty : EventType} {payload : Payload}

theorem does_of_mark (hs : ¬ seen) (h : ∀ m, (handleBody env f).eval ⟨t, m⟩ [] =
      (markProcessed env).eval ⟨t', m⟩ []) : Does env f seen ⟨none, [env.eventId]⟩ t t' := by
  intro m hm _
  have he : env.eventId ∉ m.processed := fun he => hs (hm.1 he)
  have hmark := eval_markProcessed (d := ⟨t', m⟩) he
  rw [Tx.run, eval_handleTx he, h, hmark]
  rfl

theorem does_of_publish (hs : ¬ seen) (h : ∀ m, (handleBody env f).eval ⟨t, m⟩ [] =
      (publishAndMark env ty o payload f).eval ⟨t', m⟩ []) :
    Does env f seen (verdict env ty o payload f) t t' := by
  intro m hm hrow
  have he : env.eventId ∉ m.processed := fun he => hs (hm.1 he)
  have hpub : (publishAndMark env ty o payload f).eval ⟨t', m⟩ [] = _ :=
    eval_publishAndMark he (hrow _ rfl)
  rw [Tx.run, eval_handleTx he, h, hpub]
  rfl

/-- A shortage does not depend on outbox and ledger. -/
theorem does_of_thrown {err : Err → Tx db Process} {x : Err} (hB : Block env f o items err)
    (hs : ¬ seen) (h : (reserveStock o items).eval ⟨t, m⟩ [] = .thrown x) :
    ∃ payload, err x = publishAndMark env .stockRejected o payload f ∧
      Does env f seen (verdict env .stockRejected o payload f) t t := by
  obtain ⟨⟨y, rfl⟩, -⟩ := reserveStock_thrown h
  refine ⟨_, hB.short y, does_of_publish hs fun m' => ?_⟩
  have hthrown : (reserveStock o items).eval ⟨t, m'⟩ [] = .thrown (.insufficientStock y) := by
    rcases (ownOnly_reserveStock o items).eval t with ⟨a, t', ha⟩ | ⟨x, hx⟩ | ⟨x, hx⟩
    · rw [ha] at h; cases h
    · rw [hx] at h ⊢; exact h
    · rw [hx] at h; cases h
  rw [hB.body, Tx.eval_nested (flat_reserveStock o items), hthrown]
  simp only [hB.short]

/-- Running alone from `d`, the handler posts `x` and leaves `d'`; it would do the same to the
tables whatever else were in outbox and ledger. -/
structure Posts (env : Envelope) (f : Fresh) (d d' : Db) (x : Posted) : Prop where
  fits : x.Fits d.mail
  mail : d'.mail = x.post d.mail
  events : ∀ e ∈ x.events, e = env.eventId
  does : Does env f (env.eventId ∈ d.mail.processed) x d.tables d'.tables

theorem handleTx_posts (h : (handleTx env f).run ⟨t, m⟩ = .ok (p, d')) :
    p = returned env ∧ ∃ x, Posts env f ⟨t, m⟩ d' x := by
  by_cases he : env.eventId ∈ m.processed
  · rw [run_handleTx_processed he] at h
    cases h
    exact ⟨rfl, ⟨none, []⟩, by rintro r ⟨⟩, rfl, by simp, fun m' hm _ =>
      run_handleTx_processed (hm.2 he)⟩
  rw [Tx.run, eval_handleTx he] at h
  -- the body ends with an event and the entry into the ledger, or with the entry alone
  have publish : ∀ {t₁ ty o payload}, (∀ m, (handleBody env f).eval ⟨t, m⟩ [] =
      (publishAndMark env ty o payload f).eval ⟨t₁, m⟩ []) →
      p = returned env ∧ ∃ x, Posts env f ⟨t, m⟩ d' x := by
    intro t₁ ty o payload hbody
    rw [hbody] at h
    obtain ⟨saved, hpub⟩ := Tx.run_eq_ok.1 h
    obtain ⟨hp, -, hrow, rfl⟩ := publishAndMark_ok hpub
    refine ⟨hp, verdict env ty o payload f, ?_, rfl, by simp [verdict], does_of_publish he hbody⟩
    rintro r ⟨⟩
    exact hrow
  have mark : ∀ {t₁}, (∀ m, (handleBody env f).eval ⟨t, m⟩ [] =
      (markProcessed env).eval ⟨t₁, m⟩ []) →
      p = returned env ∧ ∃ x, Posts env f ⟨t, m⟩ d' x := by
    intro t₁ hbody
    rw [hbody] at h
    obtain ⟨saved, hmark⟩ := Tx.run_eq_ok.1 h
    obtain ⟨hp, -, rfl⟩ := markProcessed_ok hmark
    exact ⟨hp, ⟨none, [env.eventId]⟩, by rintro r ⟨⟩, rfl, by simp, does_of_mark he hbody⟩
  cases shape env f with
  | refused hbody => rw [hbody] at h; cases h
  | nothing hbody =>
    rw [hbody] at h
    cases h
    refine ⟨rfl, ⟨none, []⟩, by rintro r ⟨⟩, rfl, by simp, fun m' hm _ => ?_⟩
    rw [Tx.run, eval_handleTx fun he' => he (hm.1 he'), hbody]
    rfl
  | @placed o items err hB =>
    have hbody : ∀ m, (handleBody env f).eval ⟨t, m⟩ [] = _ := fun m => by
      rw [hB.body, Tx.eval_nested (flat_reserveStock o items)]
    rcases (ownOnly_reserveStock o items).eval t with ⟨a, t₁, ha⟩ | ⟨x, hx⟩ | ⟨x, hx⟩
    · exact publish fun m => by rw [hbody, ha]
    · obtain ⟨⟨y, rfl⟩, -⟩ := reserveStock_thrown (hx m [])
      exact publish fun m => by rw [hbody, hx]; simp only [hB.short]; rfl
    · rw [hbody, hx] at h
      cases h
  | @release o _ hb =>
    have hbody : ∀ m, (handleBody env f).eval ⟨t, m⟩ [] = _ := fun m => by
      rw [hb, Tx.eval_bind]
    rcases (ownOnly_releaseStock o).eval t with ⟨a, t₁, ha⟩ | ⟨x, hx⟩ | ⟨x, hx⟩
    · exact mark fun m => by rw [hbody, ha]
    · rw [hbody, hx] at h
      cases h
    · rw [hbody, hx] at h
      cases h

/-! ### What the handler relies on -/

/-- The handler of `env`, owning the locks `ls`, does not tell the two databases apart. -/
structure Agrees (env : Envelope) (ls : List db.Lock) (d d' : Db) : Prop where
  stocked : ∀ i, (d.tables.quantity i).isSome = (d'.tables.quantity i).isSome
  stock : ∀ i, .inl (.stock i) ∈ ls → d.tables.quantity i = d'.tables.quantity i
  reservation : ∀ o, env.payload.orderId = some o →
    d.tables.reservations.get? o = d'.tables.reservations.get? o
  processed : env.eventId ∈ d.mail.processed ↔ env.eventId ∈ d'.mail.processed
  outbox : ∀ id, .inr (.outbox id) ∈ ls →
    (d.mail.outbox.get? id = none ↔ d'.mail.outbox.get? id = none)

/-- The writes of the handler: on rows that it has locked, on the reservation of its order, and
its event. -/
def Owns (env : Envelope) (ls : List db.Lock) : db.Write → Prop
  | .inl (.changeStock i _) => .inl (.stock i) ∈ ls
  | .inl (.addReservation r) => env.payload.orderId = some r.orderId
  | .inl (.delReservation o) => env.payload.orderId = some o
  | .inr (.addProcessed e) => e = env.eventId
  | .inr (.addOutbox r) => .inr (.outbox r.id) ∈ ls

theorem get?_insert_congr {κ ρ : Type} [DecidableEq κ] {key : ρ → κ} {s s' : Table key} {k : κ}
    (r : ρ) (hr : s.get? (key r) = s'.get? (key r)) (h : s.get? k = s'.get? k) :
    (s.insert r).get? k = (s'.insert r).get? k := by
  cases hs : s.get? (key r) with
  | none => rw [Table.get?_insert hs, Table.get?_insert (hr ▸ hs), h]
  | some r' => rw [Table.insert_of_get? hs, Table.insert_of_get? (hr ▸ hs), h]

theorem Agrees.owned {ls : List db.Lock} {w : db.Write} (hw : Owns env ls w)
    (h : Agrees env ls d d') : Agrees env ls (db.apply w d) (db.apply w d') := by
  rcases w with (⟨i, δ⟩ | r | o) | (e | r)
  · refine ⟨fun j => ?_, fun j hj => ?_, h.reservation, h.processed, h.outbox⟩
    · show ((apply (.changeStock i δ) _).quantity j).isSome = ((apply _ _).quantity j).isSome
      rw [quantity_changeStock, quantity_changeStock, Option.isSome_map, Option.isSome_map]
      exact h.stocked j
    · show (apply (.changeStock i δ) _).quantity j = (apply _ _).quantity j
      rw [quantity_changeStock, quantity_changeStock, h.stock j hj]
  · refine ⟨h.stocked, h.stock, fun o ho => ?_, h.processed, h.outbox⟩
    exact get?_insert_congr r (h.reservation _ hw) (h.reservation o ho)
  · refine ⟨h.stocked, h.stock, fun o' ho' => ?_, h.processed, h.outbox⟩
    show (d.tables.reservations.erase o).get? o' = (d'.tables.reservations.erase o).get? o'
    rw [Table.get?_erase, Table.get?_erase, h.reservation o' ho']
  · refine ⟨h.stocked, h.stock, h.reservation, ?_, h.outbox⟩
    show env.eventId ∈ e :: d.mail.processed ↔ env.eventId ∈ e :: d'.mail.processed
    rw [List.mem_cons, List.mem_cons, h.processed]
  · refine ⟨h.stocked, h.stock, h.reservation, h.processed, fun id hid => ?_⟩
    show (d.mail.outbox.insert r).get? id = none ↔ (d'.mail.outbox.insert r).get? id = none
    rw [Table.get?_insert_eq_none, Table.get?_insert_eq_none, h.outbox id hid]

theorem Owns.mono {ls ls' : List db.Lock} {w : db.Write} (hls : ls' ⊆ ls) (h : Owns env ls' w) :
    Owns env ls w := by
  rcases w with (⟨i, δ⟩ | r | o) | (e | r)
  · exact hls h
  · exact h
  · exact h
  · exact h
  · exact hls h

/-- What the handler of `env` relies on. -/
def reliance (env : Envelope) : Reliance db where
  Agree := Agrees env
  Own := Owns env
  refl _ _ := ⟨fun _ => rfl, fun _ _ => rfl, fun _ _ => rfl, Iff.rfl, fun _ _ => Iff.rfl⟩
  trans h h' := ⟨fun i => (h.stocked i).trans (h'.stocked i),
    fun i hi => (h.stock i hi).trans (h'.stock i hi),
    fun o ho => (h.reservation o ho).trans (h'.reservation o ho),
    h.processed.trans h'.processed, fun id hid => (h.outbox id hid).trans (h'.outbox id hid)⟩
  mono hls h := ⟨h.stocked, fun i hi => h.stock i (hls hi), h.reservation, h.processed,
    fun id hid => h.outbox id (hls hid)⟩
  own_mono := Owns.mono
  apply := Agrees.owned

/-- Envelopes with different event ids, and not about the same order. -/
def Unrelated (env env' : Envelope) : Prop :=
  env.eventId ≠ env'.eventId ∧ ∀ o, env.payload.orderId = some o → env'.payload.orderId ≠ some o

/-- What one handler writes, another that owns none of its locks does not see. -/
theorem agrees_apply {env' : Envelope} {ls ls' : List db.Lock} {w : db.Write}
    (hu : Unrelated env env') (hls : ls.Disjoint ls') (hw : Owns env' ls' w) (d : Db) :
    Agrees env ls d (db.apply w d) := by
  rcases w with (⟨i, δ⟩ | r | o') | (e | r)
  · refine ⟨fun j => ?_, fun j hj => ?_, fun _ _ => rfl, Iff.rfl, fun _ _ => Iff.rfl⟩
    · show _ = ((Restaurant.apply (.changeStock i δ) _).quantity j).isSome
      rw [quantity_changeStock, Option.isSome_map]
    · have hne : i ≠ j := by
        rintro rfl
        exact hls hj hw
      show _ = (Restaurant.apply (.changeStock i δ) _).quantity j
      simp [quantity_changeStock, hne]
  · refine ⟨fun _ => rfl, fun _ _ => rfl, fun o ho => ?_, Iff.rfl, fun _ _ => Iff.rfl⟩
    have hne : r.orderId ≠ o := by
      rintro rfl
      exact hu.2 _ ho hw
    show _ = (d.tables.reservations.insert r).get? o
    cases hr : d.tables.reservations.get? r.orderId with
    | none => rw [Table.get?_insert hr, if_neg hne]
    | some r' => rw [Table.insert_of_get? hr]
  · refine ⟨fun _ => rfl, fun _ _ => rfl, fun o ho => ?_, Iff.rfl, fun _ _ => Iff.rfl⟩
    have hne : o' ≠ o := by
      rintro rfl
      exact hu.2 _ ho hw
    show _ = (d.tables.reservations.erase o').get? o
    rw [Table.get?_erase, if_neg hne]
  · refine ⟨fun _ => rfl, fun _ _ => rfl, fun _ _ => rfl, ?_, fun _ _ => Iff.rfl⟩
    have hne : env.eventId ≠ e := fun he => hu.1 (he.trans hw)
    show _ ↔ env.eventId ∈ e :: d.mail.processed
    rw [List.mem_cons, or_iff_right hne]
  · refine ⟨fun _ => rfl, fun _ _ => rfl, fun _ _ => rfl, Iff.rfl, fun id hid => ?_⟩
    have hne : r.id ≠ id := by
      rintro rfl
      exact hls hid hw
    show _ ↔ (d.mail.outbox.insert r).get? id = none
    rw [Table.get?_insert_eq_none, and_iff_left hne]

/-! ### Its statements -/

theorem tracked_own {q : Stmt}
    (hexec : ∀ d d', Agrees env ((needs q d.tables).map .inl) d d' →
      exec q d'.tables = exec q d.tables)
    (hown : ∀ t r ws, exec q t = .ok (r, ws) → ∀ w ∈ ws,
      Owns env ((needs q t).map .inl) (.inl w)) : (reliance env).Tracked (.inl q) where
  exec {d d'} h := by simp only [hexec d d' h]
  own {d r ws} h w hw := by
    cases hx : exec q d.tables with
    | error e => simp only [hx] at h; cases h
    | ok v =>
      simp only [hx] at h
      cases h
      obtain ⟨w', hw', rfl⟩ := List.mem_map.1 hw
      exact hown _ _ _ hx w' hw'

/-- A row that is locked if it is there. -/
theorem Agrees.quantity {i : UUID} (h : Agrees env
    ((if (d.tables.quantity i).isSome then [Lock.stock i] else []).map .inl) d d') :
    d'.tables.quantity i = d.tables.quantity i := by
  cases hq : d.tables.quantity i with
  | none =>
    have := h.stocked i
    rw [hq] at this
    exact Option.isSome_eq_false_iff.1 this.symm |> Option.isNone_iff_eq_none.1
  | some q =>
    rw [← h.stock i (by simp [hq]), hq]

theorem mem_changeStock {i : UUID} {δ : ℤ} {ws : List Write}
    (h : changeStock t i δ = .ok ws) {w : Write} (hw : w ∈ ws) :
    w = .changeStock i δ ∧ (t.quantity i).isSome := by
  unfold changeStock at h
  split at h
  · cases h
    cases hw
  · rename_i q hq
    split_ifs at h
    cases h
    exact ⟨List.mem_singleton.1 hw, by rw [hq]; rfl⟩

theorem tracked_selectStockForUpdate (i : UUID) :
    (reliance env).Tracked (.inl (.selectStockForUpdate i)) := by
  refine tracked_own (fun d d' h => ?_) fun t r ws h w hw => ?_
  · simp only [exec, Agrees.quantity h]
  · cases h
    cases hw

/-- The writes of an `UPDATE` of the stock are on the row that it locks. -/
theorem owns_changeStock {i : UUID} {δ : ℤ} {r : Unit} {ws : List Write}
    (h : (changeStock t i δ).map (fun ws => ((), ws)) = .ok (r, ws)) : ∀ w ∈ ws, Owns env
      ((if (t.quantity i).isSome then [Lock.stock i] else []).map .inl) (.inl w) := by
  intro w hw
  cases hc : changeStock t i δ with
  | error e => rw [hc] at h; cases h
  | ok ws' =>
    rw [hc] at h
    cases h
    obtain ⟨rfl, hi⟩ := mem_changeStock hc hw
    simp [Owns, hi]

theorem tracked_deductStock (qty : ℤ) (i : UUID) :
    (reliance env).Tracked (.inl (.deductStock qty i)) := by
  refine tracked_own (fun d d' h => ?_) fun t r ws h => ?_
  · simp only [exec, changeStock, Agrees.quantity h]
  · simp only [exec] at h
    split_ifs at h
    exact owns_changeStock h

theorem tracked_addStock (qty : ℤ) (i : UUID) :
    (reliance env).Tracked (.inl (.addStock qty i)) := by
  refine tracked_own (fun d d' h => ?_) fun t r ws h => ?_
  · simp only [exec, changeStock, Agrees.quantity h]
  · simp only [exec] at h
    split_ifs at h
    exact owns_changeStock h

theorem tracked_insertReservation (ho : env.payload.orderId = some o) (items : List Item) :
    (reliance env).Tracked (.inl (.insertReservation ⟨o, items⟩)) := by
  refine tracked_own (fun d d' h => ?_) fun t r ws h w hw => ?_
  · simp only [exec, h.reservation o ho]
  · simp only [exec] at h
    split_ifs at h
    cases h
    obtain rfl := List.mem_singleton.1 hw
    exact ho

theorem tracked_selectReservation (ho : env.payload.orderId = some o) :
    (reliance env).Tracked (.inl (.selectReservation o)) := by
  refine tracked_own (fun d d' h => ?_) fun t r ws h w hw => ?_
  · simp only [exec, h.reservation o ho]
  · cases h
    cases hw

theorem tracked_deleteReservation (ho : env.payload.orderId = some o) :
    (reliance env).Tracked (.inl (.deleteReservation o)) := by
  refine tracked_own (fun d d' _ => rfl) fun t r ws h w hw => ?_
  cases h
  obtain rfl := List.mem_singleton.1 hw
  exact ho

theorem tracked_insertProcessed :
    (reliance env).Tracked (.inr (.insertProcessed env.eventId)) where
  exec {d d'} h := by simp only [Mail.exec, h.processed]
  own {d r ws} h w hw := by
    simp only [Mail.exec] at h
    split_ifs at h
    cases h
    obtain rfl := List.mem_singleton.1 hw
    rfl

theorem tracked_insertOutbox (r : OutboxRow) :
    (reliance env).Tracked (.inr (.insertOutbox r)) where
  exec {d d'} h := by
    have hr := h.outbox r.id (List.mem_singleton_self _)
    simp only [Mail.exec, Option.isSome_iff_ne_none, ne_eq, hr]
  own {d r ws} h w hw := by
    simp only [Mail.exec] at h
    split_ifs at h
    cases h
    obtain rfl := List.mem_singleton.1 hw
    exact List.mem_singleton_self _

/-! ### Its programs -/

theorem tracked_reserveStock (ho : env.payload.orderId = some o) (items : List Item) :
    (reserveStock o items).Uses (reliance env).Tracked :=
  uses_reserveStock tracked_selectStockForUpdate tracked_deductStock
    (tracked_insertReservation ho items)

theorem tracked_markProcessed : (markProcessed env).Uses (reliance env).Tracked :=
  (Tx.uses_exec tracked_insertProcessed).bind fun _ => trivial

theorem tracked_publishAndMark :
    (publishAndMark env ty o payload f).Uses (reliance env).Tracked :=
  (Tx.uses_exec (tracked_insertOutbox _)).bind fun _ => tracked_markProcessed

/-- Whatever is not a block with a savepoint. -/
theorem tracked_or_block (env : Envelope) (f : Fresh) :
    (handleBody env f).Uses (reliance env).Tracked ∨ ∃ o items err, Block env f o items err := by
  cases shape env f with
  | refused h => rw [h]; exact .inl trivial
  | placed h => exact .inr ⟨_, _, _, h⟩
  | release ho h =>
    rw [h]
    have hrelease : (releaseStock _).Uses (reliance env).Tracked := uses_releaseStock
      (tracked_selectReservation ho) tracked_addStock (tracked_deleteReservation ho)
    exact .inl (hrelease.bind fun _ => tracked_markProcessed)
  | nothing h => rw [h]; exact .inl trivial

end Restaurant

end FoodFlow
