import FoodFlow.Restaurant.Ranges
import FoodFlow.Restaurant.Isolation

/-!
# Releases of one order

`stock.release` handlers of one order, interleaved statement by statement.  The reservation is read
without a lock, so that several of them may find it; each of these adds the quantities back and
deletes the reservation, whether it is still there or not.

* `ReleaseStage` : how far such a handler has got;
* `InTime` : the handlers that have added the quantities back enter their events only while the
  reservation is there, or when their events have been entered before;
* `released_once` : when they do, the order is released once;
* `released_twice` : two handlers that overlap, and add the quantities back twice.
-/

namespace FoodFlow

namespace Restaurant

variable {env : Envelope} {f : Fresh} {o : UUID} {items : List Item} {d d₀ : Db}

/-- The message asks for the release of the order `o`. -/
def IsRelease (o : UUID) (env : Envelope) : Prop :=
  env.eventType = .stockRelease ∧ env.payload.orderId = some o

/-- Any number of handlers of such messages. -/
def releasing (o : UUID) : World.Rules db Fresh Empty Handled where
  start p := ∃ env, IsRelease o env ∧ p = handleMessage env
  kill := False

/-! ### The handler -/

/-- The loop of `release_stock`, and what follows it. -/
def adding (env : Envelope) (o : UUID) (items : List Item) : Tx db Process :=
  ((addItems items).bind fun _ => deleteReservation o).bind fun _ => markProcessed env

/-- `release_stock`, and what follows it. -/
def releasingTx (env : Envelope) (o : UUID) : Tx db Process :=
  (releaseStock o).bind fun _ => markProcessed env

theorem handleBody_release (h : IsRelease o env) : handleBody env f = releasingTx env o := by
  rw [handleBody, h.2, h.1]
  rfl

theorem handleTx_eq (env : Envelope) (f : Fresh) : handleTx env f =
    .stmt (.inr (.selectProcessed env.eventId)) fun existing : Bool =>
      if existing then .pure (returned env) else handleBody env f := rfl

theorem releasingTx_eq (env : Envelope) (o : UUID) : releasingTx env o =
    .stmt (.inl (.selectReservation o)) fun row =>
      match row with
      | none => markProcessed env
      | some items => adding env o items := by
  show Tx.stmt _ _ = Tx.stmt _ _
  congr 1
  funext row
  cases row <;> rfl

theorem adding_nil (env : Envelope) (o : UUID) : adding env o [] =
    .stmt (.inl (.deleteReservation o)) fun _ => markProcessed env := rfl

theorem adding_cons (env : Envelope) (o : UUID) (item : Item) (items : List Item) :
    adding env o (item :: items) =
      .stmt (.inl (.addStock item.quantity item.itemId)) fun _ => adding env o items := rfl

theorem markProcessed_eq (env : Envelope) : markProcessed env =
    .stmt (.inr (.insertProcessed env.eventId)) fun _ => .pure (returned env) := rfl

/-! ### What a handler has written -/

theorem mail_applyAll {ws : List db.Write} (h : ∀ w ∈ ws, ∃ w', w = .inl w') (d : Db) :
    (db.applyAll ws d).mail = d.mail := by
  induction ws generalizing d with
  | nil => rfl
  | cons w ws ih =>
    obtain ⟨w', rfl⟩ := h w List.mem_cons_self
    exact ih (fun w hw => h w (List.mem_cons_of_mem _ hw)) _

theorem tables_applyAll {ws : List db.Write} (h : ∀ w ∈ ws, ∃ w', w = .inr w') (d : Db) :
    (db.applyAll ws d).tables = d.tables := by
  induction ws generalizing d with
  | nil => rfl
  | cons w ws ih =>
    obtain ⟨w', rfl⟩ := h w List.mem_cons_self
    exact ih (fun w hw => h w (List.mem_cons_of_mem _ hw)) _

theorem reservations_applyAll {ws : List db.Write}
    (h : ∀ w ∈ ws, ∃ i δ, w = .inl (.changeStock i δ)) (d : Db) :
    (db.applyAll ws d).tables.reservations = d.tables.reservations := by
  induction ws generalizing d with
  | nil => rfl
  | cons w ws ih =>
    obtain ⟨i, δ, rfl⟩ := h w List.mem_cons_self
    exact ih (fun w hw => h w (List.mem_cons_of_mem _ hw)) _

theorem writes_addStock {qty : ℤ} {i : UUID} {r : Unit} {ws : List db.Write}
    (h : db.exec (.inl (.addStock qty i)) d = .ok (r, ws)) :
    ∀ w ∈ ws, ∃ i δ, w = .inl (.changeStock i δ) := by
  simp only [exec, changeStock] at h
  split_ifs at h
  · cases h
  · split at h
    · cases h
      exact fun w hw => by cases hw
    · split_ifs at h
      · cases h
      · cases h
      · cases h
        exact fun w hw => ⟨_, _, List.mem_singleton.1 hw⟩

theorem writes_mail {q : Mail.Stmt} {r : q.Res} {ws : List db.Write}
    (h : db.exec (.inr q) d = .ok (r, ws)) : ∀ w ∈ ws, ∃ w', w = .inr w' := by
  cases hx : Mail.exec q d.mail with
  | error e => simp only [hx] at h; cases h
  | ok p =>
    simp only [hx] at h
    cases h
    intro w hw
    obtain ⟨w', -, rfl⟩ := List.mem_map.1 hw
    exact ⟨w', rfl⟩

/-- How far the handler of a release has got before it commits. -/
inductive ReleaseStage (env : Envelope) (o : UUID) (c : Session db Process) : Prop
  | opening {f : Fresh} : c.prog = handleTx env f → c.writes = [] → ReleaseStage env o c
  | looking : c.prog = releasingTx env o → c.writes = [] → ReleaseStage env o c
  /-- It has found the reservation. -/
  | adding {items : List Item} : c.prog = adding env o items →
      (∀ w ∈ c.writes, ∃ i δ, w = .inl (.changeStock i δ)) → ReleaseStage env o c
  /-- It has deleted the reservation. -/
  | marking : c.prog = markProcessed env → .inl (.delReservation o) ∈ c.writes →
      (∀ w ∈ c.writes, ∃ w', w = .inl w') → ReleaseStage env o c
  /-- It has found the event in the ledger, or no reservation. -/
  | leaving : c.prog = markProcessed env ∨ c.prog = .pure (returned env) →
      (∀ w ∈ c.writes, ∃ w', w = .inr w') → ReleaseStage env o c

/-- It has deleted the reservation and entered its event. -/
structure Marked (env : Envelope) (o : UUID) (c : Session db Process) : Prop where
  prog : c.prog = .pure (returned env)
  held : .inl (.reservation o) ∈ c.held

/-- A handler that has deleted the reservation owns it. -/
def OwnsDeleted (o : UUID) (c : Session db Process) : Prop :=
  .inl (.delReservation o) ∈ c.writes → .inl (.reservation o) ∈ c.held

/-- A handler that has added the quantities back and deleted the reservation enters its event only
while the reservation is still there in the committed tables, or when the event has been entered
by another one. -/
def InTime (o : UUID) (d : Db) (c : Session db Process) : Prop :=
  ∀ e k, c.prog = .stmt (.inr (.insertProcessed e)) k → .inl (.delReservation o) ∈ c.writes →
    e ∈ d.mail.processed ∨ (d.tables.reservations.get? o).isSome

variable {c c' : Session db Process}

/-- **A step of a handler** leads to the next stage, or enters the event of one that has deleted
the reservation. -/
theorem ReleaseStage.go (h : ReleaseStage env o c) (hrel : IsRelease o env)
    (hn : c.next d = .go c') :
    (ReleaseStage env o c' ∧
      ((d.tables.reservations.get? o).isSome → OwnsDeleted o c → OwnsDeleted o c')) ∨
      (c.prog = markProcessed env ∧ .inl (.delReservation o) ∈ c.writes ∧
        env.eventId ∉ d.mail.processed ∧ c'.prog = .pure (returned env) ∧ c.held ⊆ c'.held) := by
  -- a handler that has not deleted the reservation
  have undeleted : ∀ {ws : List db.Write}, (∀ w ∈ ws, ∃ i δ, w = .inl (.changeStock i δ)) →
      (.inl (.delReservation o) : db.Write) ∉ ws := fun hws hdel => by
    obtain ⟨i, δ, h⟩ := hws _ hdel
    cases h
  cases h with
  | @opening f hp hw =>
    rw [handleTx_eq] at hp
    obtain ⟨r, ws, hx, hprog, hwrites, -⟩ := Session.go_of_stmt hp hn
    cases hx
    rw [hw] at hwrites
    refine .inl ⟨?_, fun _ _ hdel => absurd (hwrites ▸ hdel) List.not_mem_nil⟩
    split_ifs at hprog
    · exact .leaving (.inr hprog) (by simp [hwrites])
    · exact .looking (hprog.trans (handleBody_release hrel)) hwrites
  | looking hp hw =>
    rw [releasingTx_eq] at hp
    obtain ⟨r, ws, hx, hprog, hwrites, -⟩ := Session.go_of_stmt hp hn
    cases hx
    rw [hw] at hwrites
    refine .inl ⟨?_, fun _ _ hdel => absurd (hwrites ▸ hdel) List.not_mem_nil⟩
    cases hr : (c.view d).tables.reservations.get? o with
    | none =>
      rw [hr] at hprog
      exact .leaving (.inl hprog) (by simp [hwrites])
    | some res =>
      rw [hr] at hprog
      exact .adding hprog (by simp [hwrites])
  | @adding items hp hw =>
    cases items with
    | nil =>
      rw [adding_nil] at hp
      obtain ⟨r, ws, hx, hprog, hwrites, hheld⟩ := Session.go_of_stmt hp hn
      cases hx
      refine .inl ⟨.marking hprog (by simp [hwrites]) fun w hm => ?_, fun hres _ _ => ?_⟩
      · rw [hwrites] at hm
        rcases List.mem_append.1 hm with hm | hm
        · obtain ⟨i, δ, rfl⟩ := hw w hm
          exact ⟨_, rfl⟩
        · exact ⟨_, List.mem_singleton.1 hm⟩
      · -- the `DELETE` locks the row it finds
        rw [hheld]
        refine List.mem_append_right _ ?_
        have hview : (c.view d).tables.reservations = d.tables.reservations :=
          reservations_applyAll hw d
        show _ ∈ (needs (.deleteReservation o) (c.view d).tables).map Sum.inl
        rw [needs, hview, if_pos hres]
        exact List.mem_singleton_self _
    | cons item items =>
      rw [adding_cons] at hp
      obtain ⟨r, ws, hx, hprog, hwrites, -⟩ := Session.go_of_stmt hp hn
      have hws : ∀ w ∈ c'.writes, ∃ i δ, w = .inl (.changeStock i δ) := fun w hm => by
        rw [hwrites] at hm
        exact (List.mem_append.1 hm).elim (hw w) (writes_addStock hx w)
      exact .inl ⟨.adding hprog hws, fun _ _ hdel => absurd hdel (undeleted hws)⟩
  | marking hp hdel hw =>
    have hp' := hp
    rw [markProcessed_eq] at hp'
    obtain ⟨r, ws, hx, hprog, hwrites, hheld⟩ := Session.go_of_stmt hp' hn
    have hmail : (c.view d).mail = d.mail := mail_applyAll hw d
    have hnew : env.eventId ∉ d.mail.processed := by
      intro he
      simp only [Mail.exec, hmail, if_pos he] at hx
      cases hx
    exact .inr ⟨hp, hdel, hnew, hprog, hheld ▸ List.subset_append_left _ _⟩
  | leaving hp hw =>
    rcases hp with hp | hp
    · rw [markProcessed_eq] at hp
      obtain ⟨r, ws, hx, hprog, hwrites, -⟩ := Session.go_of_stmt hp hn
      have hws : ∀ w ∈ c'.writes, ∃ w', w = .inr w' := fun w hm => by
        rw [hwrites] at hm
        exact (List.mem_append.1 hm).elim (hw w) (writes_mail hx w)
      refine .inl ⟨.leaving (.inr hprog) hws, fun _ _ hdel => ?_⟩
      obtain ⟨w', h⟩ := hws _ hdel
      cases h
    · rw [Session.next, hp] at hn
      cases hn

/-- A handler that commits without having deleted the reservation leaves the tables alone. -/
theorem ReleaseStage.commit (h : ReleaseStage env o c) {p : Process} (hn : c.next d = .commit p) :
    p = returned env ∧ (c.view d).tables = d.tables := by
  have hp := Session.prog_of_commit hn
  cases h with
  | opening hp' _ => rw [handleTx_eq, hp] at hp'; cases hp'
  | looking hp' _ => rw [releasingTx_eq, hp] at hp'; cases hp'
  | @adding items hp' _ =>
    cases items with
    | nil => rw [adding_nil, hp] at hp'; cases hp'
    | cons item items => rw [adding_cons, hp] at hp'; cases hp'
  | marking hp' _ _ => rw [markProcessed_eq, hp] at hp'; cases hp'
  | leaving hp' hw =>
    refine ⟨?_, tables_applyAll hw d⟩
    rcases hp' with hp' | hp'
    · rw [markProcessed_eq, hp] at hp'
      cases hp'
    · rw [hp] at hp'
      exact Tx.pure.inj hp'

/-! ### Every run -/

theorem Releases.ne (h : Releases o items d₀.tables d.tables) : d ≠ d₀ := by
  rintro rfl
  have hnone : d.tables.reservations.get? o = none := by
    rw [h.reservations, Table.get?_erase, if_pos rfl]
  rw [h.reserved] at hnone
  cases hnone

/-- A handler inside its transaction: the order has not been released, and the handler would give
what it gives alone, or the order has been released. -/
def Running (o : UUID) (items : List Item) (d₀ d : Db) (c : Session db Process)
    (e : Err → Process) : Prop :=
  ∃ env f, IsRelease o env ∧ e = handleError env ∧
    ((d = d₀ ∧ c.result d₀ = (handleTx env f).run d₀ ∧
      ((ReleaseStage env o c ∧ OwnsDeleted o c) ∨ Marked env o c)) ∨
    (Releases o items d₀.tables d.tables ∧ ReleaseStage env o c))

/-- A handler that has not begun, or has ended: if it has ended without a release, its event was in
the ledger. -/
def Resting (o : UUID) (d₀ d : Db) (p : Process) : Prop :=
  (∃ env, IsRelease o env ∧ p = handleMessage env) ∨
    ∃ r, p = .done r ∧ (d = d₀ → r.envelope.eventId ∈ d₀.mail.processed)

/-- What a handler of a release leaves when it runs alone from the tables at the start. -/
theorem run_release (hrel : IsRelease o env)
    (hres : d₀.tables.reservations.get? o = some ⟨o, items⟩) {p : Process}
    (h : (handleTx env f).run d₀ = .ok (p, d)) : p = returned env ∧
      ((d = d₀ ∧ env.eventId ∈ d₀.mail.processed) ∨ Releases o items d₀.tables d.tables) := by
  obtain ⟨rfl, he⟩ := handleTx_ok h
  refine ⟨rfl, ?_⟩
  cases he with
  | duplicate he => exact .inl ⟨rfl, he⟩
  | unknown _ hne => exact absurd hrel.1 hne
  | reserved hty => exact absurd (hrel.1.symm.trans hty) EventType.noConfusion
  | rejected hty => exact absurd (hrel.1.symm.trans hty) EventType.noConfusion
  | released _ ho _ hr =>
    obtain rfl := Option.some.inj (ho.symm.trans hrel.2)
    have := hr.reserved
    rw [hres] at this
    cases this
    exact .inr hr
  | notFound _ ho _ hnone =>
    obtain rfl := Option.some.inj (ho.symm.trans hrel.2)
    rw [hres] at hnone
    cases hnone

/-- It is not rolled back, if its lines can be added back. -/
theorem run_release_ne_error (hrel : IsRelease o env)
    (hres : d₀.tables.reservations.get? o = some ⟨o, items⟩) (hret : Returnable items d₀.tables)
    (x : Err) : (handleTx env f).run d₀ ≠ .error x := by
  intro h
  by_cases he : env.eventId ∈ d₀.mail.processed
  · rw [run_handleTx_processed he] at h
    cases h
  · obtain ⟨t, hrun, -⟩ := run_handleTx_returnable (f := f) hrel.1 hrel.2 he hres hret
    rw [hrun] at h
    cases h

theorem running_go {e : Err → Process} (hres : d₀.tables.reservations.get? o = some ⟨o, items⟩)
    (h : Running o items d₀ d c e) (hin : InTime o d c) (hn : c.next d = .go c') :
    Running o items d₀ d c' e := by
  obtain ⟨env, f, hrel, rfl, ⟨rfl, hresult, hst⟩ | ⟨hr, hst⟩⟩ := h
  · refine ⟨env, f, hrel, rfl, .inl ⟨rfl, (Session.result_of_go hn).trans hresult, ?_⟩⟩
    rcases hst with ⟨hst, hown⟩ | hm
    · rcases hst.go hrel hn with ⟨hst', hown'⟩ | ⟨-, hdel, -, hp, hsub⟩
      · exact .inl ⟨hst', hown' (by rw [hres]; rfl) hown⟩
      · exact .inr ⟨hp, hsub (hown hdel)⟩
    · rw [Session.next, hm.prog] at hn
      cases hn
  · refine ⟨env, f, hrel, rfl, .inr ⟨hr, ?_⟩⟩
    rcases hst.go hrel hn with ⟨hst', -⟩ | ⟨hp, hdel, hnew, -⟩
    · exact hst'
    · -- the reservation has gone, and the event has not been entered
      rcases hin _ _ (hp.trans (markProcessed_eq env)) hdel with he | hsome
      · exact absurd he hnew
      · rw [hr.reservations, Table.get?_erase, if_pos rfl] at hsome
        cases hsome

theorem running_commit {e : Err → Process} {p : Process}
    (hres : d₀.tables.reservations.get? o = some ⟨o, items⟩) (h : Running o items d₀ d c e)
    (hn : c.next d = .commit p) :
    (c.view d = d₀ ∨ Releases o items d₀.tables (c.view d).tables) ∧ (c.view d = d₀ → d = d₀) ∧
      Resting o d₀ (c.view d) p ∧ ∀ c₁ e₁, c.held.Disjoint c₁.held →
        Running o items d₀ d c₁ e₁ → Running o items d₀ (c.view d) c₁ e₁ := by
  obtain ⟨env, f, hrel, rfl, ⟨rfl, hresult, hst⟩ | ⟨hr, hst⟩⟩ := h
  · obtain ⟨rfl, ⟨hview, he⟩ | hr⟩ :=
      run_release hrel hres (hresult.symm.trans (Session.result_of_commit hn))
    · rw [hview]
      exact ⟨.inl rfl, id, .inr ⟨_, rfl, fun _ => he⟩, fun _ _ _ h => h⟩
    · refine ⟨.inr hr, fun _ => rfl, .inr ⟨_, rfl, fun hd => absurd hd hr.ne⟩,
        fun c₁ e₁ hdisj h₁ => ?_⟩
      -- the handler owns the reservation, which the others therefore have not deleted
      have hheld : .inl (.reservation o) ∈ c.held := by
        rcases hst with ⟨hst, -⟩ | hm
        · have hgone := hr.reservations
          rw [(hst.commit hn).2] at hgone
          rw [hgone, Table.get?_erase, if_pos rfl] at hres
          cases hres
        · exact hm.held
      obtain ⟨env₁, f₁, hrel₁, rfl, ⟨-, -, hst₁⟩ | ⟨hr₁, -⟩⟩ := h₁
      · refine ⟨env₁, f₁, hrel₁, rfl, .inr ⟨hr, ?_⟩⟩
        rcases hst₁ with ⟨hst₁, -⟩ | hm
        · exact hst₁
        · exact absurd hm.held (hdisj hheld)
      · exact absurd rfl hr₁.ne
  · -- the order has been released, and stays so
    obtain ⟨rfl, htables⟩ := hst.commit hn
    have hr' : Releases o items d₀.tables (c.view d).tables := by rwa [htables]
    refine ⟨.inr hr', fun hd => absurd hd hr'.ne, .inr ⟨_, rfl, fun hd => absurd hd hr'.ne⟩,
      fun c₁ e₁ _ h₁ => ?_⟩
    obtain ⟨env₁, f₁, hrel₁, rfl, ⟨rfl, -⟩ | ⟨-, hst₁⟩⟩ := h₁
    · exact absurd rfl hr.ne
    · exact ⟨env₁, f₁, hrel₁, rfl, .inr ⟨hr', hst₁⟩⟩

/-- The tables and the handlers, in every run in which the handlers are in time. -/
theorem releasing_invariant (hres : d₀.tables.reservations.get? o = some ⟨o, items⟩)
    (hret : Returnable items d₀.tables) {w : World db Fresh Empty Handled}
    (h : ((World.lts (releasing o) (· = d₀)).restrict (World.Stepping (InTime o))).Reachable w) :
    (w.db = d₀ ∨ Releases o items d₀.tables w.db.tables) ∧ ∀ s, some s ∈ w.slots →
      s.Sat (Resting o d₀) (Running o items d₀) w.db := by
  refine World.invariant (fun d : Db => d = d₀ ∨ Releases o items d₀.tables d.tables) (Resting o d₀)
    (Running o items d₀) ?_ ?_ ?_ ?_ ?_ ?_ ?_ (World.reachable_of_stepping h)
  · exact fun d hd => .inl hd
  · rintro d p - hp
    exact .inl hp
  · rintro d f t e hI - (⟨env, hrel, hp⟩ | ⟨r, hp, -⟩)
    · obtain ⟨rfl, rfl⟩ := Proc.txn.inj hp
      have hst : ReleaseStage env o (.start (handleTx env f)) := .opening rfl rfl
      rcases hI with rfl | hr
      · exact ⟨env, f, hrel, rfl, .inl ⟨rfl, rfl, .inl ⟨hst, fun hdel => by cases hdel⟩⟩⟩
      · exact ⟨env, f, hrel, rfl, .inr ⟨hr, hst⟩⟩
    · cases hp
  · rintro d o' k - (⟨env, -, hp⟩ | ⟨r, hp, -⟩) <;> cases hp
  · exact fun d c c' e _ hK hin hn => running_go hres hK hin.2 hn
  · intro d c e p _ hK hn
    obtain ⟨hI, hback, hJ, hothers⟩ := running_commit hres hK hn
    refine ⟨hI, hJ, ?_, hothers⟩
    rintro p' (hp | ⟨r, rfl, hr⟩)
    · exact .inl hp
    · exact .inr ⟨r, rfl, fun hd => hr (hback hd)⟩
  · rintro d c e x - ⟨env, f, hrel, rfl, ⟨rfl, hresult, -⟩ | ⟨hr, -⟩⟩ hn
    · exact absurd (hresult.symm.trans (Session.result_of_abort hn))
        (run_release_ne_error hrel hres hret x)
    · obtain ⟨r, hdone⟩ := handleError_done env x
      exact .inr ⟨r, hdone, fun hd => absurd hd hr.ne⟩

/-- **An order is released once** when the handlers are in time: once all have ended, the quantities
have been added back exactly once and the reservation has gone, if they can be added back at all
and one of the events is new.  Otherwise they are not added back. -/
theorem released_once (hres : d₀.tables.reservations.get? o = some ⟨o, items⟩)
    (w : World db Fresh Empty Handled) :
    (((World.lts (releasing o) (· = d₀)).restrict (World.Stepping (InTime o))).Reachable w →
      w.Ended → Returnable items d₀.tables →
      (∃ r, some (.idle (.done r)) ∈ w.slots ∧ r.envelope.eventId ∉ d₀.mail.processed) →
      Releases o items d₀.tables w.db.tables) ∧
    ((World.lts (releasing o) (· = d₀)).Reachable w → ¬ Returnable items d₀.tables →
      w.db = d₀) := by
  refine ⟨fun h hend hret ⟨r, hr, hnew⟩ => ?_, fun h hret => World.unchanged ?_ h⟩
  · obtain ⟨hdb, hslots⟩ := releasing_invariant hres hret h
    refine hdb.resolve_left fun hd => ?_
    rcases hslots _ hr with ⟨env, -, hp⟩ | ⟨r', hp, hseen⟩
    · cases hp
    · obtain rfl := Proc.done.inj hp
      exact hnew (hseen hd)
  · rintro p ⟨env, hrel, rfl⟩
    refine ⟨_, _, rfl, fun f p' d' hrun => ?_, handleError_done env⟩
    by_cases he : env.eventId ∈ d₀.mail.processed
    · rw [run_handleTx_processed he] at hrun
      cases hrun
      exact ⟨rfl, _, rfl⟩
    · obtain ⟨x, hx⟩ := run_handleTx_not_returnable (f := f) hrel.1 hrel.2 he hres hret
      rw [hx] at hrun
      cases hrun

/-! ### Two handlers -/

/-- Whether a change deletes the reservation of the order `o`. -/
def deletes (o : UUID) : db.Write → Bool
  | .inl (.delReservation o') => o' = o
  | _ => false

/-- A check that a handler is in time. -/
def isInTime (o : UUID) (d : Db) (c : Session db Process) : Bool :=
  match c.prog with
  | .stmt (.inr (.insertProcessed e)) _ => !c.writes.any (deletes o) ||
      decide (e ∈ d.mail.processed) || (d.tables.reservations.get? o).isSome
  | _ => true

theorem inTime_of_isInTime (h : isInTime o d c) : InTime o d c := by
  intro e k hp hdel
  have hany : c.writes.any (deletes o) = true :=
    List.any_eq_true.2 ⟨_, hdel, decide_eq_true rfl⟩
  rw [isInTime, hp] at h
  simpa [hany] using h

/-- What is seen of the handlers once they have ended. -/
def endings (w : World db Fresh Empty Handled) : List (Option UUID) :=
  w.slots.map fun s => (Slot.reply? s).map (·.envelope.eventId)

theorem ended_of_endings {w : World db Fresh Empty Handled} (es : List UUID) (hne : es ≠ [])
    (h : endings w = es.map some) : w.Ended ∧ w.slots.length = es.length ∧
      ∀ e ∈ es, ∃ r, some (.idle (.done r)) ∈ w.slots ∧ r.envelope.eventId = e := by
  have hlen : w.slots.length = es.length := by simpa [endings] using congrArg List.length h
  refine ⟨⟨fun hnil => hne ?_, fun s hs => ?_⟩, hlen, fun e he => ?_⟩
  · rw [hnil] at hlen
    exact List.length_eq_zero_iff.1 hlen.symm
  · have hmem : (Slot.reply? s).map (·.envelope.eventId) ∈ endings w := List.mem_map_of_mem hs
    rw [h] at hmem
    obtain ⟨e, -, he⟩ := List.mem_map.1 hmem
    obtain ⟨r, hr, -⟩ := Option.map_eq_some_iff.1 he.symm
    exact ⟨r, Slot.reply?_eq_some.1 hr⟩
  · have hmem : some e ∈ endings w := by
      rw [h]
      exact List.mem_map_of_mem he
    obtain ⟨s, hs, hse⟩ := List.mem_map.1 hmem
    obtain ⟨r, hr, rfl⟩ := Option.map_eq_some_iff.1 hse
    exact ⟨r, Slot.reply?_eq_some.1 hr ▸ hs, rfl⟩

/-- A request to release the order 7. -/
def release₇ (eventId : UUID) : Envelope := ⟨eventId, .stockRelease, 0, { orderId := some 7 }⟩

/-- What it lists. -/
def burgers₇ : List Item := [⟨0x11111111111111111111111111111111, 3, 10⟩]

/-- Three of a hundred burgers are reserved for the order 7. -/
def reserved₇ : Db :=
  ⟨⟨Table.empty.insert ⟨0x11111111111111111111111111111111, 97⟩,
    Table.empty.insert ⟨7, burgers₇⟩⟩, ⟨.empty, [1]⟩⟩

/-- A label that is not a kill, and starts no other process than two handlers of such requests. -/
def isAllowed : World.Label db Fresh Empty Handled → Prop
  | .start p => p = handleMessage (release₇ 2) ∨ p = handleMessage (release₇ 3)
  | .kill _ => False
  | _ => True

theorem guard_of_isAllowed {w : World db Fresh Empty Handled}
    {l : World.Label db Fresh Empty Handled} (h : isAllowed l) : (releasing 7).guard w l := by
  cases l with
  | start p =>
    rcases h with rfl | rfl
    · exact ⟨_, ⟨rfl, rfl⟩, rfl⟩
    · exact ⟨_, ⟨rfl, rfl⟩, rfl⟩
  | «begin» i f => trivial
  | step i => exact fun _ _ _ => trivial
  | kill i => exact h

/-- A handler that looks for the reservation when another one has released the order. -/
theorem released_once_late :
    let run : List (World.Label db Fresh Empty Handled) :=
      [.start (handleMessage (release₇ 2)), .start (handleMessage (release₇ 3)),
        .begin 0 ⟨0, 0, 0, 0⟩, .begin 1 ⟨0, 0, 0, 0⟩, .step 0, .step 1, .step 0, .step 0, .step 0,
        .step 0, .step 0, .step 1, .step 1, .step 1]
    ∃ w, LTS.runAct (fun w l => if World.checks (isInTime 7) w l then World.act (S := db) w l
        else none) (World.idle reserved₇) run = some w ∧ endings w = [some 2, some 3] ∧
      Releases 7 burgers₇ reserved₇.tables w.db.tables := by
  intro run
  have hallowed : ∀ l ∈ run, isAllowed l := by simp [run, isAllowed]
  have hrun : (LTS.runAct (fun w l => if World.checks (isInTime 7) w l then
      World.act (S := db) w l else none) (World.idle reserved₇) run).map endings =
        some [some 2, some 3] := by decide +kernel
  obtain ⟨w, hw, hend⟩ := Option.map_eq_some_iff.1 hrun
  obtain ⟨hended, -, hall⟩ := ended_of_endings [2, 3] (by simp) hend
  obtain ⟨r, hr, he⟩ := hall 2 List.mem_cons_self
  refine ⟨w, hw, hend, (released_once (by decide +kernel) w).1 ⟨_, _, ⟨reserved₇, rfl, rfl⟩,
    World.run_of_runAct_checks (fun _ _ => inTime_of_isInTime)
      (fun w l hl => guard_of_isAllowed (hallowed l hl)) hw⟩ hended
    (isAddable_iff.1 (by decide +kernel)) ⟨r, hr, by rw [he]; decide +kernel⟩⟩

/-- Two handlers find the reservation before either has deleted it. -/
theorem released_twice :
    ¬ ∀ (d₀ : Db) (o : UUID) (items : List Item) (w : World db Fresh Empty Handled),
      d₀.tables.reservations.get? o = some ⟨o, items⟩ →
      (World.lts (releasing o) (· = d₀)).Reachable w → 2 ≤ w.slots.length → w.Ended →
      Releases o items d₀.tables w.db.tables := by
  intro h
  let run : List (World.Label db Fresh Empty Handled) :=
    [.start (handleMessage (release₇ 2)), .start (handleMessage (release₇ 3)),
      .begin 0 ⟨0, 0, 0, 0⟩, .begin 1 ⟨0, 0, 0, 0⟩, .step 0, .step 0, .step 1, .step 1, .step 0,
      .step 0, .step 0, .step 0, .step 1, .step 1, .step 1, .step 1]
  have hrun : (LTS.runAct (World.act (S := db)) (World.idle reserved₇) run).map (fun w =>
      (endings w, w.db.tables.quantity 0x11111111111111111111111111111111)) =
      some ([some 2, some 3], some 103) := by decide +kernel
  obtain ⟨w, hw, hobs⟩ := Option.map_eq_some_iff.1 hrun
  obtain ⟨hend, hq⟩ := Prod.mk.inj hobs
  obtain ⟨hended, hlen, -⟩ := ended_of_endings [2, 3] (by simp) hend
  have hallowed : ∀ l ∈ run, isAllowed l := by simp [run, isAllowed]
  have hr : (World.lts (releasing 7) (· = reserved₇)).Reachable w :=
    LTS.reachable_of_runAct ⟨reserved₇, rfl, rfl⟩
      (fun w l hl => guard_of_isAllowed (hallowed l hl)) hw
  have hrel := h reserved₇ 7 burgers₇ w (by decide +kernel) hr hlen.ge hended
  -- a hundred and three, instead of a hundred
  rw [hrel.quantity] at hq
  revert hq
  decide +kernel

end Restaurant

end FoodFlow
