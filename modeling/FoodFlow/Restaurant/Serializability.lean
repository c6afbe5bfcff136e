import FoodFlow.Restaurant.Isolation
import FoodFlow.Restaurant.Conservation

/-!
# Concurrent handlers are serializable

Any number of handlers of the restaurant service run at the same time, statement by statement,
for different orders; any of them may be killed.

* `concurrently` : their interleavings, and `alone` : runs of one whole handler after another;
* `Stage` : how far the transaction of a handler has got.  A handler that reserves or releases
  stock takes effect when it commits, one that rejects its order when it rolls back to its
  savepoint;
* `serializable` : **the handlers that have committed leave what they leave running one after
  another in some order**, and no stock is lost or granted twice.
-/

namespace FoodFlow

namespace Restaurant

/-- The handlers are there from the start; any of them may be killed. -/
def handlers : World.Rules db Fresh Empty Handled where
  start _ := False

/-- The interleavings of the handlers of `envs`. -/
def concurrently (envs : List Envelope) (d₀ : Db) :
    LTS (World db Fresh Empty Handled) (World.Label db Fresh Empty Handled) :=
  .ofAct (· = ⟨d₀, envs.map fun env => some (.idle (handleMessage env)), []⟩) handlers.guard
    World.act

/-- Runs of one handler after another; a label says which handler it is, and what it draws. -/
def alone (envs : List Envelope) : LTS Db (ℕ × Fresh) where
  init _ := True
  step d x d' := ∃ env, envs[x.1]? = some env ∧
    (handleTx env x.2).run d = .ok (returned env, d')

/-- The steps of an interleaving. -/
abbrev Steps := List (World db Fresh Empty Handled × World.Label db Fresh Empty Handled)

/-- Handler `i` drew `f` when it began. -/
def Drew (tr : Steps) (i : ℕ) (f : Fresh) : Prop := ∃ w, (w, .begin i f) ∈ tr

/-- The step is the commit of handler `i`. -/
def CommitsAt (i : ℕ) (w : World db Fresh Empty Handled)
    (l : World.Label db Fresh Empty Handled) : Prop :=
  l = .step i ∧ ∃ c e p, w.slots[i]? = some (some (.busy c e)) ∧ c.next w.db = .commit p

/-- Handler `i` has committed. -/
def Committed (tr : Steps) (i : ℕ) : Prop := ∃ x ∈ tr, CommitsAt i x.1 x.2

/-! ### The transaction of one handler -/

/-- How far the transaction of the handler of `env` has got.  `P` are the tables of the serial
history so far; `seen` says whether the event was in the ledger at first. -/
inductive Stage (seen : Prop) (P : Tables → Prop) (env : Envelope) (f : Fresh) (d : Db)
    (c : Session db Process) : Prop
  /-- It has just begun. -/
  | begun : c = .start (handleTx env f) → Stage seen P env f d c
  /-- It is about to open the savepoint. -/
  | opening {o items err} : Block env f o items err → env.eventId ∉ d.mail.processed →
      c = .start (handleBody env f) → Stage seen P env f d c
  /-- It is inside the block. -/
  | inside {o items err} {b : Session db Unit} : Block env f o items err →
      env.eventId ∉ d.mail.processed → b.Replays (reliance env) (reserveStock o items) d →
      c = b.inside (fun _ => publishAndMark env .stockReserved o env.payload f) err →
      Stage seen P env f d c
  /-- It owns all that it depends on. -/
  | replays : c.Replays (reliance env) (handleTx env f) d → Stage seen P env f d c
  /-- It has rolled back to the savepoint, at some point of the history, and is publishing the
  rejection. -/
  | decided {u o payload} : P u → Does env f seen (verdict env .stockRejected o payload f) u u →
      c.Replays (reliance env) (publishAndMark env .stockRejected o payload f) d →
      Stage seen P env f d c

variable {seen : Prop} {P P' : Tables → Prop} {env : Envelope} {f : Fresh} {d d' : Db}
  {c c' : Session db Process} {p : Process}

/-- It goes on as before when others have committed. -/
theorem Stage.keep (h : Stage seen P env f d c) (hd : Agrees env c.held d d')
    (hP : ∀ u, P u → P' u) : Stage seen P' env f d' c := by
  cases h with
  | begun hc => exact .begun hc
  | opening hB he hc => exact .opening hB (fun he' => he (hd.processed.2 he')) hc
  | inside hB he hb hc =>
    subst hc
    exact .inside hB (fun he' => he (hd.processed.2 he')) (hb.keep hd) rfl
  | replays hr => exact .replays (hr.keep hd)
  | decided hu hdoes hr => exact .decided (hP _ hu) hdoes (hr.keep hd)

theorem next_handleTx (hn : (Session.start (handleTx env f)).next d = .go c') :
    c' = .start (if env.eventId ∈ d.mail.processed then .pure (returned env)
      else handleBody env f) := by
  have hc : c' = .start (if decide (env.eventId ∈ d.mail.processed) then .pure (returned env)
      else handleBody env f) := (Session.Next.go.inj hn).symm
  by_cases he : env.eventId ∈ d.mail.processed
  · simpa only [he, decide_true, if_true] using hc
  · simpa only [he, decide_false, Bool.false_eq_true, if_false] using hc

/-- A step goes on to the next stage. -/
theorem Stage.go (h : Stage seen P env f d c) (hseen : env.eventId ∈ d.mail.processed ↔ seen)
    (hP : P d.tables) (hn : c.next d = .go c') : Stage seen P env f d c' := by
  cases h with
  | begun hc =>
    subst hc
    rw [next_handleTx hn]
    split_ifs with he
    · refine .replays ⟨trivial, (by rintro w ⟨⟩), fun d' hd' => ?_⟩
      exact (eval_handleTx_processed (hd'.processed.1 he)).symm
    · rcases tracked_or_block env f with ht | ⟨o, items, err, hB⟩
      · refine .replays ⟨ht, (by rintro w ⟨⟩), fun d' hd' => ?_⟩
        exact (eval_handleTx fun he' => he (hd'.processed.2 he')).symm
      · exact .opening hB he rfl
  | @opening o items err hB he hc =>
    subst hc
    refine .inside hB he (Session.replays_start (tracked_reserveStock hB.order items)) ?_
    rw [hB.body] at hn
    exact (Session.Next.go.inj hn).symm
  | @inside o items err b hB he hb hc =>
    subst hc
    rcases Session.inside_go hb.uses hn with ⟨b', hn', rfl⟩ | ⟨a, hp, rfl⟩ | ⟨x, hp, rfl⟩
    · exact .inside hB he (hb.go hn') rfl
    · -- the reservation is made, under locks that are kept
      refine .replays ⟨tracked_publishAndMark, hb.own, fun d' hd' => ?_⟩
      rw [eval_handleTx fun he' => he (hd'.processed.2 he'), hB.body,
        Tx.eval_nested (flat_reserveStock o items), hb.of_pure hp hd']
      rfl
    · -- some item is short: the rollback is the point at which the order is rejected
      have hs : ¬ seen := fun hs => he (hseen.2 hs)
      obtain ⟨payload, herr, hdoes⟩ :=
        does_of_thrown (t := d.tables) (m := d.mail) hB hs (hb.of_throw hp)
      rw [herr]
      exact .decided hP hdoes (Session.replays_start tracked_publishAndMark)
  | replays hr => exact .replays (hr.go hn)
  | decided hu hdoes hr => exact .decided hu hdoes (hr.go hn)

/-- What a commit does to the tables is what the whole handler does to them, or, when it has been
decided before, nothing. -/
theorem Stage.commit (h : Stage seen P env f d c)
    (hseen : env.eventId ∈ d.mail.processed ↔ seen) (hn : c.next d = .commit p) :
    p = returned env ∧ (∀ w ∈ c.writes, Owns env c.held w) ∧ ∃ x : Posted, x.Fits d.mail ∧
      (c.view d).mail = x.post d.mail ∧ (∀ e ∈ x.events, e = env.eventId) ∧
      (Does env f seen x d.tables (c.view d).tables ∨
        ((c.view d).tables = d.tables ∧ ∃ u, P u ∧ Does env f seen x u u)) := by
  cases h with
  | begun hc =>
    subst hc
    exact absurd hn (Session.not_commit_of_stmt rfl)
  | opening hB he hc =>
    subst hc
    rw [hB.body] at hn
    cases hn
  | inside hB he hb hc =>
    subst hc
    exact absurd hn (Session.inside_not_commit hb.uses p)
  | replays hr =>
    obtain ⟨hp, x, hx⟩ := handleTx_posts (t := d.tables) (m := d.mail) (hr.of_commit hn)
    have hdoes := hx.does
    rw [hseen] at hdoes
    exact ⟨hp, hr.own, x, hx.fits, hx.mail, hx.events, .inl hdoes⟩
  | @decided u o payload hu hdoes hr =>
    obtain ⟨saved, hpub⟩ := Tx.run_eq_ok.1 (hr.of_commit hn)
    obtain ⟨hp, -, hrow, hview⟩ := publishAndMark_ok hpub
    refine ⟨hp, hr.own, verdict env .stockRejected o payload f, ?_, ?_, by simp [verdict],
      .inr ⟨?_, u, hu, hdoes⟩⟩
    · rintro r ⟨⟩
      exact hrow
    · rw [hview]
      rfl
    · rw [hview]

/-! ### The serial history -/

/-- A handler that has committed, with what it drew and what it posted. -/
structure Entry where
  slot : ℕ
  envelope : Envelope
  fresh : Fresh
  posted : Posted

/-- Handlers one after another, as far as the tables of the service are concerned. -/
def history (d₀ : Db) : LTS Tables Entry where
  init := (· = d₀.tables)
  step t x t' :=
    Does x.envelope x.fresh (x.envelope.eventId ∈ d₀.mail.processed) x.posted t t'

/-- The handlers of a history. -/
def slotsOf (σ : List (Tables × Entry)) : List ℕ := σ.map fun x => x.2.slot

/-- The rows that they have published. -/
def rowsOf (σ : List (Tables × Entry)) : List OutboxRow :=
  σ.flatMap fun x => x.2.posted.row.toList

/-- The events that they have entered into the ledger. -/
def eventsOf (σ : List (Tables × Entry)) : List UUID := σ.flatMap fun x => x.2.posted.events

/-- The tables that a history ending in `t` passes. -/
def Passed (σ : List (Tables × Entry)) (t u : Tables) : Prop := u = t ∨ u ∈ σ.map Prod.fst

/-- A handler in the state `d`, when the history is `σ`. -/
inductive SlotOk (d₀ : Db) (tr : Steps) (σ : List (Tables × Entry)) (d : Db) (i : ℕ)
    (env : Envelope) : Option (Slot db Fresh Empty Handled) → Prop
  | killed : SlotOk d₀ tr σ d i env none
  | waiting : i ∉ slotsOf σ → SlotOk d₀ tr σ d i env (some (.idle (handleMessage env)))
  | busy {f : Fresh} {c : Session db Process} : i ∉ slotsOf σ → Drew tr i f →
      Stage (env.eventId ∈ d₀.mail.processed) (Passed σ d.tables) env f d c →
      SlotOk d₀ tr σ d i env (some (.busy c (handleError env)))
  | ended (r) : SlotOk d₀ tr σ d i env (some (.idle (.done r)))

/-- `σ` is a serial history of what the handlers have done. -/
structure Serialized (envs : List Envelope) (d₀ : Db) (tr : Steps)
    (w : World db Fresh Empty Handled) (σ : List (Tables × Entry)) : Prop where
  trace : (history d₀).Trace d₀.tables σ w.db.tables
  nodup : (slotsOf σ).Nodup
  envelope : ∀ x ∈ σ, envs[x.2.slot]? = some x.2.envelope
  drew : ∀ x ∈ σ, Drew tr x.2.slot x.2.fresh
  events : ∀ x ∈ σ, ∀ e ∈ x.2.posted.events, e = x.2.envelope.eventId
  commits : ∀ i, i ∈ slotsOf σ ↔ Committed tr i
  outbox : w.db.mail.outbox.rows.Perm (d₀.mail.outbox.rows ++ rowsOf σ)
  processed : w.db.mail.processed.Perm (eventsOf σ ++ d₀.mail.processed)
  slots : ∀ (i : ℕ) s, w.slots[i]? = some s →
    ∃ env, envs[i]? = some env ∧ SlotOk d₀ tr σ w.db i env s

variable {envs : List Envelope} {d₀ : Db} {tr tr' : Steps} {w w' : World db Fresh Empty Handled}
  {l : World.Label db Fresh Empty Handled} {σ : List (Tables × Entry)} {i j : ℕ}
  {env' : Envelope} {t : Tables}

theorem Drew.snoc (h : Drew tr i f) (x : World db Fresh Empty Handled ×
    World.Label db Fresh Empty Handled) : Drew (tr ++ [x]) i f := by
  obtain ⟨w, hw⟩ := h
  exact ⟨w, List.mem_append_left _ hw⟩

theorem committed_snoc : Committed (tr ++ [(w, l)]) i ↔ Committed tr i ∨ CommitsAt i w l := by
  simp [Committed, or_and_right, exists_or]

theorem Unrelated.symm (h : Unrelated env env') : Unrelated env' env :=
  ⟨Ne.symm h.1, fun o ho ho' => h.2 o ho' ho⟩

theorem unrelated_of_pairwise (h : envs.Pairwise Unrelated) (hij : i ≠ j)
    (hi : envs[i]? = some env) (hj : envs[j]? = some env') : Unrelated env env' := by
  obtain ⟨hi', rfl⟩ := List.getElem?_eq_some_iff.1 hi
  obtain ⟨hj', rfl⟩ := List.getElem?_eq_some_iff.1 hj
  have hp := List.pairwise_iff_getElem.1 h
  rcases Nat.lt_or_gt_of_ne hij with hlt | hlt
  · exact hp i j hi' hj' hlt
  · exact (hp j i hj' hi' hlt).symm

/-- The event of a handler that is not in the history is in the ledger if it was at first. -/
theorem mem_eventsOf (hd : envs.Pairwise Unrelated)
    (henv : ∀ x ∈ σ, envs[x.2.slot]? = some x.2.envelope)
    (hev : ∀ x ∈ σ, ∀ e ∈ x.2.posted.events, e = x.2.envelope.eventId)
    (hi : i ∉ slotsOf σ) (he : envs[i]? = some env) : env.eventId ∉ eventsOf σ := by
  intro hm
  obtain ⟨x, hx, hxe⟩ := List.mem_flatMap.1 hm
  have hne : x.2.slot ≠ i := by
    rintro rfl
    exact hi (List.mem_map_of_mem hx)
  exact (unrelated_of_pairwise hd hne (henv x hx) he).1 (hev x hx _ hxe).symm

/-- What a handler posts is added to the rows. -/
theorem rows_post {x : Posted} {m : Mail} (h : x.Fits m) :
    (x.post m).outbox.rows = m.outbox.rows ++ x.row.toList := by
  obtain ⟨row, events⟩ := x
  cases row with
  | none => exact (List.append_nil _).symm
  | some r => exact Table.rows_insert (h r rfl)

/-- A handler that takes no step. -/
theorem SlotOk.keep {σ' : List (Tables × Entry)} {s : Option (Slot db Fresh Empty Handled)}
    (h : SlotOk d₀ tr σ d i env s) (x : World db Fresh Empty Handled ×
      World.Label db Fresh Empty Handled) (hσ : i ∉ slotsOf σ → i ∉ slotsOf σ')
    (hd : Agrees env (World.held s) d d') (hP : ∀ u, Passed σ d.tables u → Passed σ' d'.tables u) :
    SlotOk d₀ (tr ++ [x]) σ' d' i env s := by
  cases h with
  | killed => exact .killed
  | waiting hi => exact .waiting (hσ hi)
  | busy hi hdrew hst => exact .busy (hσ hi) (hdrew.snoc x) (hst.keep hd hP)
  | ended r => exact .ended r

namespace Serialized

theorem mem_processed (hd : envs.Pairwise Unrelated) (h : Serialized envs d₀ tr w σ)
    (hi : i ∉ slotsOf σ) (he : envs[i]? = some env) :
    env.eventId ∈ w.db.mail.processed ↔ env.eventId ∈ d₀.mail.processed := by
  rw [h.processed.mem_iff, List.mem_append,
    or_iff_right (mem_eventsOf hd h.envelope h.events hi he)]

/-- A step that commits nothing and turns slot `i` into `s'`. -/
theorem quiet {s' : Option (Slot db Fresh Empty Handled)} (h : Serialized envs d₀ tr w σ)
    (hl : ∀ j, ¬ CommitsAt j w l) (hs' : ∀ s env, w.slots[i]? = some s → envs[i]? = some env →
      SlotOk d₀ tr σ w.db i env s → SlotOk d₀ (tr ++ [(w, l)]) σ w.db i env s') :
    Serialized envs d₀ (tr ++ [(w, l)]) { w with slots := w.slots.set i s' } σ where
  trace := h.trace
  nodup := h.nodup
  envelope := h.envelope
  drew x hx := (h.drew x hx).snoc _
  events := h.events
  commits j := by rw [committed_snoc, or_iff_left (hl j), h.commits]
  outbox := h.outbox
  processed := h.processed
  slots j s₁ hj := by
    rw [List.getElem?_set] at hj
    split_ifs at hj with hij hlt
    · subst hij
      obtain rfl := Option.some.inj hj
      have hi : w.slots[i]? = some w.slots[i] := List.getElem?_eq_getElem hlt
      obtain ⟨env, he, hok⟩ := h.slots i _ hi
      exact ⟨env, he, hs' _ env hi he hok⟩
    · obtain ⟨env, he, hok⟩ := h.slots j s₁ hj
      exact ⟨env, he, hok.keep _ id ((reliance env).refl _ _) fun _ => id⟩

/-- A handler that commits gets a place in the history: at its end, or where it has been
decided. -/
theorem exists_history {y : Entry} {t' : Tables} (h : (history d₀).Trace d₀.tables σ t)
    (hy : (history d₀).step t y t' ∨
      (t' = t ∧ ∃ u, Passed σ t u ∧ (history d₀).step u y u)) :
    ∃ σ' u, (history d₀).Trace d₀.tables σ' t' ∧ σ'.Perm ((u, y) :: σ) ∧
      ∀ v, Passed σ t v → Passed σ' t' v := by
  rcases hy with hy | ⟨rfl, u, hu, hy⟩
  · refine ⟨_, t, h.snoc hy, List.perm_append_singleton _ _, ?_⟩
    rintro v (rfl | hv)
    · exact .inr (by simp)
    · exact .inr (by rw [List.map_append]; exact List.mem_append_left _ hv)
  · obtain ⟨σ', hσ', hperm⟩ := h.insert hy hu
    refine ⟨σ', u, hσ', hperm, ?_⟩
    rintro v (rfl | hv)
    · exact .inl rfl
    · exact .inr ((hperm.map Prod.fst).mem_iff.2 (List.mem_cons_of_mem _ hv))

/-- The step of a handler that commits. -/
theorem commit {e : Err → Process} (hd : envs.Pairwise Unrelated)
    (h : Serialized envs d₀ tr w σ) (hx : World.Exclusive w.slots)
    (hi : w.slots[i]? = some (some (.busy c e))) (hn : c.next w.db = .commit p) :
    ∃ σ', Serialized envs d₀ (tr ++ [(w, .step i)])
      { w with
        db := c.view w.db
        slots := w.slots.set i (some (.idle p)) } σ' := by
  obtain ⟨env, henv, hok⟩ := h.slots i _ hi
  cases hok with
  | @busy f _ hnot hdrew hst =>
  obtain ⟨rfl, hown, x, hfits, hmail, hev, hdoes⟩ :=
    hst.commit (h.mem_processed hd hnot henv) hn
  obtain ⟨σ', u, htrace, hperm, hpass⟩ :=
    exists_history (y := ⟨i, env, f, x⟩) h.trace hdoes
  have hmem : ∀ z ∈ σ', z = (u, ⟨i, env, f, x⟩) ∨ z ∈ σ := fun z hz =>
    List.mem_cons.1 (hperm.mem_iff.1 hz)
  have hslots : (slotsOf σ').Perm (i :: slotsOf σ) := hperm.map _
  have hcommits : ∀ j, CommitsAt j w (.step i) ↔ j = i := by
    refine fun j => ⟨fun hj => (World.Label.step.inj hj.1).symm, ?_⟩
    rintro rfl
    exact ⟨rfl, c, _, _, hi, hn⟩
  refine ⟨σ', htrace, ?_, ?_, ?_, ?_, ?_, ?_, ?_, ?_⟩
  · exact hslots.nodup_iff.2 (List.nodup_cons.2 ⟨hnot, h.nodup⟩)
  · intro z hz
    rcases hmem z hz with rfl | hz
    exacts [henv, h.envelope z hz]
  · intro z hz
    rcases hmem z hz with rfl | hz
    exacts [hdrew.snoc _, (h.drew z hz).snoc _]
  · intro z hz
    rcases hmem z hz with rfl | hz
    exacts [hev, h.events z hz]
  · intro j
    rw [committed_snoc, hcommits, hslots.mem_iff, List.mem_cons, h.commits, or_comm]
  · -- the rows published before, and those of this handler
    have hrows : (rowsOf σ').Perm (x.row.toList ++ rowsOf σ) := hperm.flatMap_right _
    show (c.view w.db).mail.outbox.rows.Perm _
    rw [hmail, rows_post hfits]
    refine (h.outbox.append_right _).trans ?_
    rw [List.append_assoc]
    exact (List.perm_append_comm.trans hrows.symm).append_left _
  · have hevents : (eventsOf σ').Perm (x.events ++ eventsOf σ) := hperm.flatMap_right _
    show (c.view w.db).mail.processed.Perm _
    rw [hmail]
    refine (h.processed.append_left _).trans ?_
    rw [← List.append_assoc]
    exact hevents.symm.append_right _
  · intro j s hj
    rw [getElem?_set_of_some hi] at hj
    split_ifs at hj with hij
    · subst hij
      obtain rfl := Option.some.inj hj
      exact ⟨env, henv, .ended _⟩
    · -- the other handlers own none of the locks, and do not see what is committed
      obtain ⟨env', henv', hok'⟩ := h.slots j s hj
      have hu := unrelated_of_pairwise hd (Ne.symm hij) henv' henv
      have hagree : Agrees env' (World.held s) w.db (c.view w.db) :=
        Reliance.agree_applyAll (Z := reliance env') fun w' hw' d =>
          agrees_apply hu (hx j i s _ (Ne.symm hij) hj hi) (hown w' hw') d
      refine ⟨env', henv', hok'.keep _ (fun hj' hm => ?_) hagree hpass⟩
      rcases List.mem_cons.1 (hslots.mem_iff.1 hm) with rfl | hm
      exacts [hij rfl, hj' hm]

/-- **Every step keeps the history serial.** -/
theorem step (hd : envs.Pairwise Unrelated) (h : Serialized envs d₀ tr w σ)
    (hx : World.Exclusive w.slots) (hst : World.Step handlers w l w') :
    ∃ σ', Serialized envs d₀ (tr ++ [(w, l)]) w' σ' := by
  -- the slot is the one that takes the step
  have slot_eq : ∀ {i : ℕ} {s s' : Option (Slot db Fresh Empty Handled)}, w.slots[i]? = some s →
      w.slots[i]? = some s' → s' = s := fun hi hi' => Option.some.inj (hi'.symm.trans hi)
  have others : ∀ {i : ℕ} {c e}, w.slots[i]? = some (some (.busy c e)) →
      (∀ p, c.next w.db ≠ .commit p) → ∀ j, ¬ CommitsAt j w (.step i) := by
    rintro i c e hi hno j ⟨hl, c', e', p, hj, hn⟩
    obtain rfl := World.Label.step.inj hl
    obtain ⟨rfl, -⟩ := Slot.busy.inj (Option.some.inj (slot_eq hi hj))
    exact hno p hn
  cases hst with
  | start hp => exact hp.elim
  | @«begin» i f t e _ hi =>
    refine ⟨σ, h.quiet (fun j hj => by cases hj.1) fun s env hi' _ hok => ?_⟩
    obtain rfl := slot_eq hi hi'
    cases hok with
    | waiting hnot => exact .busy hnot ⟨w, by simp⟩ (.begun rfl)
  | @call i o k hi => exact o.elim
  | @go i c c' e hi _ _ hn =>
    have hno : ∀ p, c.next w.db ≠ .commit p := fun p hp => by rw [hp] at hn; cases hn
    refine ⟨σ, h.quiet (others hi hno) fun s env hi' henv hok => ?_⟩
    obtain rfl := slot_eq hi hi'
    cases hok with
    | busy hnot hdrew hstage =>
      exact .busy hnot (hdrew.snoc _) (hstage.go (h.mem_processed hd hnot henv) (.inl rfl) hn)
  | commit hi hn => exact h.commit hd hx hi hn
  | @abort i c x e hi hn =>
    have hno : ∀ p, c.next w.db ≠ .commit p := fun p hp => by rw [hp] at hn; cases hn
    refine ⟨σ, h.quiet (others hi hno) fun s env hi' henv hok => ?_⟩
    obtain rfl := slot_eq hi hi'
    cases hok with
    | busy _ _ _ =>
      obtain ⟨r, hr⟩ := handleError_done env x
      rw [hr]
      exact .ended r
  | kill _ => exact ⟨σ, h.quiet (fun j hj => by cases hj.1) fun _ _ _ _ _ => .killed⟩

end Serialized

/-- The history before the first step. -/
theorem serialized_init (h : (concurrently envs d₀).init w) : Serialized envs d₀ [] w [] := by
  obtain rfl : w = _ := h
  refine ⟨.refl, List.nodup_nil, by simp, by simp, by simp, ?_, ?_, ?_, ?_⟩
  · simp [slotsOf, Committed]
  · simp [rowsOf]
  · simp [eventsOf]
  · intro i s hi
    rw [List.getElem?_map] at hi
    obtain ⟨env, henv, rfl⟩ := Option.map_eq_some_iff.1 hi
    exact ⟨env, henv, .waiting (by simp [slotsOf])⟩

/-- **Every interleaving has a serial history.** -/
theorem exists_serialized (hd : envs.Pairwise Unrelated) {w₀ : World db Fresh Empty Handled}
    (h₀ : (concurrently envs d₀).init w₀) (h : (concurrently envs d₀).Trace w₀ tr w) :
    ∃ σ, Serialized envs d₀ tr w σ := by
  have hinv : (World.Exclusive w.slots ∧ World.AllNested w.slots) ∧
      ∃ σ, Serialized envs d₀ tr w σ := by
    refine h.invariant (I := fun tr w => (World.Exclusive w.slots ∧ World.AllNested w.slots) ∧
      ∃ σ, Serialized envs d₀ tr w σ) ⟨?_, [], serialized_init h₀⟩ ?_
    · obtain rfl : w₀ = _ := h₀
      have idle : ∀ (i : ℕ) s, (envs.map fun env =>
          (some (.idle (handleMessage env)) : Option (Slot db Fresh Empty Handled)))[i]? = some s →
          ∃ p, s = some (.idle p) := by
        intro i s hi
        rw [List.getElem?_map] at hi
        obtain ⟨env, -, rfl⟩ := Option.map_eq_some_iff.1 hi
        exact ⟨_, rfl⟩
      refine ⟨fun i j s s' _ hi _ => ?_, fun c e hm => ?_⟩
      · obtain ⟨p, rfl⟩ := idle i s hi
        exact List.disjoint_nil_left _
      · obtain ⟨i, hi⟩ := List.mem_iff_getElem?.1 hm
        obtain ⟨p, hp⟩ := idle i _ hi
        cases hp
    · rintro tr w l w' _ ⟨hx, σ, hσ⟩ hst
      have hst' : (World.lts handlers fun _ => True).step w l w' := hst
      exact ⟨World.exclusive_step hx hst', hσ.step hd hx.1 (World.step_cases hst')⟩
  exact hinv.2

/-! ### Running the history -/

/-- What the handlers do to the tables one after another, they do running alone. -/
theorem alone_of_history (hd : envs.Pairwise Unrelated)
    (h : (history d₀).Trace d₀.tables σ t) (hnodup : (slotsOf σ).Nodup)
    (henv : ∀ x ∈ σ, envs[x.2.slot]? = some x.2.envelope)
    (hev : ∀ x ∈ σ, ∀ e ∈ x.2.posted.events, e = x.2.envelope.eventId)
    (hids : ((d₀.mail.outbox.rows ++ rowsOf σ).map OutboxRow.id).Nodup) :
    ∃ m, (alone envs).Run d₀ (σ.map fun x => (x.2.slot, x.2.fresh)) ⟨t, m⟩ ∧
      m.outbox.rows = d₀.mail.outbox.rows ++ rowsOf σ ∧
      m.processed.Perm (eventsOf σ ++ d₀.mail.processed) := by
  induction h with
  | refl => exact ⟨d₀.mail, .refl, (List.append_nil _).symm, .refl _⟩
  | @snoc σ t₁ t₂ x _ hst ih =>
    have hlast : (t₁, x) ∈ σ ++ [(t₁, x)] := by simp
    have henv' : ∀ z ∈ σ, envs[z.2.slot]? = some z.2.envelope := fun z hz =>
      henv z (List.mem_append_left _ hz)
    have hev' : ∀ z ∈ σ, ∀ e ∈ z.2.posted.events, e = z.2.envelope.eventId := fun z hz =>
      hev z (List.mem_append_left _ hz)
    have hslots : slotsOf (σ ++ [(t₁, x)]) = slotsOf σ ++ [x.slot] := by simp [slotsOf]
    have hrowsOf : rowsOf (σ ++ [(t₁, x)]) = rowsOf σ ++ x.posted.row.toList := by simp [rowsOf]
    have heventsOf : eventsOf (σ ++ [(t₁, x)]) = eventsOf σ ++ x.posted.events := by
      simp [eventsOf]
    rw [hslots, List.nodup_append_comm, List.singleton_append, List.nodup_cons] at hnodup
    rw [hrowsOf, ← List.append_assoc, List.map_append] at hids
    obtain ⟨m, hrun, hrows, hproc⟩ :=
      ih hnodup.2 henv' hev' (hids.sublist (List.sublist_append_left _ _))
    -- the event of the handler is as at first, and its row is new
    have hseen : x.envelope.eventId ∈ m.processed ↔ x.envelope.eventId ∈ d₀.mail.processed := by
      rw [hproc.mem_iff, List.mem_append,
        or_iff_right (mem_eventsOf hd henv' hev' hnodup.1 (henv _ hlast))]
    have hfits : x.posted.Fits m := by
      intro r hr
      refine (Table.get?_eq_none _).2 fun r' hr' hid => ?_
      rw [hrows] at hr'
      exact List.disjoint_of_nodup_append hids (List.mem_map_of_mem hr')
        (hid ▸ List.mem_map_of_mem (Option.mem_toList.2 hr))
    refine ⟨x.posted.post m, ?_, ?_, ?_⟩
    · rw [List.map_append]
      exact hrun.snoc ⟨x.envelope, henv _ hlast, hst m hseen hfits⟩
    · rw [rows_post hfits, hrows, hrowsOf, List.append_assoc]
    · rw [heventsOf]
      refine (hproc.append_left _).trans ?_
      rw [← List.append_assoc]
      exact List.perm_append_comm.append_right _

theorem conserved_alone {t₀ : Tables} {σ : List (ℕ × Fresh)} (h : (alone envs).Run d σ d')
    (hc : Conserved t₀ d.tables) : Conserved t₀ d'.tables :=
  h.invariant hc fun _ _ _ hc ⟨_, _, hrun⟩ => (handleTx_ok hrun).2.conserved hc

/-- **Concurrent handlers are serializable.**  Whatever the interleaving of the handlers of
`envs`, at every point those that have committed have left the stock, the reservations, the
verdicts and the ledger that they leave running one after another in some order, each with what
it drew; the others have left nothing.  Stock that was conserved still is. -/
theorem serializable (hd : envs.Pairwise Unrelated) {w₀ : World db Fresh Empty Handled}
    (h₀ : (concurrently envs d₀).init w₀) (h : (concurrently envs d₀).Trace w₀ tr w) :
    ∃ (σ : List (ℕ × Fresh)) (d : Db), (σ.map Prod.fst).Nodup ∧
      (∀ i, i ∈ σ.map Prod.fst ↔ Committed tr i) ∧ (∀ x ∈ σ, Drew tr x.1 x.2) ∧
      (alone envs).Run d₀ σ d ∧ w.db.tables = d.tables ∧
      w.db.mail.outbox.rows.Perm d.mail.outbox.rows ∧
      w.db.mail.processed.Perm d.mail.processed ∧
      ∀ t₀, Conserved t₀ d₀.tables → Conserved t₀ w.db.tables := by
  obtain ⟨σ, hσ⟩ := exists_serialized hd h₀ h
  have hids : ((d₀.mail.outbox.rows ++ rowsOf σ).map OutboxRow.id).Nodup :=
    (hσ.outbox.map _).nodup_iff.1 w.db.mail.outbox.nodup
  obtain ⟨m, hrun, hrows, hproc⟩ :=
    alone_of_history hd hσ.trace hσ.nodup hσ.envelope hσ.events hids
  have hslots : (σ.map fun x => (x.2.slot, x.2.fresh)).map Prod.fst = slotsOf σ := by
    rw [List.map_map]
    rfl
  have hcons : ∀ t₀, Conserved t₀ d₀.tables → Conserved t₀ (⟨w.db.tables, m⟩ : Db).tables :=
    fun _ => conserved_alone hrun
  refine ⟨_, ⟨w.db.tables, m⟩, hslots ▸ hσ.nodup, fun i => hslots ▸ hσ.commits i, ?_, hrun, rfl,
    hrows ▸ hσ.outbox, hσ.processed.trans hproc.symm, hcons⟩
  intro x hx
  obtain ⟨z, hz, rfl⟩ := List.mem_map.1 hx
  exact hσ.drew z hz

/-- Three burgers are left.  Handler 1 finds that its order of four is short and rolls back to its
savepoint; handler 0 then reserves all three and commits before handler 1 does. -/
theorem serializable_burgers :
    let placed (e o : UUID) (n : ℤ) : Envelope :=
      ⟨e, .orderPlaced, 0, { orderId := some o, items := some [⟨1, n, 10⟩] }⟩
    let envs := [placed 1 7 3, placed 2 8 4]
    let d₀ : Db := ⟨⟨Table.empty.insert ⟨1, 3⟩, .empty⟩, .empty⟩
    let w₀ : World db Fresh Empty Handled :=
      ⟨d₀, envs.map fun env => some (.idle (handleMessage env)), []⟩
    ∃ tr w, (concurrently envs d₀).Trace w₀ tr w ∧ w.Ended ∧
      w.db.mail.outbox.rows.map (·.payload.eventType) = [.stockReserved, .stockRejected] ∧
      ∃ (σ : List (ℕ × Fresh)) (d : Db), (σ.map Prod.fst).Nodup ∧
        (∀ i, i ∈ σ.map Prod.fst ↔ Committed tr i) ∧ (∀ x ∈ σ, Drew tr x.1 x.2) ∧
        (alone envs).Run d₀ σ d ∧ w.db.tables = d.tables ∧
        w.db.mail.outbox.rows.Perm d.mail.outbox.rows ∧
        w.db.mail.processed.Perm d.mail.processed ∧
        ∀ t₀, Conserved t₀ d₀.tables → Conserved t₀ w.db.tables := by
  intro placed envs d₀ w₀
  let run : List (World.Label db Fresh Empty Handled) :=
    .begin 1 ⟨3, 4, 5, 0⟩ :: List.replicate 4 (.step 1) ++
      .begin 0 ⟨6, 7, 8, 0⟩ :: List.replicate 9 (.step 0) ++ List.replicate 3 (.step 1)
  have hrun : (LTS.runAct (World.act (S := db)) w₀ run).map (fun w =>
      (w.slots.length, w.slots.all Slot.returned,
        w.db.mail.outbox.rows.map (·.payload.eventType))) =
          some (2, true, [.stockReserved, .stockRejected]) := by decide +kernel
  obtain ⟨w, hw, hobs⟩ := Option.map_eq_some_iff.1 hrun
  obtain ⟨hlength, hobs⟩ := Prod.mk.inj hobs
  obtain ⟨hreturned, hrows⟩ := Prod.mk.inj hobs
  have hsteps : (concurrently envs d₀).Run w₀ run w := by
    refine LTS.run_of_runAct (fun w l hl => ?_) hw
    cases l with
    | start p => simp [run] at hl
    | «begin» i f => exact trivial
    | step i => exact fun _ _ _ => trivial
    | kill i => exact trivial
  have hend : w.Ended := .of_returned (fun hnil => by simp [hnil] at hlength) hreturned
  have hd : envs.Pairwise Unrelated := by
    refine List.pairwise_pair.2 ⟨by decide, ?_⟩
    rintro o ⟨⟩
    decide
  obtain ⟨tr, htr, -⟩ := hsteps.trace
  exact ⟨tr, w, htr, hend, hrows, serializable hd rfl htr⟩

end Restaurant

end FoodFlow
