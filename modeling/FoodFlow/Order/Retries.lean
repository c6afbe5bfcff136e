import FoodFlow.Order.Idempotency
import FoodFlow.Order.Lifecycle

/-!
# Retried requests

What a client that retries can rely on, with the transactions of the service interleaved statement
by statement.  Several requests under one key may all pass the idempotency check before one of them
has inserted its order; the unique constraint on the key then refuses the others, together with
their events: `retry_safe`.

* `Kept` : the orders fit their keys, their events and the requests that created them;
* `Opened` : what a transaction in progress can be, after the check as well as before;
* `ended_of_change` : a request that has changed the tables has been accepted.
-/

namespace FoodFlow

namespace Order

/-- The order is that of the user `u` under the key `k`, as the column stores it. -/
def Under (u : UUID) (k : String) (r : OrderRow) : Prop :=
  r.userId = u ∧ varchar? 255 (some k) = some r.idempotencyKey

instance (u : UUID) (k : String) (r : OrderRow) : Decidable (Under u k r) :=
  inferInstanceAs (Decidable (_ ∧ _))

/-- The orders of the user `u` under the key `k`. -/
def ordersUnder (d : Db) (u : UUID) (k : String) : List OrderRow :=
  d.tables.orders.rows.filter fun r => Under u k r

/-- The `order.placed` events of these orders. -/
def placedUnder (d : Db) (u : UUID) (k : String) : List OutboxRow :=
  d.mail.outbox.rows.filter fun x =>
    x.topic = .orderPlaced ∧ ∃ r ∈ ordersUnder d u k, r.id = x.key

/-- Any request may have been made. -/
def anyone (_ : Request) : Prop := True

/-- What holds of the committed tables. -/
structure Kept (d : Db) : Prop where
  sound : Sound d
  valid : Valid d.tables
  accounted : Accounted anyone d

/-- What an open transaction can be, with what becomes of its process after an exception. -/
inductive Opened (d : Db) : Tx db Process → (Err → Process) → Prop
  /-- It has just begun. -/
  | begun {t e} (f) : Point anyone d (.txn t e) → Opened d (t f) e
  /-- It has found that the event is new. -/
  | checked (env f) {e} : (∀ x, Point anyone d (e x)) → Opened d (handleBody env f) e
  /-- Its `SELECT` has decided what it returns. -/
  | decided {p e} : Point anyone d p → (∀ x, Point anyone d (e x)) → Opened d (.pure p) e

variable {d d' : Db} {p : Process} {t : Tx db Process} {e : Err → Process} {r : OrderRow}
  {req : Request} {a : Accepted} {u : UUID} {k : String}

/-! ### The keys -/

theorem Valid.place (h : Valid d.tables) {f : Fresh} (hrow : (newOrder req f.id).row? f.now = .ok r)
    (hviol : d.tables.violates? r = none) : Valid (apply (.addOrder r) d.tables) := by
  obtain ⟨hfree, hkeys⟩ := violates?_eq_none hviol
  have hrows : ∀ {r'}, r' ∈ (apply (.addOrder r) d.tables).orders.rows →
      r' ∈ d.tables.orders.rows ∨ r' = r := by
    intro r' hr'
    exact (Table.mem_rows_insert.1 hr').imp_right And.left
  -- no order that was there has the key of the new one
  have hnew : ∀ r' ∈ d.tables.orders.rows, ∀ key, r.idempotencyKey = some key →
      r'.idempotencyKey ≠ some key := fun r' hr' key hk =>
    byKey?_eq_none.1 (hkeys key hk) r' hr'
  refine ⟨fun r₁ h₁ r₂ h₂ key hk₁ hk₂ => ?_, fun r₁ h₁ key hk => ?_⟩
  · rcases hrows h₁ with hr₁ | rfl <;> rcases hrows h₂ with hr₂ | rfl
    · exact h.unique r₁ hr₁ r₂ hr₂ key hk₁ hk₂
    · exact absurd hk₁ (hnew r₁ hr₁ key hk₂)
    · exact absurd hk₂ (hnew r₂ hr₂ key hk₁)
    · rfl
  · rcases hrows h₁ with h₁ | rfl
    · exact h.column r₁ h₁ key hk
    · have hv := (row?_eq_ok hrow).2.2.2.2.2.2.2
      rw [hk] at hv
      cases hkey : (newOrder req f.id).idempotencyKey with
      | none => rw [hkey] at hv; cases hv
      | some k =>
        rw [hkey] at hv
        obtain ⟨k', hk', he⟩ := Option.map_eq_some_iff.1 hv
        exact varchar_idem (hk'.trans he)

theorem Commit.valid (h : Valid d.tables) (hc : Commit d d') : Valid d'.tables := by
  cases hc with
  | same => exact h
  | place req f p d' hrun =>
    obtain ⟨r, hrow, hviol, -, -, rfl⟩ := placeTx_ok hrun
    exact h.place hrow hviol
  | handle env f d' he =>
    cases he with
    | duplicate _ => exact h
    | unknown _ => exact h
    | transition o target _ _ _ _ _ =>
      -- the keys are those of the rows before the update
      have hold : ∀ {r'}, r' ∈ (apply (.setStatus o target f.now) d.tables).orders.rows →
          ∃ r ∈ d.tables.orders.rows, r'.idempotencyKey = r.idempotencyKey ∧
            ((if r.id = o then { r with status := target, updatedAt := f.now } else r) = r') := by
        intro r' hr'
        obtain ⟨r, hr, rfl⟩ := mem_rows_setStatus.1 hr'
        refine ⟨r, hr, ?_, rfl⟩
        split_ifs <;> rfl
      refine ⟨fun r₁ h₁ r₂ h₂ key hk₁ hk₂ => ?_, fun r₁ h₁ key hk => ?_⟩
      · obtain ⟨r₃, h₃, hk₃, rfl⟩ := hold h₁
        obtain ⟨r₄, h₄, hk₄, rfl⟩ := hold h₂
        rw [h.unique r₃ h₃ r₄ h₄ key (hk₃.symm.trans hk₁) (hk₄.symm.trans hk₂)]
      · obtain ⟨r₃, h₃, hk₃, -⟩ := hold h₁
        exact h.column r₃ h₃ key (hk₃.symm.trans hk)

/-- An accepted response names an order of the user under the key. -/
theorem Truthful.under (h : Truthful anyone d req a) (hu : req.user = u)
    (hk : req.idempotencyKey = some k) (hne : k ≠ "") :
    ∃ r ∈ ordersUnder d u k, r.id = a.id := by
  have mem : ∀ {r}, d.tables.orders.get? a.id = some r → Under u k r →
      ∃ r ∈ ordersUnder d u k, r.id = a.id := fun hr hrk =>
    ⟨_, List.mem_filter.2 ⟨Table.mem_of_get? hr, by simpa using hrk⟩, Table.key_of_get? hr⟩
  rcases h with ⟨r, hr, hd⟩ | ⟨-, req', -, ⟨r, hr, hd⟩, huser, key, hkey, hv⟩
  · exact mem hr ⟨hd.user.trans hu, hk ▸ hd.key⟩
  · rw [hk, truthy_some hne] at hkey
    obtain rfl := Option.some.inj hkey
    refine mem hr ⟨(hd.user.trans huser).trans hu, ?_⟩
    -- what is stored as the key is stored unchanged
    have hstored : r.idempotencyKey = some k := Option.some.inj (hd.key.symm.trans hv)
    cases hkey' : req'.idempotencyKey with
    | none => rw [hkey'] at hv; cases hv
    | some k' =>
      rw [hkey'] at hv
      obtain ⟨s, hs, he⟩ := Option.map_eq_some_iff.1 hv
      obtain rfl := Option.some.inj he
      rw [hstored, varchar?, varchar_idem hs, Option.map_some]

/-! ### The transactions -/

theorem Point.known (h : Point anyone d p) : Known p := by
  cases h with
  | create _ => exact .create _
  | place _ => exact .place _
  | handle env => exact .deliver env
  | handled _ _ => exact .done _
  | failed _ _ => exact .done _
  | accepted _ => exact .done _

theorem Opened.abort (h : Opened d t e) (x : Err) : Point anyone d (e x) := by
  cases h with
  | begun f hp => exact abort_point hp x
  | checked _ _ he => exact he x
  | decided _ he => exact he x

theorem Opened.mono (h : Opened d t e) (hk : Keeps d d') : Opened d' t e := by
  cases h with
  | begun f hp => exact .begun f (hp.mono hk)
  | checked env f he => exact .checked env f fun x => (he x).mono hk
  | decided hp he => exact .decided (hp.mono hk) fun x => (he x).mono hk

/-- What an open transaction has done when it commits. -/
theorem Opened.commit (hI : Accounted anyone d) (h : Opened d t e) (hrun : t.run d = .ok (p, d')) :
    Commit d d' ∧ Accounted anyone d' ∧ Point anyone d' p ∧ Keeps d d' := by
  cases h with
  | begun f hp =>
    exact ⟨((hp.known.running rfl f).1.commit hrun).2, commit_point hI hp hrun⟩
  | checked env f he =>
    obtain ⟨saved', h⟩ := Tx.run_eq_ok.1 hrun
    obtain ⟨rfl, heff⟩ := handleBody_ok h
    exact ⟨.handle env f d' heff, heff.accounted hI, .handled _ _, heff.keeps⟩
  | decided hp _ =>
    cases hrun
    exact ⟨.same, hI, hp, .refl d⟩

/-- An open transaction locks what it depends on, or does so after its first `SELECT`. -/
theorem Opened.shape (hI : Accounted anyone d) (h : Opened d t e) :
    (∀ d', t.Locking discipline d') ∨
      ∃ q k, t = .stmt q k ∧ ∀ r ws, db.exec q d = .ok (r, ws) →
        ws = [] ∧ Opened d (k r) e ∧ ∀ d', (k r).Locking discipline d' := by
  cases h with
  | checked env f _ => exact .inl fun _ => handleBody_locking
  | decided _ _ => exact .inl fun _ => trivial
  | @begun t e f hp =>
    have herr := abort_point hp
    have hcommit : ∀ p d', (t f).run d = .ok (p, d') → _ := fun p d' => commit_point hI hp
    generalize hq : Proc.txn t e = q at hp
    cases hp with
    | place _ =>
      obtain ⟨rfl, -⟩ := txn_eq_placeOrder hq
      exact .inl fun _ => placeTx_locking
    | handled _ _ => cases hq
    | failed _ _ => cases hq
    | accepted _ => cases hq
    | @create req _ =>
      obtain ⟨rfl, ⟨key, hkey, rfl⟩ | rfl⟩ := txn_eq_createOrder hq
      · refine .inr ⟨_, _, rfl, fun existing ws hx => ?_⟩
        simp only [exec] at hx
        split_ifs at hx with htext
        · cases hx
          -- what is returned is what the whole transaction returns
          have hpoint := fun p h => (hcommit p d h).2.1
          rw [run_lookupTx, if_pos htext] at hpoint
          refine ⟨rfl, ?_⟩
          cases hb : d.tables.byKeyAndUser? key req.user with
          | none => exact ⟨.decided (.place trivial) herr, fun _ => trivial⟩
          | some r =>
            rw [hb] at hpoint
            exact ⟨.decided (hpoint _ rfl) herr, fun _ => trivial⟩
        · cases hx
      · exact .inl fun _ => placeTx_locking
    | handle env =>
      cases hq
      refine .inr ⟨_, _, rfl, fun existing ws hx => ?_⟩
      cases hx
      refine ⟨rfl, ?_⟩
      have hcheck : ∀ existing : Bool,
          Opened d (if existing then pure (returned env) else handleBody env f)
            (fun x => .done (.handled env (.error x))) ∧
          ∀ d', Tx.Locking discipline
            (if existing then pure (returned env) else handleBody env f) d' := by
        intro existing
        cases existing with
        | true => exact ⟨.decided (.handled _ _) herr, fun _ => trivial⟩
        | false => exact ⟨.checked env f herr, fun _ => handleBody_locking⟩
      exact hcheck _

theorem retrySerial : World.Serial discipline concurrentRules (· = migrated) Kept
    (fun d => Point anyone d) Opened where
  init := by
    rintro _ rfl
    refine ⟨sound_migrated, ⟨?_, ?_⟩, ?_⟩ <;> intro r hr <;> cases hr
  start := by
    rintro d p - (⟨req, rfl⟩ | ⟨env, rfl⟩)
    · exact .create trivial
    · exact .handle env
  begin d f t e _ _ hp := .begun f hp
  call d o k _ _ := o.elim
  shape d t e hI ht := ht.shape hI.accounted
  commit d t e p d' hI ht hrun :=
    have ⟨hc, ha, hp, hk⟩ := ht.commit hI.accounted hrun
    ⟨⟨hc.sound hI.sound, hc.valid hI.valid, ha⟩, hp, fun _ h => h.mono hk, fun _ _ h => h.mono hk⟩
  abort d t e x _ ht := ht.abort x

variable {w w' : World db Fresh Empty Reply} {l : World.Label db Fresh Empty Reply} {i : ℕ}

/-! ### Requests that fail -/

/-- A process that has been killed, or has ended without the failure of a request. -/
def Ended (s : Option (Slot db Fresh Empty Reply)) : Prop :=
  s = none ∨ ∃ r, s = some (.idle (.done r)) ∧ ∀ req e, r ≠ .response req (.error e)

/-- What a transaction that changes the tables returns. -/
theorem Opened.ended_of_change (h : Opened d t e) (hrun : t.run d = .ok (p, d')) (hne : d' ≠ d) :
    Ended (some (.idle p)) := by
  have place : ∀ {req f}, (placeTx req f).run d = .ok (p, d') → Ended (some (.idle p)) := by
    intro req f hrun
    obtain ⟨-, -, -, -, rfl, -⟩ := placeTx_ok hrun
    exact .inr ⟨_, rfl, fun _ _ h => by cases h⟩
  cases h with
  | checked env f _ =>
    obtain ⟨saved', h⟩ := Tx.run_eq_ok.1 hrun
    obtain ⟨rfl, -⟩ := handleBody_ok h
    exact .inr ⟨_, rfl, fun _ _ h => by cases h⟩
  | decided _ _ =>
    cases hrun
    exact absurd rfl hne
  | @begun t e f hp =>
    generalize hq : Proc.txn t e = q at hp
    cases hp with
    | place _ =>
      obtain ⟨rfl, -⟩ := txn_eq_placeOrder hq
      exact place hrun
    | handled _ _ => cases hq
    | failed _ _ => cases hq
    | accepted _ => cases hq
    | create _ =>
      obtain ⟨-, ⟨key, -, rfl⟩ | rfl⟩ := txn_eq_createOrder hq
      · exact absurd (lookupTx_ok hrun).1 hne
      · exact place hrun
    | handle env =>
      cases hq
      obtain ⟨rfl, -⟩ := handleTx_ok hrun
      exact .inr ⟨_, rfl, fun _ _ h => by cases h⟩

/-- A step of the process `i` that changes the tables. -/
def ChangedBy (i : ℕ) (x : World db Fresh Empty Reply × World.Label db Fresh Empty Reply) :
    Prop :=
  x.2 = .step i ∧ ∃ w', concurrent.step x.1 x.2 w' ∧ w'.db ≠ x.1.db

/-- **A process that has changed the tables has not failed.** -/
theorem ended_of_change {w₀ : World db Fresh Empty Reply} (h₀ : concurrent.init w₀)
    {tr : List (World db Fresh Empty Reply × World.Label db Fresh Empty Reply)}
    (h : concurrent.Trace w₀ tr w) (i : ℕ) {x} (hx : x ∈ tr) (hc : ChangedBy i x) :
    ∃ s, w.slots[i]? = some s ∧ Ended s := by
  refine h.invariant (I := fun tr w => ∀ x ∈ tr, ChangedBy i x →
    ∃ s, w.slots[i]? = some s ∧ Ended s) (fun x hx => by cases hx) ?_ x hx hc
  intro tr w l w' hrun ih hst x hx hc
  rcases List.mem_append.1 hx with hx | hx
  · -- it had changed them before, and stays as it is
    obtain ⟨s, hs, hend⟩ := ih x hx hc
    rcases World.ended_step hst hs (hend.imp_right fun ⟨r, hr, _⟩ => ⟨r, hr⟩) with hs' | hs'
    · exact ⟨s, hs', hend⟩
    · exact ⟨none, hs', .inl rfl⟩
  · obtain rfl := List.mem_singleton.1 hx
    obtain ⟨hl, w'', hst', hne⟩ := hc
    -- a label leads to one state only
    obtain rfl : w'' = w' := Option.some.inj (hst'.2.symm.trans hst.2)
    have hreach : concurrent.Reachable w := ⟨w₀, _, h₀, hrun⟩
    obtain ⟨-, hslots⟩ := retrySerial.invariant hreach
    cases World.step_cases hst with
    | start _ => exact absurd rfl hne
    | «begin» _ _ => exact absurd rfl hne
    | call _ => exact absurd rfl hne
    | go _ _ _ _ => exact absurd rfl hne
    | abort _ _ => exact absurd rfl hne
    | kill _ => exact absurd rfl hne
    | @commit j c p e hj hn =>
      obtain rfl := World.Label.step.inj hl
      have hK : World.Open discipline Opened w.db c e := hslots _ (List.mem_of_getElem? hj)
      obtain ⟨t, ht, hrun, -⟩ := hK.run_of_commit hn
      obtain ⟨hlt, -⟩ := List.getElem?_eq_some_iff.1 hj
      exact ⟨_, List.getElem?_set_self hlt, ht.ended_of_change hrun hne⟩

/-! ### Every run -/

theorem length_ordersUnder (h : Valid d.tables) (u : UUID) (k : String) :
    (ordersUnder d u k).length ≤ 1 := by
  have hall : ∀ r ∈ ordersUnder d u k, ∀ r' ∈ ordersUnder d u k, r = r' := by
    intro r hr r' hr'
    obtain ⟨hr, hu⟩ := List.mem_filter.1 hr
    obtain ⟨hr', hu'⟩ := List.mem_filter.1 hr'
    obtain ⟨-, hk⟩ := of_decide_eq_true hu
    obtain ⟨-, hk'⟩ := of_decide_eq_true hu'
    -- a key that can be stored is not absent
    obtain ⟨s, hs, he⟩ := Option.map_eq_some_iff.1 hk
    have hkeys := Option.some.inj (hk.symm.trans hk')
    exact h.unique r hr r' hr' s he.symm (hkeys ▸ he.symm)
  have hnodup : (ordersUnder d u k).Nodup := (List.Nodup.of_map _ d.tables.orders.nodup).filter _
  generalize ordersUnder d u k = rows at hall hnodup
  match rows with
  | [] => exact Nat.zero_le _
  | [r] => exact Nat.le_refl _
  | r :: r' :: rows =>
    obtain rfl := hall r List.mem_cons_self r' (List.mem_cons_of_mem _ List.mem_cons_self)
    simp at hnodup

theorem length_placedUnder (h : Kept d) (u : UUID) (k : String) :
    (placedUnder d u k).length ≤ 1 := by
  have hlen := length_ordersUnder h.valid u k
  rw [placedUnder]
  match horders : ordersUnder d u k with
  | [] => simp
  | [r] =>
    have hr : r ∈ d.tables.orders.rows := by
      have hm : r ∈ ordersUnder d u k := horders ▸ List.mem_singleton_self r
      exact (List.mem_filter.1 hm).1
    have hone := h.sound.placed r hr
    rw [published, List.countP_eq_length_filter] at hone
    refine le_of_eq (Eq.trans (congrArg List.length ?_) hone)
    congr 1
    funext x
    simp [eq_comm]
  | r :: r' :: rows =>
    rw [horders] at hlen
    simp at hlen

/-- **Retry-safe order creation.**  In every run, with the transactions interleaved statement by
statement, for every user and every key that is not empty: there is at most one order of the user
under the key and at most one `order.placed` event of such an order; every request of the user with
the key that is accepted is answered with the id of that order; and a request that is answered with
an error has not changed the tables. -/
theorem retry_safe {w₀ : World db Fresh Empty Reply} (h₀ : concurrent.init w₀)
    {tr : List (World db Fresh Empty Reply × World.Label db Fresh Empty Reply)}
    (h : concurrent.Trace w₀ tr w) (u : UUID) {k : String} (hk : k ≠ "") :
    (ordersUnder w.db u k).length ≤ 1 ∧ (placedUnder w.db u k).length ≤ 1 ∧
    (∀ req a, some (.idle (.done (.response req (.ok a)))) ∈ w.slots → req.user = u →
      req.idempotencyKey = some k → ∃ r, ordersUnder w.db u k = [r] ∧ a.id = r.id) ∧
    ∀ i req e, w.slots[i]? = some (some (.idle (.done (.response req (.error e))))) →
      ∀ x ∈ tr, ¬ ChangedBy i x := by
  obtain ⟨hI, hslots⟩ := retrySerial.invariant (h.reachable h₀)
  have hone := length_ordersUnder hI.valid u k
  refine ⟨hone, length_placedUnder hI u k, fun req a hm hu hkey => ?_, fun i req e hi x hx hc => ?_⟩
  · have hpoint : Point anyone w.db (.done (.response req (.ok a))) := hslots _ hm
    obtain ⟨r, hr, hid⟩ := hpoint.truthful.under hu hkey hk
    obtain ⟨r', hr'⟩ := List.length_eq_one_iff.1
      (Nat.le_antisymm hone (List.length_pos_of_mem hr))
    rw [hr'] at hr
    exact ⟨r', hr', by rw [← hid, List.mem_singleton.1 hr]⟩
  · obtain ⟨s, hs, hend⟩ := ended_of_change h₀ h i hx hc
    obtain rfl := Option.some.inj (hs.symm.trans hi)
    rcases hend with hend | ⟨r, hr, hok⟩
    · cases hend
    · cases hr
      exact hok req e rfl

/-- Two requests under one key both find nothing, so both insert: the second one is refused by the
unique constraint.  A third one finds the order. -/
theorem retry_safe_overtaken :
    let req : Request := ⟨1, ⟨5, [⟨1, 1, 10⟩]⟩, none, some "k"⟩
    let taken : Err := .sql (.uniqueViolation "orders_idempotency_key_key")
    let run : List (World.Label db Fresh Empty Reply) :=
      [.start (createOrder req), .start (createOrder req), .begin 0 ⟨0, 0, 0, 0⟩,
        .begin 1 ⟨0, 0, 0, 0⟩, .step 0, .step 1, .step 0, .step 1, .begin 0 ⟨70, 1, 2, 0⟩,
        .begin 1 ⟨80, 3, 4, 0⟩, .step 0, .step 0, .step 0, .step 1, .start (createOrder req),
        .begin 2 ⟨0, 0, 0, 0⟩, .step 2, .step 2]
    ∃ tr w, concurrent.Trace (World.idle migrated) tr w ∧ tr.map Prod.snd = run ∧
      w.slots.map Slot.reply? =
        [some (.response req (.ok ⟨70, .pending, "Order accepted for processing"⟩)),
          some (.response req (.error taken)),
          some (.response req (.ok ⟨70, .pending, replayMessage⟩))] ∧
      (∃ r, ordersUnder w.db 1 "k" = [r] ∧ 70 = r.id) ∧ (placedUnder w.db 1 "k").length ≤ 1 ∧
      ∀ x ∈ tr, ¬ ChangedBy 1 x := by
  intro req taken run
  have hrun : (LTS.runAct (World.act (S := db)) (World.idle migrated) run).map
      (fun w => w.slots.map Slot.reply?) =
        some [some (.response req (.ok ⟨70, .pending, "Order accepted for processing"⟩)),
          some (.response req (.error taken)),
          some (.response req (.ok ⟨70, .pending, replayMessage⟩))] := by
    decide +kernel
  obtain ⟨w, hw, hobs⟩ := Option.map_eq_some_iff.1 hrun
  have hr : concurrent.Run (World.idle migrated) run w := by
    refine LTS.run_of_runAct ?_ hw
    intro s l hl
    cases l with
    | start p =>
      have hp : p = createOrder req := by simpa [run] using hl
      exact .inl ⟨req, hp⟩
    | «begin» i f => trivial
    | step i => exact fun _ _ _ => trivial
    | kill i => trivial
  obtain ⟨tr, htr, hls⟩ := hr.trace
  obtain ⟨-, hplaced, hnames, hfails⟩ :=
    retry_safe ⟨migrated, rfl, rfl⟩ htr 1 (k := "k") (by decide)
  have hslot : ∀ (i : ℕ) (r : Reply), (w.slots.map Slot.reply?)[i]? = some (some r) →
      w.slots[i]? = some (some (Slot.idle (.done r))) := by
    intro i r hi
    rw [List.getElem?_map] at hi
    obtain ⟨s, hs, hreply⟩ := Option.map_eq_some_iff.1 hi
    rw [hs, Slot.reply?_eq_some.1 hreply]
  refine ⟨tr, w, htr, hls, hobs,
    hnames req ⟨70, .pending, replayMessage⟩ ?_ rfl rfl, hplaced, hfails 1 req taken ?_⟩
  · exact List.mem_of_getElem? (hslot 2 _ (by rw [hobs]; rfl))
  · exact hslot 1 _ (by rw [hobs]; rfl)

end Order

end FoodFlow
