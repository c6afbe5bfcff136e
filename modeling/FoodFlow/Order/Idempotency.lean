import FoodFlow.Order.Consumers
import FoodFlow.Sql.Node

/-!
# Idempotency keys

What the answer to `POST /orders` depends on, and what it says.

* `answers_iff` : the kind of answer of a request that is served alone;
* `answer_independent_iff` : **it depends on the orders of other users exactly when** the request
  has a key, could be stored, and its user has no order under the key: the lookup goes by key and
  user, the unique constraint by the key alone;
* `accepted_describes` : the order named in a response 202 has the contents of the request that
  created it: this one, or an earlier one of the same user whose key was stored as this one's.
-/

namespace FoodFlow

namespace Order

/-! ### The kind of an answer -/

/-- What a request is answered with. -/
inductive Kind where
  | failed
  | created
  | existing
  deriving DecidableEq, Repr

/-- The kind of a result, for a request served from the tables `t`: an order accepted is a new one
or one that was there. -/
def kindOf (t : Tables) : Except Err Accepted → Kind
  | .error _ => .failed
  | .ok a => if (t.orders.get? a.id).isSome then .existing else .created

/-- The UUIDs drawn are new. -/
def FreshIn (d : Db) (f : Fresh) : Prop :=
  d.tables.orders.get? f.id = none ∧ d.mail.outbox.get? f.rowId = none

/-- A request served alone from `d` is answered with `k`. -/
def Answers (d : Db) (req : Request) (k : Kind) : Prop :=
  ∃ d' result, Proc.Finishes FreshIn d (createOrder req) d' (.response req result) [] ∧
    k = kindOf d.tables result

/-- What an insertion of the order of a request answers. -/
def insertKind (t : Tables) (req : Request) : Kind :=
  if overflows req.body then .failed
  else match (newOrder req 0).row? 0 with
    | .error _ => .failed
    | .ok r => if (r.idempotencyKey.bind t.byKey?).isSome then .failed else .created

/-- What a request is answered with. -/
def answerKind (t : Tables) (req : Request) : Kind :=
  match truthy req.idempotencyKey with
  | none => insertKind t req
  | some key =>
    if !isText key then .failed
    else if (t.byKeyAndUser? key req.user).isSome then .existing
    else insertKind t req

variable {req : Request} {f : Fresh} {d d' : Db} {p : Process} {r : OrderRow} {t t' : Tables}
  {k : Kind}

/-- Whether a row can be stored, and under which key, does not depend on what is drawn. -/
theorem row?_key (id id' : UUID) (now now' : Time) :
    ((newOrder req id).row? now).map OrderRow.idempotencyKey =
      ((newOrder req id').row? now').map OrderRow.idempotencyKey := by
  simp only [NewOrder.row?, newOrder]
  cases itemsData req.body.items with
  | none => rfl
  | some items =>
    cases (totalAmount req.body).value?.bind decimal with
    | none => rfl
    | some cents =>
      cases varchar? 20 req.xPaymentSimulate with
      | none => rfl
      | some directive => cases varchar? 255 req.idempotencyKey <;> rfl

/-- The transaction that creates an order, with new UUIDs. -/
theorem run_placeTx (hf : FreshIn d f) : (placeTx req f).run d =
    match (newOrder req f.id).row? f.now with
    | .error e => .error (.sql e)
    | .ok r =>
      if (r.idempotencyKey.bind d.tables.byKey?).isSome then
        .error (.sql (.uniqueViolation "orders_idempotency_key_key"))
      else .ok (accepted req f.id, ⟨apply (.addOrder r) d.tables,
        Mail.apply (.addOutbox (placedRow req f)) d.mail⟩) := by
  obtain ⟨hid, hout⟩ := hf
  rw [Tx.run, placeTx, Tx.bind_def, eval_insertOrder]
  cases hr : (newOrder req f.id).row? f.now with
  | error e => rfl
  | ok r =>
    have hrid : r.id = f.id := (row?_eq_ok hr).1
    simp only [Tables.violates?, hrid, hid, Option.isSome_none, Bool.false_eq_true, if_false]
    split_ifs with hk
    · rfl
    · simp only
      rw [publishTx, Tx.bind_def, Mail.eval_insertOutbox, if_neg (by simp [hout])]
      rfl

/-- The idempotency check. -/
theorem run_lookupTx {key : String} : (lookupTx req key f).run d =
    if isText key then
      .ok (match d.tables.byKeyAndUser? key req.user with
        | some r => replayed req (r.id, r.status)
        | none => placeOrder req, d)
    else .error (.sql (.dataError "idempotency_key")) := by
  rw [Tx.run, lookupTx, Tx.bind_def, eval_selectByKey]
  split_ifs
  · cases d.tables.byKeyAndUser? key req.user <;> rfl
  · rfl

/-- The kind of answer that the insertion of an order gives. -/
theorem placeOrder_kind {result : Except Err Accepted} {os : List Empty}
    (h : Proc.Finishes FreshIn d (placeOrder req) d' (.response req result) os) :
    kindOf d.tables result = insertKind d.tables req := by
  by_cases ho : overflows req.body = true
  · rw [placeOrder_of_overflows ho] at h
    obtain ⟨-, hres, -⟩ := h.of_done
    obtain rfl := (Reply.response.inj hres).2
    rw [insertKind, if_pos ho]
    rfl
  rw [placeOrder_of_not_overflows ho] at h
  obtain ⟨f, hf, h⟩ := h.of_txn
  -- the row of the statement and that of `insertKind` differ in what has been drawn only
  have hkey := @row?_key req 0 f.id 0 f.now
  rw [run_placeTx hf] at h
  rw [insertKind, if_neg ho]
  cases hr : (newOrder req f.id).row? f.now with
  | error e =>
    rw [hr] at h hkey
    obtain ⟨p, d₁, ⟨⟩, -⟩ | ⟨x, -, h⟩ := h
    obtain ⟨-, hres, -⟩ := h.of_done
    obtain rfl := (Reply.response.inj hres).2
    cases hr₀ : (newOrder req 0).row? 0 with
    | error e => rfl
    | ok r₀ => rw [hr₀] at hkey; cases hkey
  | ok r =>
    rw [hr] at h hkey
    cases hr₀ : (newOrder req 0).row? 0 with
    | error e => rw [hr₀] at hkey; cases hkey
    | ok r₀ =>
      rw [hr₀] at hkey
      have hk : r₀.idempotencyKey = r.idempotencyKey := Except.ok.inj hkey
      simp only [hk] at h ⊢
      split_ifs at h ⊢ with hb
      · obtain ⟨p, d₁, ⟨⟩, -⟩ | ⟨x, -, h⟩ := h
        obtain ⟨-, hres, -⟩ := h.of_done
        obtain rfl := (Reply.response.inj hres).2
        rfl
      · obtain ⟨p, d₁, hp, h⟩ | ⟨x, ⟨⟩, -⟩ := h
        cases hp
        obtain ⟨-, hres, -⟩ := h.of_done
        obtain rfl := (Reply.response.inj hres).2
        simp [kindOf, hf.1]

theorem exists_freshIn (d : Db) : ∃ f, FreshIn d f := by
  obtain ⟨id, hid⟩ := d.tables.orders.exists_get?_eq_none
  obtain ⟨rowId, hrow⟩ := d.mail.outbox.exists_get?_eq_none
  exact ⟨⟨id, 0, rowId, 0⟩, hid, hrow⟩

/-- Served alone, the insertion of an order is answered. -/
theorem placeOrder_finishes (d : Db) (req : Request) : ∃ d' result,
    Proc.Finishes FreshIn d (placeOrder req) d' (.response req result) [] := by
  by_cases ho : overflows req.body = true
  · rw [placeOrder_of_overflows ho]
    exact ⟨_, _, .done⟩
  rw [placeOrder_of_not_overflows ho]
  obtain ⟨f, hf⟩ := exists_freshIn d
  cases hrun : (placeTx req f).run d with
  | error e => exact ⟨_, _, .abort hf hrun .done⟩
  | ok v =>
    obtain ⟨p, d₁⟩ := v
    obtain ⟨r, -, -, -, rfl, -⟩ := placeTx_ok hrun
    exact ⟨_, _, .commit hf hrun .done⟩

/-- Served alone, a request is answered. -/
theorem createOrder_finishes (d : Db) (req : Request) : ∃ d' result,
    Proc.Finishes FreshIn d (createOrder req) d' (.response req result) [] := by
  unfold createOrder
  cases truthy req.idempotencyKey with
  | none => exact placeOrder_finishes d req
  | some key =>
    obtain ⟨f, hf⟩ := exists_freshIn d
    have hrun := @run_lookupTx req f d key
    split_ifs at hrun with htext
    · cases hb : d.tables.byKeyAndUser? key req.user with
      | none =>
        rw [hb] at hrun
        obtain ⟨d', result, h⟩ := placeOrder_finishes d req
        exact ⟨d', result, .commit hf hrun h⟩
      | some r =>
        rw [hb] at hrun
        exact ⟨_, _, .commit hf hrun .done⟩
    · exact ⟨_, _, .abort hf hrun .done⟩

/-- **What a request served alone is answered with.** -/
theorem answers_iff : Answers d req k ↔ k = answerKind d.tables req := by
  -- whatever is drawn, the kind of the answer is the one given
  have unique : ∀ k, Answers d req k → k = answerKind d.tables req := by
    rintro k ⟨d', result, h, rfl⟩
    unfold createOrder at h
    unfold answerKind
    cases hkey : truthy req.idempotencyKey with
    | none =>
      rw [hkey] at h
      exact placeOrder_kind h
    | some key =>
      rw [hkey] at h
      obtain ⟨f, hf, h⟩ := h.of_txn
      rw [run_lookupTx] at h
      by_cases htext : isText key
      · rw [if_pos htext] at h
        obtain ⟨p, d₁, hp, h⟩ | ⟨x, ⟨⟩, -⟩ := h
        cases hp
        cases hb : d.tables.byKeyAndUser? key req.user with
        | none =>
          rw [hb] at h
          simpa [htext, hb] using placeOrder_kind h
        | some r =>
          rw [hb] at h
          obtain ⟨-, hres, -⟩ := h.of_done
          obtain rfl := (Reply.response.inj hres).2
          have hr : d.tables.orders.get? r.id = some r :=
            Table.get?_of_mem (List.mem_of_find?_eq_some hb)
          simp [kindOf, hr, htext, hb]
      · rw [if_neg htext] at h
        obtain ⟨p, d₁, ⟨⟩, -⟩ | ⟨x, -, h⟩ := h
        obtain ⟨-, hres, -⟩ := h.of_done
        obtain rfl := (Reply.response.inj hres).2
        simp [kindOf, htext]
  refine ⟨unique k, ?_⟩
  -- and there is an answer
  rintro rfl
  obtain ⟨d', result, h⟩ := createOrder_finishes d req
  have hk : Answers d req (kindOf d.tables result) := ⟨d', result, h, rfl⟩
  exact unique _ hk ▸ hk

/-! ### Orders of other users -/

/-- What the constraints and the column types of `orders` say about the keys. -/
structure Valid (t : Tables) : Prop where
  unique : ∀ r ∈ t.orders.rows, ∀ r' ∈ t.orders.rows, ∀ key, r.idempotencyKey = some key →
    r'.idempotencyKey = some key → r = r'
  column : ∀ r ∈ t.orders.rows, ∀ key, r.idempotencyKey = some key → varchar 255 key = some key

/-- The two states have the same orders of the user `u`. -/
def Agree (u : UUID) (t t' : Tables) : Prop :=
  t.orders.rows.filter (·.userId = u) = t'.orders.rows.filter (·.userId = u)

instance (u : UUID) (t t' : Tables) : Decidable (Agree u t t') :=
  inferInstanceAs (Decidable (_ = _))

/-- The answer to a request is a matter between the service and its user: the request has no key,
or its total cannot be computed, or it cannot be stored, or its user has an order under the key. -/
def OwnAnswer (t : Tables) (req : Request) : Prop :=
  req.idempotencyKey = none ∨ overflows req.body = true ∨
    (∃ e, (newOrder req 0).row? 0 = .error e) ∨
    ∃ r ∈ t.orders.rows, r.userId = req.user ∧ ∃ key, r.idempotencyKey = some key ∧
      varchar? 255 req.idempotencyKey = some (some key)

theorem Agree.mem {u : UUID} (h : Agree u t t') {r : OrderRow} (hr : r ∈ t.orders.rows)
    (hu : r.userId = u) : r ∈ t'.orders.rows := by
  have hm : r ∈ t.orders.rows.filter (·.userId = u) := List.mem_filter.2 ⟨hr, by simpa using hu⟩
  rw [h] at hm
  exact (List.mem_filter.1 hm).1

theorem Agree.byKeyAndUser? {u : UUID} (h : Agree u t t') (key : String) :
    t.byKeyAndUser? key u = t'.byKeyAndUser? key u := by
  have hfind : ∀ t : Tables, t.byKeyAndUser? key u =
      (t.orders.rows.filter (·.userId = u)).find? fun r => r.idempotencyKey = some key := by
    intro t
    rw [Tables.byKeyAndUser?, List.find?_filter]
    congr 1
    funext r
    simp [and_comm]
  rw [hfind, hfind, h]

theorem byKey?_isSome {key : String} :
    (t.byKey? key).isSome ↔ ∃ r ∈ t.orders.rows, r.idempotencyKey = some key := by
  simp [Tables.byKey?]

theorem insertKind_of_key {key : String} (ho : ¬ overflows req.body = true)
    (hr : (newOrder req 0).row? 0 = .ok r) (hk : r.idempotencyKey = some key) :
    insertKind t req = if (t.byKey? key).isSome then .failed else .created := by
  rw [insertKind, if_neg ho, hr]
  simp only [hk, Option.bind_some]

theorem OwnAnswer.answerKind_eq (h : OwnAnswer t req) (ha : Agree req.user t t') :
    answerKind t req = answerKind t' req := by
  have hinsert : insertKind t req = insertKind t' req := by
    unfold insertKind
    split_ifs with hover
    · rfl
    cases hr : (newOrder req 0).row? 0 with
    | error e => rfl
    | ok r =>
      have hcol := (row?_eq_ok hr).2.2.2.2.2.2.2
      rcases h with hkey | ho | ⟨e, he⟩ | ⟨r', hr', hu, key, hk, hv⟩
      · -- without a key, no other order is in the way
        have hnone : r.idempotencyKey = none := by
          rw [newOrder, hkey] at hcol
          exact (Option.some.inj hcol).symm
        simp [hnone]
      · exact absurd ho hover
      · rw [hr] at he; cases he
      · -- the user's own order is in the way
        have hkr : r.idempotencyKey = some key := Option.some.inj (hcol.symm.trans hv)
        have h₁ := byKey?_isSome.2 ⟨r', hr', hk⟩
        have h₂ := byKey?_isSome.2 ⟨r', ha.mem hr' hu, hk⟩
        simp [hkr, h₁, h₂]
  unfold answerKind
  simp only [hinsert, ha.byKeyAndUser?]

/-- The orders of one user. -/
def Tables.ofUser (t : Tables) (u : UUID) : Tables where
  orders := ⟨t.orders.rows.filter (·.userId = u), t.orders.nodup.sublist
    (List.filter_sublist.map OrderRow.id)⟩

theorem agree_ofUser (u : UUID) : Agree u t (t.ofUser u) := by
  simp [Agree, Tables.ofUser]

theorem Valid.ofUser (h : Valid t) (u : UUID) : Valid (t.ofUser u) where
  unique r hr r' hr' := h.unique r (List.mem_filter.1 hr).1 r' (List.mem_filter.1 hr').1
  column r hr := h.column r (List.mem_filter.1 hr).1

/-- With an order of another user under the key of the request. -/
theorem exists_taken (h : Valid t) {u : UUID} {key : String} (hkey : varchar 255 key = some key)
    (hfree : ∀ r ∈ t.orders.rows, r.userId = u → r.idempotencyKey ≠ some key) :
    ∃ t', Valid t' ∧ Agree u t t' ∧ (t'.byKey? key).isSome := by
  obtain ⟨id, hid⟩ := (t.ofUser u).orders.exists_get?_eq_none
  -- the orders of the user, and one of somebody else under the key
  let other : OrderRow := ⟨id, u + 1, 0, [], 0, .pending, none, some key, 0, 0⟩
  have hrows : ((t.ofUser u).orders.insert other).rows = (t.ofUser u).orders.rows ++ [other] :=
    Table.rows_insert hid
  have hown : ∀ r ∈ (t.ofUser u).orders.rows, r.idempotencyKey ≠ some key := by
    intro r hr
    obtain ⟨hr, hu⟩ := List.mem_filter.1 hr
    exact hfree r hr (by simpa using hu)
  refine ⟨⟨(t.ofUser u).orders.insert other⟩, ⟨?_, ?_⟩, ?_, ?_⟩
  · intro r hr r' hr' k hk hk'
    simp only [hrows, List.mem_append, List.mem_singleton] at hr hr'
    rcases hr with hr | rfl <;> rcases hr' with hr' | rfl
    · exact (h.ofUser u).unique r hr r' hr' k hk hk'
    · exact absurd (hk.trans hk'.symm) (hown r hr)
    · exact absurd (hk'.trans hk.symm) (hown r' hr')
    · rfl
  · intro r hr k hk
    simp only [hrows, List.mem_append, List.mem_singleton] at hr
    rcases hr with hr | rfl
    · exact (h.ofUser u).column r hr k hk
    · obtain rfl := Option.some.inj hk
      exact hkey
  · rw [Agree, hrows, List.filter_append]
    simp [Tables.ofUser, other]
  · exact byKey?_isSome.2 ⟨other, by simp [hrows], rfl⟩

theorem varchar_idem {n : ℕ} {s s' : String} (h : varchar n s = some s') :
    varchar n s' = some s' := by
  unfold varchar at h ⊢
  split_ifs at h with htext hlen hsp
  · obtain rfl := Option.some.inj h
    rw [if_neg htext, if_pos hlen]
  · obtain rfl := Option.some.inj h
    -- what is left after the cut fits into the column
    have htext' : isText (String.ofList (s.toList.take n)) = true := by
      have h₀ : isText s = true := by simpa using htext
      simp only [isText, decide_eq_true_eq, String.toList_ofList] at h₀ ⊢
      exact fun hm => h₀ (List.mem_of_mem_take hm)
    simp only [htext', Bool.not_true, Bool.false_eq_true, if_false, String.toList_ofList]
    rw [if_pos (by rw [List.length_take]; omega)]

/-- **The kind of answer to `POST /orders` depends on the orders of other users exactly when it is
not the user's own matter**: for any state and request, all states with the same orders of the
user answer alike if and only if the request has no key, or its total cannot be computed, or it
cannot be stored, or its user has an order under the key. -/
theorem answer_independent_iff (d : Db) (h : Valid d.tables) (req : Request) :
    (∀ d', Valid d'.tables → Agree req.user d.tables d'.tables →
      ∀ k, Answers d req k ↔ Answers d' req k) ↔ OwnAnswer d.tables req := by
  constructor
  · intro hall
    by_contra hown
    simp only [OwnAnswer, not_or, not_exists, not_and] at hown
    obtain ⟨hkey, hover, hrow, hfree⟩ := hown
    cases hr : (newOrder req 0).row? 0 with
    | error e => exact hrow e hr
    | ok r =>
      obtain ⟨s, hs⟩ := Option.ne_none_iff_exists'.1 hkey
      have hcol : varchar? 255 req.idempotencyKey = some r.idempotencyKey :=
        (row?_eq_ok hr).2.2.2.2.2.2.2
      rw [hs] at hcol
      obtain ⟨key, hv, hk⟩ := Option.map_eq_some_iff.1 hcol
      have hfree' : ∀ r ∈ d.tables.orders.rows, r.userId = req.user →
          r.idempotencyKey ≠ some key := by
        intro r' hr' hu hk'
        exact hfree r' hr' hu key hk' (by rw [hs, varchar?, hv]; rfl)
      -- in a state without the key among the user's orders, only the insertion decides
      have hinsert : ∀ t, Valid t → Agree req.user d.tables t →
          answerKind t req = insertKind t req := by
        intro t ht ha
        have htext : isText s = true := by
          unfold varchar at hv
          split_ifs at hv with h₀ <;> simpa using h₀
        have hnone : t.byKeyAndUser? s req.user = none := by
          rw [← ha.byKeyAndUser?]
          refine List.find?_eq_none.2 fun r' hr' hp => ?_
          obtain ⟨hk', hu⟩ := of_decide_eq_true hp
          have : s = key := Option.some.inj ((h.column r' hr' s hk').symm.trans hv)
          exact hfree' r' hr' hu (this ▸ hk')
        unfold answerKind
        rw [hs]
        by_cases he : s = ""
        · rw [he, truthy_empty]
        · simp [truthy_some he, htext, hnone]
      -- the user's orders alone, and with an order of somebody else under the key
      obtain ⟨t', ht', ha', htaken⟩ := exists_taken h (varchar_idem hv) hfree'
      have hlone : ((d.tables.ofUser req.user).byKey? key).isSome = false := by
        rw [Bool.eq_false_iff]
        intro hsome
        obtain ⟨r', hr', hk'⟩ := byKey?_isSome.1 hsome
        obtain ⟨hr', hu⟩ := List.mem_filter.1 hr'
        exact hfree' r' hr' (by simpa using hu) hk'
      have h₁ := hall ⟨d.tables.ofUser req.user, d.mail⟩ (h.ofUser _) (agree_ofUser _)
      have h₂ := hall ⟨t', d.mail⟩ ht' ha'
      simp only [answers_iff, hinsert _ (h.ofUser _) (agree_ofUser _), hinsert t' ht' ha',
        insertKind_of_key hover hr hk.symm, hlone, htaken] at h₁ h₂
      have := (h₁ .created).2 (by simp)
      exact absurd ((h₂ .created).1 this) (by simp)
  · intro hown d' _ ha k
    rw [answers_iff, answers_iff, hown.answerKind_eq ha]

/-- Two orders in the database: one of the user 1 under the key `a`, one of the user 2 under the
key `b`. -/
def twoOrders : Tables where
  orders := ⟨[⟨10, 1, 5, [], 0, .pending, none, some "a", 0, 0⟩,
    ⟨20, 2, 5, [], 0, .pending, none, some "b", 0, 0⟩], by decide⟩

theorem valid_twoOrders : Valid twoOrders := by
  constructor
  · intro r hr r' hr' key hk hk'
    simp only [twoOrders, List.mem_cons, List.not_mem_nil, or_false] at hr hr'
    have hkk := hk.trans hk'.symm
    rcases hr with rfl | rfl <;> rcases hr' with rfl | rfl
    · rfl
    · exact absurd hkk (by decide)
    · exact absurd hkk (by decide)
    · rfl
  · intro r hr key hk
    simp only [twoOrders, List.mem_cons, List.not_mem_nil, or_false] at hr
    rcases hr with rfl | rfl <;> obtain rfl := Option.some.inj hk <;> decide +kernel

/-- A request under a key that its user has used is answered with the existing order, whatever
others do. -/
theorem answer_independent_used :
    Answers ⟨twoOrders, .empty⟩ ⟨1, ⟨5, []⟩, none, some "a"⟩ .existing := by
  have h := (answer_independent_iff ⟨twoOrders.ofUser 1, .empty⟩ (valid_twoOrders.ofUser 1)
    ⟨1, ⟨5, []⟩, none, some "a"⟩).2 (.inr (.inr (.inr ⟨_, List.mem_singleton_self _, rfl, "a", rfl,
      by decide +kernel⟩))) ⟨twoOrders, .empty⟩ valid_twoOrders (by decide +kernel) .existing
  exact h.1 (answers_iff.2 (by decide +kernel))

-- the total of a quantity that no float can hold cannot be computed, whoever has used the key
example : OwnAnswer twoOrders ⟨1, ⟨5, [⟨6, 10 ^ 309, 0⟩]⟩, none, some "b"⟩ :=
  .inr (.inl (by decide +kernel))

/-- A request of the user 1 under the key `b`, which only the user 2 has used: it fails, and would
create an order if the user 2 had not. -/
theorem answer_depends :
    Agree 1 (twoOrders.ofUser 1) twoOrders ∧
      Answers ⟨twoOrders.ofUser 1, .empty⟩ ⟨1, ⟨5, []⟩, none, some "b"⟩ .created ∧
      Answers ⟨twoOrders, .empty⟩ ⟨1, ⟨5, []⟩, none, some "b"⟩ .failed ∧
      ¬ Answers ⟨twoOrders, .empty⟩ ⟨1, ⟨5, []⟩, none, some "b"⟩ .created := by
  refine ⟨by decide +kernel, ?_, ?_, ?_⟩
  · exact answers_iff.2 (by decide +kernel)
  · exact answers_iff.2 (by decide +kernel)
  · rw [answers_iff]
    decide +kernel

/-! ### What an accepted response says -/

/-- The order service: requests and deliveries. -/
def rules : Node.Rules db Fresh Empty Reply where
  start p := (∃ req, p = createOrder req) ∨ ∃ env, p = handleMessage env

/-- The states of the order service. -/
abbrev State := Node db Fresh Empty Reply

/-- The order service, from a database without orders. -/
def system : LTS State (Node.Label db Fresh Empty Reply) :=
  Node.lts rules fun d => d.tables.orders = .empty

/-- The order `r` has the contents of the request. -/
structure Describes (req : Request) (r : OrderRow) : Prop where
  user : r.userId = req.user
  restaurant : r.restaurantId = req.body.restaurantId
  items : r.items.map OrderItem.of = req.body.items
  key : varchar? 255 req.idempotencyKey = some r.idempotencyKey

/-- The order `o` was created by the request. -/
def CreatedBy (d : Db) (req : Request) (o : UUID) : Prop :=
  ∃ r, d.tables.orders.get? o = some r ∧ Describes req r

/-- What an accepted response says, when the requests `started` have been made: it names an order
created by its own request, or by one of the same user whose key was stored as its own. -/
def Truthful (started : Request → Prop) (d : Db) (req : Request) (a : Accepted) : Prop :=
  CreatedBy d req a.id ∨ (a.message = replayMessage ∧
    ∃ req', started req' ∧ CreatedBy d req' a.id ∧ req'.user = req.user ∧
      ∃ key, truthy req.idempotencyKey = some key ∧
        varchar? 255 req'.idempotencyKey = some (some key))

/-- Where a process can be. -/
inductive Point (started : Request → Prop) (d : Db) : Process → Prop
  | create {req : Request} : started req → Point started d (createOrder req)
  | place {req : Request} : started req → Point started d (placeOrder req)
  | handle (env : Envelope) : Point started d (handleMessage env)
  | handled (env : Envelope) (res : Except Err Unit) : Point started d (.done (.handled env res))
  | failed (req : Request) (e : Err) : Point started d (.done (.response req (.error e)))
  | accepted {req : Request} {a : Accepted} : Truthful started d req a →
      Point started d (.done (.response req (.ok a)))

variable {started : Request → Prop} {a : Accepted} {o : UUID}

/-- Orders stay, with all that a request says about them. -/
def Keeps (d d' : Db) : Prop := ∀ o r, d.tables.orders.get? o = some r →
  ∃ r', d'.tables.orders.get? o = some r' ∧ r'.userId = r.userId ∧
    r'.restaurantId = r.restaurantId ∧ r'.items = r.items ∧ r'.idempotencyKey = r.idempotencyKey

theorem Keeps.refl (d : Db) : Keeps d d := fun _ r hr => ⟨r, hr, rfl, rfl, rfl, rfl⟩

theorem keeps_addOrder (hr : d.tables.orders.get? r.id = none) (m : Mail) :
    Keeps d ⟨apply (.addOrder r) d.tables, m⟩ := by
  intro o r' hr'
  refine ⟨r', ?_, rfl, rfl, rfl, rfl⟩
  show (d.tables.orders.insert r).get? o = some r'
  rw [Table.get?_insert hr, if_neg, hr']
  rintro rfl
  rw [hr] at hr'
  cases hr'

theorem keeps_setStatus (o : UUID) (target : Status) (now : Time) (m : Mail) :
    Keeps d ⟨apply (.setStatus o target now) d.tables, m⟩ := by
  intro o' r' hr'
  refine ⟨_, by rw [get?_setStatus, hr', Option.map_some], ?_⟩
  split_ifs <;> exact ⟨rfl, rfl, rfl, rfl⟩

theorem Effect.keeps {env : Envelope} (h : Effect env f d d') : Keeps d d' := by
  cases h with
  | duplicate _ => exact .refl d
  | unknown _ => exact .refl d
  | transition o target _ _ _ _ _ => exact keeps_setStatus o target _ _

theorem CreatedBy.mono (h : Keeps d d') (hc : CreatedBy d req o) : CreatedBy d' req o := by
  obtain ⟨r, hr, hd⟩ := hc
  obtain ⟨r', hr', hu, hrest, hitems, hkey⟩ := h o r hr
  exact ⟨r', hr', ⟨hu.trans hd.user, hrest.trans hd.restaurant, hitems ▸ hd.items,
    by rw [hkey]; exact hd.key⟩⟩

theorem Point.mono (h : Keeps d d') (hp : Point started d p) : Point started d' p := by
  cases hp with
  | create hs => exact .create hs
  | place hs => exact .place hs
  | handle env => exact .handle env
  | handled env res => exact .handled env res
  | failed req e => exact .failed req e
  | accepted ht =>
    refine .accepted ?_
    rcases ht with hc | ⟨hm, req', hs, hc, hu, hk⟩
    · exact .inl (hc.mono h)
    · exact .inr ⟨hm, req', hs, hc.mono h, hu, hk⟩

/-- Every order was created by a request. -/
def Accounted (started : Request → Prop) (d : Db) : Prop :=
  ∀ r ∈ d.tables.orders.rows, ∃ req, started req ∧ Describes req r

theorem Effect.accounted {env : Envelope} (h : Effect env f d d') (hI : Accounted started d) :
    Accounted started d' := by
  cases h with
  | duplicate _ => exact hI
  | unknown _ => exact hI
  | transition o target _ _ _ _ _ =>
    intro r' hr'
    obtain ⟨r, hr, rfl⟩ := mem_rows_setStatus.1 hr'
    obtain ⟨req, hs, hd⟩ := hI r hr
    refine ⟨req, hs, ?_⟩
    split_ifs
    · exact ⟨hd.user, hd.restaurant, hd.items, hd.key⟩
    · exact hd

/-- What the transactions of the service do to the orders and to the responses. -/
theorem commit_point {t : Fresh → Tx db Process} {e : Err → Process}
    (hI : Accounted started d) (hp : Point started d (.txn t e))
    (hrun : (t f).run d = .ok (p, d')) :
    Accounted started d' ∧ Point started d' p ∧ Keeps d d' := by
  -- the transaction that inserts the order
  have place : ∀ {req}, started req → (placeTx req f).run d = .ok (p, d') →
      Accounted started d' ∧ Point started d' p ∧ Keeps d d' := by
    intro req hs hrun
    obtain ⟨r, hr, hv, -, rfl, rfl⟩ := placeTx_ok hrun
    obtain ⟨hid, hu, hrest, hitems, -, -, -, hkey⟩ := row?_eq_ok hr
    have hnone := (violates?_eq_none hv).1
    have hdesc : Describes req r := ⟨hu, hrest, itemsData_eq_some.1 hitems, hkey⟩
    refine ⟨fun r' hr' => ?_, .accepted (.inl ⟨r, ?_, hdesc⟩), keeps_addOrder hnone _⟩
    · have hrows : (apply (.addOrder r) d.tables).orders.rows = d.tables.orders.rows ++ [r] :=
        Table.rows_insert hnone
      rw [hrows, List.mem_append, List.mem_singleton] at hr'
      rcases hr' with hr' | rfl
      · exact hI r' hr'
      · exact ⟨req, hs, hdesc⟩
    · show (d.tables.orders.insert r).get? f.id = some r
      rw [Table.get?_insert hnone, if_pos (show r.id = f.id from hid)]
  generalize hq : Proc.txn t e = q at hp
  cases hp with
  | @create req hs =>
    obtain ⟨rfl, ⟨key, hkey, rfl⟩ | rfl⟩ := txn_eq_createOrder hq
    · obtain ⟨rfl, ⟨r, hb, rfl⟩ | ⟨-, rfl⟩⟩ := lookupTx_ok hrun
      · -- the order found was created by a request of the same user
        obtain ⟨hmem, hk, hu⟩ := byKeyAndUser?_eq_some hb
        obtain ⟨req', hs', hd⟩ := hI r hmem
        refine ⟨hI, .accepted (.inr ⟨rfl, req', hs', ⟨r, Table.get?_of_mem hmem, hd⟩, ?_, key,
          hkey, ?_⟩), .refl _⟩
        · rw [← hd.user, hu]
        · rw [hd.key, hk]
      · exact ⟨hI, .place hs, .refl _⟩
    · exact place hs hrun
  | place hs =>
    obtain ⟨rfl, rfl⟩ := txn_eq_placeOrder hq
    exact place hs hrun
  | handle env =>
    cases hq
    obtain ⟨rfl, he⟩ := handleTx_ok hrun
    exact ⟨he.accounted hI, .handled _ _, he.keeps⟩
  | handled env res => cases hq
  | failed req e => cases hq
  | accepted ht => cases hq

theorem abort_point {t : Fresh → Tx db Process} {e : Err → Process}
    (hp : Point started d (.txn t e)) (x : Err) : Point started d (e x) := by
  generalize hq : Proc.txn t e = q at hp
  cases hp with
  | create hs =>
    obtain ⟨rfl, -⟩ := txn_eq_createOrder hq
    exact .failed _ _
  | place hs =>
    obtain ⟨-, rfl⟩ := txn_eq_placeOrder hq
    exact .failed _ _
  | handle env => cases hq; exact .handled _ _
  | handled env res => cases hq
  | failed req e => cases hq
  | accepted ht => cases hq

/-- Of the places where a process can be, only one is an accepted response. -/
theorem Point.truthful (hp : Point started d (.done (.response req (.ok a)))) :
    Truthful started d req a := by
  generalize hq : (Proc.done (.response req (.ok a)) : Process) = q at hp
  cases hp with
  | create hs => cases done_eq_createOrder hq
  | place _ => cases done_eq_placeOrder hq
  | handle _ => cases hq
  | handled _ _ => cases hq
  | failed _ _ => cases hq
  | accepted ht => cases hq; exact ht

/-- **An accepted response names an order with the contents of the request that created it**: in
every run, a response 202 names an order of the requesting user that has the restaurant and the
items of this request, or of one that the same user has made in this run and whose key was stored
as the non-empty key of this request. -/
theorem accepted_describes {n₀ n : State} {ls : List (Node.Label db Fresh Empty Reply)}
    (h₀ : system.init n₀) (hr : system.Run n₀ ls n) {req : Request} {a : Accepted}
    (hp : .response req (.ok a) ∈ n.replies) :
    ∃ r, n.db.tables.orders.get? a.id = some r ∧ r.userId = req.user ∧
      ((r.restaurantId = req.body.restaurantId ∧ r.items.map OrderItem.of = req.body.items) ∨
        (a.message = replayMessage ∧
          ∃ req', .start (createOrder req') ∈ ls ∧ req'.user = req.user ∧
            r.restaurantId = req'.body.restaurantId ∧ r.items.map OrderItem.of = req'.body.items ∧
            ∃ key, truthy req.idempotencyKey = some key ∧
              varchar? 255 req'.idempotencyKey = some (some key))) := by
  let started : Request → Prop := fun req => .start (createOrder req) ∈ ls
  -- induction on the run: the orders come from its requests, and the responses are truthful
  have hinv : Accounted started n.db ∧ ∀ p, some p ∈ n.procs → Point started n.db p := by
    refine Node.invariant (P := rules.started ls) (fun d : Db => Accounted started d)
      (fun d p => Point started d p)
      ?_ ?_ ?_ ?_ ?_ ?_ ⟨n₀, ls, h₀, Node.run_started hr⟩
    · intro d hd r hr
      rw [hd] at hr
      cases hr
    · rintro d p _ ⟨⟨req, rfl⟩ | ⟨env, rfl⟩, hmem⟩
      · exact .create hmem
      · exact .handle env
    · exact fun d o => o.elim
    · intro d f t e p d' hI _ hp hrun
      obtain ⟨hI', hp', hk⟩ := commit_point hI hp hrun
      exact ⟨hI', hp', fun _ h => h.mono hk⟩
    · exact fun d f t e x _ _ hp _ => abort_point hp x
    · rintro d g _ ⟨⟩
  have htrue : Truthful started n.db req a := (hinv.2 _ (Node.mem_replies.1 hp)).truthful
  rcases htrue with ⟨r, hr, hd⟩ | ⟨hm, req', hs, ⟨r, hr, hd⟩, hu, key, hkey, hv⟩
  · exact ⟨r, hr, hd.user, .inl ⟨hd.restaurant, hd.items⟩⟩
  · exact ⟨r, hr, hd.user.trans hu,
      .inr ⟨hm, req', hs, hu, hd.restaurant, hd.items, key, hkey, hv⟩⟩

/-- A user submits the same cart twice under one key: both responses name the order. -/
theorem accepted_describes_resubmitted :
    let req : Request := ⟨1, ⟨5, [⟨1, 1, 10⟩]⟩, none, some "k"⟩
    let a : Accepted := ⟨70, .pending, replayMessage⟩
    let d₀ : Db := ⟨⟨.empty⟩, .empty⟩
    let run : List (Node.Label db Fresh Empty Reply) :=
      [.start (createOrder req), .run 0 ⟨0, 0, 0, 0⟩, .run 0 ⟨70, 1, 2, 0⟩,
        .start (createOrder req), .run 1 ⟨0, 0, 0, 0⟩]
    ∃ n, LTS.runAct Node.act (Node.idle d₀) run = some n ∧
      ∃ r, n.db.tables.orders.get? 70 = some r ∧ r.userId = 1 ∧
        ((r.restaurantId = 5 ∧ r.items.map OrderItem.of = [⟨1, 1, 10⟩]) ∨
          (a.message = replayMessage ∧
          ∃ req', .start (createOrder req') ∈ run ∧ req'.user = 1 ∧
            r.restaurantId = req'.body.restaurantId ∧ r.items.map OrderItem.of = req'.body.items ∧
            ∃ key, truthy (some "k") = some key ∧
              varchar? 255 req'.idempotencyKey = some (some key))) := by
  intro req a d₀ run
  have hrun : (LTS.runAct Node.act (Node.idle d₀) run).map Node.replies =
      some [.response req (.ok ⟨70, .pending, "Order accepted for processing"⟩),
        .response req (.ok a)] := by
    decide +kernel
  obtain ⟨n, hn, hreplies⟩ := Option.map_eq_some_iff.1 hrun
  have hr : system.Run (Node.idle d₀) run n := by
    refine LTS.run_of_runAct ?_ hn
    intro s l hl
    simp only [run, List.mem_cons, List.not_mem_nil, or_false] at hl
    rcases hl with rfl | rfl | rfl | rfl | rfl
    exacts [.inl ⟨req, rfl⟩, trivial, trivial, .inl ⟨req, rfl⟩, trivial]
  have hp : .response req (.ok a) ∈ n.replies := by
    rw [hreplies]
    exact List.mem_cons_of_mem _ List.mem_cons_self
  exact ⟨n, hn, accepted_describes ⟨d₀, rfl, rfl⟩ hr hp⟩

/-- A user places an order, adds an item to the cart and submits again under the key of the cart:
the second response names the first order, which lacks the item. -/
theorem accepted_edited_cart :
    let burger : OrderItem := ⟨1, 1, 10⟩
    let fries : OrderItem := ⟨2, 1, 5⟩
    let first : Request := ⟨1, ⟨5, [burger]⟩, none, some "k"⟩
    let edited : Request := ⟨1, ⟨5, [burger, fries]⟩, none, some "k"⟩
    let d₀ : Db := ⟨⟨.empty⟩, .empty⟩
    let run : List (Node.Label db Fresh Empty Reply) :=
      [.start (createOrder first), .run 0 ⟨0, 0, 0, 0⟩, .run 0 ⟨70, 1, 2, 0⟩,
        .start (createOrder edited), .run 1 ⟨0, 0, 0, 0⟩]
    ∃ n, LTS.runAct Node.act (Node.idle d₀) run = some n ∧ system.Reachable n ∧
      .response edited (.ok ⟨70, .pending, replayMessage⟩) ∈
        n.replies ∧
      (n.db.tables.orders.get? 70).map (fun r => r.items.map OrderItem.of) = some [burger] ∧
      edited.body.items ≠ [burger] := by
  intro burger fries first edited d₀ run
  have hrun : (LTS.runAct Node.act (Node.idle d₀) run).map
      (fun n => (n.replies, (n.db.tables.orders.get? 70).map fun r => r.items.map OrderItem.of)) =
      some ([.response first (.ok ⟨70, .pending, "Order accepted for processing"⟩),
        .response edited (.ok ⟨70, .pending, replayMessage⟩)],
        some [burger]) := by decide +kernel
  obtain ⟨n, hn, hobs⟩ := Option.map_eq_some_iff.1 hrun
  obtain ⟨hreplies, hitems⟩ := Prod.mk.inj hobs
  refine ⟨n, hn, LTS.reachable_of_runAct ⟨d₀, rfl, rfl⟩ ?_ hn, ?_, hitems, by decide⟩
  · intro s l hl
    simp only [run, List.mem_cons, List.not_mem_nil, or_false] at hl
    rcases hl with rfl | rfl | rfl | rfl | rfl
    exacts [.inl ⟨first, rfl⟩, trivial, trivial, .inl ⟨edited, rfl⟩, trivial]
  · rw [hreplies]
    exact List.mem_cons_of_mem _ List.mem_cons_self

end Order

end FoodFlow
