import FoodFlow.Order.Consumers
import FoodFlow.Sql.Serial

/-!
# What the order service locks

The statements of the service own what their execution depends on: an `INSERT` the values of the
two unique columns, a `SELECT ... FOR UPDATE` and an `UPDATE` the row, when there is one.  The
transaction that creates an order, and the business logic of the consumer, consist of such
statements: the `SELECT` of an absent order is followed by an exception.
-/

namespace FoodFlow

namespace Order

/-- A lock on a key protects whether it is taken, a lock on a row the status in it. -/
def Same : Lock → Tables → Tables → Prop
  | .id o, t, t' => t.orders.get? o = none ↔ t'.orders.get? o = none
  | .key key, t, t' => t.byKey? key = none ↔ t'.byKey? key = none
  | .row o, t, t' => ∀ s, t.status o = some s → t'.status o = some s

/-- The locks under which a change is made. -/
def locks : Write → List Lock
  | .addOrder r => .id r.id :: (r.idempotencyKey.map Lock.key).toList
  | .setStatus o _ _ => [.row o]

/-- The statement owns what its execution depends on. -/
def Locks : Stmt → Tables → Prop
  | .selectByKey .., _ => False
  | .insertOrder .., _ => True
  | .selectStatusForUpdate o, t | .updateStatus _ o _, t => t.status o ≠ none

variable {t t' : Tables} {r : OrderRow} {o o' : UUID} {key : String} {target : Status} {now : Time}

theorem byKey?_eq_none : t.byKey? key = none ↔
    ∀ r ∈ t.orders.rows, r.idempotencyKey ≠ some key := by
  simp [Tables.byKey?, List.find?_eq_none]

/-! ### Statuses and keys after a change -/

theorem status_addOrder (h : t.orders.get? r.id = none) :
    (apply (.addOrder r) t).status o = if r.id = o then some r.status else t.status o := by
  show ((t.orders.insert r).get? o).map OrderRow.status = _
  rw [Table.get?_insert h]
  split_ifs <;> rfl

theorem status_eq_none : t.status o = none ↔ t.orders.get? o = none := Option.map_eq_none_iff

theorem status_setStatus : (apply (.setStatus o target now) t).status o' =
    if o' = o then (t.status o').map fun _ => target else t.status o' := by
  rw [Tables.status, get?_setStatus, Tables.status, Option.map_map]
  cases hr : t.orders.get? o' with
  | none => simp
  | some r =>
    have hid : r.id = o' := Table.key_of_get? hr
    by_cases ho : o' = o
    · simp [hid, ho]
    · simp [hid, ho]

theorem byKey?_addOrder : (apply (.addOrder r) t).byKey? key = none ↔
    t.byKey? key = none ∧ (t.orders.get? r.id = none → r.idempotencyKey ≠ some key) := by
  simp only [byKey?_eq_none, apply, Table.mem_rows_insert]
  constructor
  · exact fun h => ⟨fun r' hr' => h r' (.inl hr'), fun hfree => h r (.inr ⟨rfl, hfree⟩)⟩
  · rintro ⟨h, h'⟩ r' (hr' | ⟨rfl, hfree⟩)
    · exact h r' hr'
    · exact h' hfree

theorem byKey?_setStatus :
    (apply (.setStatus o target now) t).byKey? key = none ↔ t.byKey? key = none := by
  simp only [byKey?_eq_none, mem_rows_setStatus]
  constructor
  · intro h r hr
    have := h _ ⟨r, hr, rfl⟩
    split_ifs at this <;> exact this
  · rintro h _ ⟨r, hr, rfl⟩
    split_ifs <;> exact h r hr

/-! ### The discipline -/

theorem same_frame {l : Lock} {w : Write} (t : Tables) (h : l ∉ locks w) :
    Same l t (apply w t) := by
  cases w with
  | addOrder r =>
    cases l with
    | id o =>
      have hne : r.id ≠ o := by rintro rfl; exact h List.mem_cons_self
      simp [Same, apply, Table.get?_insert_eq_none, hne]
    | key key =>
      have hne : r.idempotencyKey ≠ some key := by
        intro hk
        exact h (List.mem_cons_of_mem _ (by simp [hk]))
      simp [Same, byKey?_addOrder, hne]
    | row o =>
      intro s hs
      cases hr : t.orders.get? r.id with
      | none =>
        rw [status_addOrder hr, if_neg, hs]
        rintro rfl
        rw [status_eq_none.2 hr] at hs
        cases hs
      | some r' => simpa only [apply, Table.insert_of_get? hr] using hs
  | setStatus o target now =>
    cases l with
    | id o' => simp [Same, get?_setStatus]
    | key key => exact byKey?_setStatus.symm
    | row o' =>
      have hne : o' ≠ o := by rintro rfl; exact h (List.mem_singleton_self _)
      intro s hs
      rwa [status_setStatus, if_neg hne]

theorem same_own {l : Lock} {w : Write} (hw : ∀ l' ∈ locks w, Same l' t t') (h : Same l t t') :
    Same l (apply w t) (apply w t') := by
  cases w with
  | addOrder r =>
    have hid : t.orders.get? r.id = none ↔ t'.orders.get? r.id = none := hw _ List.mem_cons_self
    cases l with
    | id o =>
      have ho : t.orders.get? o = none ↔ t'.orders.get? o = none := h
      simp only [Same, apply, Table.get?_insert_eq_none, ho]
    | key key =>
      have hk : t.byKey? key = none ↔ t'.byKey? key = none := h
      simp only [Same, byKey?_addOrder, hk, hid]
    | row o =>
      intro s hs
      cases hr : t.orders.get? r.id with
      | none =>
        rw [status_addOrder hr] at hs
        -- the lock on the id decides whether the row is inserted, on both sides alike
        rw [status_addOrder (hid.1 hr)]
        split_ifs at hs ⊢ with ho
        · exact hs
        · exact h s hs
      | some r' =>
        obtain ⟨r₁, hr₁⟩ := Option.ne_none_iff_exists'.1 (mt hid.2 (by simp [hr]))
        simp only [apply, Table.insert_of_get? hr, Table.insert_of_get? hr₁] at hs ⊢
        exact h s hs
  | setStatus o target now =>
    cases l with
    | id o' =>
      have ho : t.orders.get? o' = none ↔ t'.orders.get? o' = none := h
      simp only [Same, get?_setStatus, Option.map_eq_none_iff, ho]
    | key key =>
      have hk : t.byKey? key = none ↔ t'.byKey? key = none := h
      simp only [Same, byKey?_setStatus, hk]
    | row o' =>
      intro s hs
      rw [status_setStatus] at hs ⊢
      split_ifs at hs ⊢ with ho
      · obtain ⟨s', hs', rfl⟩ := Option.map_eq_some_iff.1 hs
        rw [h s' hs']
        rfl
      · exact h s hs

theorem violates?_same (h : ∀ l ∈ locks (.addOrder r), Same l t t') :
    t'.violates? r = t.violates? r := by
  have hid : t.orders.get? r.id = none ↔ t'.orders.get? r.id = none := h _ List.mem_cons_self
  have hkey : r.idempotencyKey.bind t.byKey? = none ↔ r.idempotencyKey.bind t'.byKey? = none := by
    cases hk : r.idempotencyKey with
    | none => rfl
    | some key => exact h (.key key) (List.mem_cons_of_mem _ (by simp [hk]))
  simp only [Tables.violates?, Option.isSome_iff_ne_none, ne_eq, hid, hkey]

/-- The locks of an `INSERT` are those of the row it inserts. -/
theorem needs_insertOrder {n : NewOrder} (h : n.row? now = .ok r) :
    needs (.insertOrder n now) t = locks (.addOrder r) := by
  obtain ⟨hid, -, -, -, -, -, -, hkey⟩ := row?_eq_ok h
  simp [needs, locks, hid, hkey]

theorem exec_same {q : Stmt} (hq : Locks q t) (h : ∀ l ∈ needs q t, Same l t t') :
    exec q t' = exec q t := by
  -- a row that is owned keeps its status
  have row : ∀ o, t.status o ≠ none →
      (∀ l ∈ (if (t.status o).isSome then [Lock.row o] else []), Same l t t') →
      t'.status o = t.status o := by
    intro o ho hrow
    obtain ⟨s, hs⟩ := Option.ne_none_iff_exists'.1 ho
    rw [hs]
    exact hrow (.row o) (by simp [hs]) s hs
  cases q with
  | selectByKey key user => exact hq.elim
  | insertOrder n now =>
    simp only [exec]
    cases hr : n.row? now with
    | error e => rfl
    | ok r =>
      rw [needs_insertOrder hr] at h
      simp only [violates?_same h]
  | selectStatusForUpdate o =>
    simp only [exec, row o hq h]
  | updateStatus target o now => rfl

theorem locks_needs {q : Stmt} {res : q.Res} {ws : List Write} (hq : Locks q t)
    (h : exec q t = .ok (res, ws)) : ∀ w ∈ ws, locks w ⊆ needs q t := by
  cases q with
  | selectByKey key user => exact hq.elim
  | insertOrder n now =>
    simp only [exec] at h
    split at h
    · cases h
    · rename_i r hr
      split at h
      · cases h
      · cases h
        intro w hw
        obtain rfl := List.mem_singleton.1 hw
        exact (needs_insertOrder hr).symm ▸ List.Subset.refl _
  | selectStatusForUpdate o =>
    cases h
    intro w hw
    cases hw
  | updateStatus target o now =>
    cases h
    intro w hw
    obtain rfl := List.mem_singleton.1 hw
    simp [locks, needs, Option.isSome_iff_ne_none.2 hq]

/-- The lock discipline of the tables of the service. -/
def tableLocks : Discipline tables where
  Same := Same
  locks := locks
  Locks := Locks
  refl l t := by
    cases l with
    | id o => exact Iff.rfl
    | key key => exact Iff.rfl
    | row o => exact fun s hs => hs
  trans {l _ _ _} h h' := by
    cases l with
    | id o => exact Iff.trans h h'
    | key key => exact Iff.trans h h'
    | row o => exact fun s hs => h' s (h s hs)
  frame t h := same_frame t h
  own hw h := same_own hw h
  stable hq h := exec_same hq h
  writes hq h := locks_needs hq h

/-- The lock discipline of the order database. -/
abbrev discipline : Discipline db := tableLocks.withMail .sql

/-! ### The transactions -/

variable {req : Request} {env : Envelope} {f : Fresh} {d : Db}

theorem insertProcessed_locking {e : UUID} {k : Unit → Tx db Process}
    (h : ∀ d, (k ()).Locking discipline d) :
    ((Mail.insertProcessed e).bind k).Locking discipline d := fun _ _ _ => .inr ⟨trivial, h _⟩

theorem insertOutbox_locking {topic : EventType} {env : Envelope} {k : Unit → Tx db Process}
    (h : ∀ d, (k ()).Locking discipline d) :
    ((Mail.insertOutbox topic o env f).bind k).Locking discipline d :=
  fun _ _ _ => .inr ⟨trivial, h _⟩

theorem placeTx_locking : (placeTx req f).Locking discipline d :=
  fun _ _ _ => .inr ⟨trivial, insertOutbox_locking fun _ => trivial⟩

/-- A transition either raises an exception after the `SELECT` or updates the row it has locked. -/
theorem transitionOrder_locking {rest : Tx db Process} (h : ∀ d, rest.Locking discipline d) :
    ((transitionOrder o target f).bind fun _ => rest).Locking discipline d := by
  intro current ws hx
  obtain ⟨rfl, rfl⟩ : d.tables.status o = current ∧ [] = ws := by
    cases hx
    exact ⟨rfl, rfl⟩
  cases hs : d.tables.status o with
  | none => exact .inl ⟨_, rfl⟩
  | some current =>
    have hrow : d.tables.status o ≠ none := by simp [hs]
    -- what follows the `SELECT`, when the order exists
    let go : Tx db Unit :=
      if target ∉ allowedTransitions current then .throw (Err.invalidTransition current target)
      else updateStatus target o f
    by_cases ha : target ∉ allowedTransitions current
    · have hgo : go = .throw (Err.invalidTransition current target) := if_pos ha
      exact .inl ⟨_, congrArg (fun t : Tx db Unit => t.bind fun _ => rest) hgo⟩
    · have hgo : go = updateStatus target o f := if_neg ha
      refine .inr ⟨hrow, ?_⟩
      change (go.bind fun _ => rest).Locking discipline d
      rw [hgo]
      exact fun _ _ _ => .inr ⟨hrow, h _⟩

theorem markProcessed_locking : (markProcessed env).Locking discipline d :=
  insertProcessed_locking fun _ => trivial

theorem handleBody_locking : (handleBody env f).Locking discipline d := by
  unfold handleBody
  split
  · trivial
  · split
    · exact transitionOrder_locking fun _ => markProcessed_locking
    · exact transitionOrder_locking fun _ => insertOutbox_locking fun _ => markProcessed_locking
    · exact transitionOrder_locking fun _ => markProcessed_locking
    · trivial

end Order

end FoodFlow
