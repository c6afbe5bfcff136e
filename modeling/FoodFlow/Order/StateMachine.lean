import FoodFlow.Order.Basic

/-!
# The order state machine

The whitelist of transitions, and `transition_order`: every order leaves `PENDING` at most once,
and nothing leaves a terminal status.
-/

namespace FoodFlow

namespace Order

/-- `ALLOWED_TRANSITIONS`. -/
def allowedTransitions : Status → List Status
  | .pending => [.confirmed, .paymentFailed, .stockUnavailable]
  | _ => []

/-- `transition_order`. -/
def transitionOrder (orderId : UUID) (newStatus : Status) (f : Fresh) : Tx db Unit := do
  let currentStatus ← selectStatusForUpdate orderId
  match currentStatus with
  | none => .throw (Err.valueError orderId)
  | some currentStatus =>
    if newStatus ∉ allowedTransitions currentStatus then
      .throw (Err.invalidTransition currentStatus newStatus)
    else updateStatus newStatus orderId f

variable {current target : Status}

/-- The only transitions are those from `PENDING` to another status. -/
theorem mem_allowedTransitions :
    target ∈ allowedTransitions current ↔ current = .pending ∧ target ≠ .pending := by
  cases current <;> cases target <;> decide

/-- How far an order has come. -/
def Status.rank : Status → ℕ
  | .pending => 1
  | _ => 2

variable {d d' : Db} {saved saved' : List Db} {o : UUID} {f : Fresh}

/-- What `transition_order` has done when it returns. -/
theorem transitionOrder_ok (h : (transitionOrder o target f).eval d saved = .ok () d' saved') :
    saved' = saved ∧ d.tables.status o = some .pending ∧ target ≠ .pending ∧
      d' = { d with tables := apply (.setStatus o target f.now) d.tables } := by
  rw [transitionOrder, Tx.bind_def, eval_selectStatusForUpdate] at h
  cases hs : d.tables.status o with
  | none => rw [hs] at h; cases h
  | some current =>
    rw [hs] at h
    simp only at h
    split_ifs at h with ha
    · obtain ⟨rfl, hne⟩ := mem_allowedTransitions.1 ha
      cases h
      exact ⟨rfl, rfl, hne, rfl⟩
    · cases h

/-- The exceptions of `transition_order`: the order does not exist, or the transition is not
allowed. -/
theorem transitionOrder_thrown {e : Err}
    (h : (transitionOrder o target f).eval d saved = .thrown e) :
    (d.tables.status o = none ∧ e = .valueError o) ∨
      ∃ current, d.tables.status o = some current ∧ target ∉ allowedTransitions current ∧
        e = .invalidTransition current target := by
  rw [transitionOrder, Tx.bind_def, eval_selectStatusForUpdate] at h
  cases hs : d.tables.status o with
  | none =>
    rw [hs] at h
    cases h
    exact .inl ⟨rfl, rfl⟩
  | some current =>
    rw [hs] at h
    simp only at h
    split_ifs at h with ha
    · cases h
    · cases h
      exact .inr ⟨current, rfl, ha, rfl⟩

end Order

end FoodFlow
