import FoodFlow.Sql.Types

/-!
# The gateway simulator

`process_payment` decides from the directive alone.  The directive that the database gives back
may have lost trailing spaces, which does not change the decision: `processPayment_varchar`.
-/

namespace FoodFlow

namespace Payment

/-- A call of the gateway. -/
structure GatewayCall where
  amount : ℚ
  simulateDirective : Option String
  deriving DecidableEq, Repr

/-- `process_payment`, with `dflt` for `PAYMENT_SIMULATE_DEFAULT`.  No character outside ASCII has
one of the letters of `failure` as its lower case, so lowering ASCII decides the comparison. -/
def processPayment (dflt : String) (_amount : ℚ) (simulateDirective : Option String) : Bool :=
  let directive := match simulateDirective with
    | some s => if s = "" then dflt else s
    | none => dflt
  if directive.toLower = "failure" then false else true

variable {dflt : String} {amount : ℚ}

theorem length_toLower (s : String) : s.toLower.toList.length = s.toList.length := by
  change (s.map Char.toLower).toList.length = _
  simp [String.toList_map]

/-- A string of another length than `failure` is a success, unless it is empty. -/
theorem processPayment_of_length {s : String} (h₀ : s ≠ "") (h : s.toList.length ≠ 7) :
    processPayment dflt amount (some s) = true := by
  have hne : s.toLower ≠ "failure" := by
    intro he
    have := length_toLower s
    rw [he] at this
    exact h this.symm
  simp [processPayment, h₀, hne]

/-- **The directive read back from `payments.payment_simulate` decides as the directive that was
stored.** -/
theorem processPayment_varchar {directive stored : Option String}
    (h : varchar? 20 directive = some stored) :
    processPayment dflt amount stored = processPayment dflt amount directive := by
  cases directive with
  | none =>
    obtain rfl := Option.some.inj h
    rfl
  | some s =>
    obtain ⟨s', hs, rfl⟩ := Option.map_eq_some_iff.1 h
    rcases varchar_cases hs with rfl | ⟨hlt, hlen⟩
    · rfl
    · have hne : s ≠ "" := by rintro rfl; simp at hlt
      have hne' : s' ≠ "" := by rintro rfl; simp at hlen
      rw [processPayment_of_length hne (by omega), processPayment_of_length hne' (by omega)]

end Payment

end FoodFlow
