import FoodFlow.Shared.Events
import Mathlib.Tactic.IntervalCases

/-!
# Requests and answers

What the routes of the services share: their errors, and UUIDs as text, `str(uuid)` and
`uuid.UUID(text)`, as they travel in tokens, paths and events.  A UUID has 128 bits.

* `HttpError` : an `HTTPException`;
* `isUUID` : the numbers that are UUIDs;
* `uuidOf?` : reading a UUID;
* `uuidOf?_uuidStr` : **what is read is what was written**, so that two UUIDs with the same text are
  the same (`uuidStr_inj`).
-/

namespace FoodFlow

/-- `HTTPException` -/
structure HttpError where
  statusCode : ℕ
  detail : String
  deriving DecidableEq, Repr

/-- The numbers of 128 bits. -/
def isUUID (u : UUID) : Prop := u < 16 ^ 32

instance (u : UUID) : Decidable (isUUID u) := inferInstanceAs (Decidable (u < 16 ^ 32))

/-- The value of a hexadecimal digit. -/
def hexDigit? (c : Char) : Option ℕ :=
  if '0' ≤ c ∧ c ≤ '9' then some (c.toNat - '0'.toNat)
  else if 'a' ≤ c ∧ c ≤ 'f' then some (c.toNat - 'a'.toNat + 10)
  else if 'A' ≤ c ∧ c ≤ 'F' then some (c.toNat - 'A'.toNat + 10)
  else none

/-- The number with the given hexadecimal digits, the most significant first. -/
def ofDigits (ds : List ℕ) : ℕ := ds.foldl (fun n d => 16 * n + d) 0

/-- `uuid.UUID(text)`: 32 hexadecimal digits, with hyphens anywhere. -/
def uuidOf? (text : String) : Option UUID :=
  let hex := text.toList.filter (· ≠ '-')
  if hex.length = 32 then (hex.mapM hexDigit?).map ofDigits else none

/-- The hexadecimal digits of a UUID. -/
def hexDigits (u : UUID) : List ℕ := (List.range 32).map fun k => u / 16 ^ (31 - k) % 16

theorem hexDigit?_digitChar {n : ℕ} (h : n < 16) :
    n.digitChar ≠ '-' ∧ hexDigit? n.digitChar = some n := by
  interval_cases n <;> decide

/-- The first `m` digits of a number. -/
theorem ofDigits_range (u m : ℕ) (hm : m ≤ 32) :
    ofDigits ((List.range m).map fun k => u / 16 ^ (31 - k) % 16) = u / 16 ^ (32 - m) % 16 ^ m := by
  induction m with
  | zero => simp [ofDigits, Nat.mod_one]
  | succ m ih =>
    have hexp : 32 - m = (31 - m) + 1 := by omega
    have hdiv : u / 16 ^ (32 - m) = u / 16 ^ (31 - m) / 16 := by
      rw [hexp, Nat.pow_succ, Nat.div_div_eq_div_mul]
    have hsub : 32 - (m + 1) = 31 - m := by omega
    rw [List.range_succ, List.map_append, ofDigits, List.foldl_append]
    rw [ofDigits] at ih
    rw [ih (by omega), hdiv, hsub]
    simp only [List.map_cons, List.map_nil, List.foldl_cons, List.foldl_nil]
    rw [Nat.pow_succ', Nat.mod_mul, Nat.add_comm]

theorem ofDigits_hexDigits {u : UUID} (h : isUUID u) : ofDigits (hexDigits u) = u := by
  rw [hexDigits, ofDigits_range u 32 (Nat.le_refl _), Nat.sub_self, Nat.pow_zero, Nat.div_one]
  exact Nat.mod_eq_of_lt h

theorem length_hexDigits (u : UUID) : (hexDigits u).length = 32 := by
  rw [hexDigits, List.length_map, List.length_range]

theorem lt_of_mem_hexDigits {u : UUID} {d : ℕ} (h : d ∈ hexDigits u) : d < 16 := by
  obtain ⟨k, -, rfl⟩ := List.mem_map.1 h
  exact Nat.mod_lt _ (by decide)

/-- The digits of the text. -/
theorem filter_uuidStr (u : UUID) :
    (uuidStr u).toList.filter (· ≠ '-') = (hexDigits u).map Nat.digitChar := by
  have hall : ∀ l : List Char, (∀ c ∈ l, c ∈ (hexDigits u).map Nat.digitChar) →
      l.filter (· ≠ '-') = l := by
    intro l hl
    refine List.filter_eq_self.2 fun c hc => ?_
    obtain ⟨d, hd, rfl⟩ := List.mem_map.1 (hl c hc)
    exact decide_eq_true (hexDigit?_digitChar (lt_of_mem_hexDigits hd)).1
  have hhex : (List.range 32).map (fun k => (u / 16 ^ (31 - k) % 16).digitChar) =
      (hexDigits u).map Nat.digitChar := by
    rw [hexDigits, List.map_map]
    rfl
  rw [uuidStr, hhex, String.toList_ofList]
  generalize hl : (hexDigits u).map Nat.digitChar = hex at hall
  have htake : ∀ m n, ((hex.drop m).take n).filter (· ≠ '-') = (hex.drop m).take n := fun m n =>
    hall _ fun c hc => List.mem_of_mem_drop (List.mem_of_mem_take hc)
  have hdrop : ∀ m n, (hex.drop m).drop n = hex.drop (m + n) := fun m n => List.drop_drop
  have h₀ := htake 0 8
  have h₂₀ : (hex.drop 20).filter (· ≠ '-') = hex.drop 20 :=
    hall _ fun c hc => List.mem_of_mem_drop hc
  rw [List.drop_zero] at h₀
  simp only [List.filter_append, List.filter_cons, h₀, htake, h₂₀, ne_eq, not_true_eq_false,
    decide_false, Bool.false_eq_true, if_false]
  -- the groups are consecutive
  rw [← hdrop 16 4, List.append_assoc, List.append_assoc, List.append_assoc,
    List.take_append_drop, ← hdrop 12 4, List.take_append_drop, ← hdrop 8 4,
    List.take_append_drop, List.take_append_drop]

/-- **Reading a UUID gives the one that was written.** -/
theorem uuidOf?_uuidStr {u : UUID} (h : isUUID u) : uuidOf? (uuidStr u) = some u := by
  have hmap : ((hexDigits u).map Nat.digitChar).mapM hexDigit? = some (hexDigits u) := by
    have : ∀ l : List ℕ, (∀ d ∈ l, d < 16) → (l.map Nat.digitChar).mapM hexDigit? = some l := by
      intro l hl
      induction l with
      | nil => rfl
      | cons d l ih =>
        rw [List.map_cons, List.mapM_cons, (hexDigit?_digitChar (hl d List.mem_cons_self)).2,
          ih fun x hx => hl x (List.mem_cons_of_mem _ hx)]
        rfl
    exact this _ fun d => lt_of_mem_hexDigits
  simp only [uuidOf?, filter_uuidStr, List.length_map, length_hexDigits, if_true, hmap,
    Option.map_some, ofDigits_hexDigits h]

theorem uuidStr_inj {u v : UUID} (hu : isUUID u) (hv : isUUID v) :
    uuidStr u = uuidStr v ↔ u = v := by
  refine ⟨fun h => ?_, congrArg uuidStr⟩
  have := congrArg uuidOf? h
  rw [uuidOf?_uuidStr hu, uuidOf?_uuidStr hv] at this
  exact Option.some.inj this

end FoodFlow
