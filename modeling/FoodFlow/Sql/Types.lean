import Mathlib.Data.Rat.Floor

/-!
# Column types

The conversions that PostgreSQL applies to a value when it is assigned to a column, each of which
either stores a value or refuses the statement:

* `varchar n` : `VARCHAR(n)` refuses a longer string, unless all that exceeds the limit is spaces,
  which are cut off; text cannot hold the character 0;
* `int4` : the range of `INTEGER`;
* `decimal` : `DECIMAL(10, 2)` rounds to two places, half away from zero, and refuses what then
  has more than eight digits before the point.  Amounts are kept in hundredths.

`SqlError` lists the ways in which a statement is refused.
-/

namespace FoodFlow

/-- A statement refused by the database. -/
inductive SqlError where
  /-- A `UNIQUE` or `PRIMARY KEY` constraint, by name. -/
  | uniqueViolation (constraint : String)
  /-- A `CHECK` constraint, by name. -/
  | checkViolation (constraint : String)
  /-- A `FOREIGN KEY` constraint, by name. -/
  | foreignKeyViolation (constraint : String)
  /-- A value that its column or parameter cannot hold. -/
  | dataError (column : String)
  deriving DecidableEq, Repr

/-- What can be text in the database: a string without the character 0. -/
def isText (s : String) : Bool := decide (Char.ofNat 0 ∉ s.toList)

/-- Assignment to a `VARCHAR(n)` column. -/
def varchar (n : ℕ) (s : String) : Option String :=
  if !isText s then none
  else if s.toList.length ≤ n then some s
  else if (s.toList.drop n).all (· = ' ') then some (String.ofList (s.toList.take n))
  else none

/-- Assignment to a nullable `VARCHAR(n)` column. -/
def varchar? (n : ℕ) : Option String → Option (Option String)
  | none => some none
  | some s => (varchar n s).map some

/-- The range of `INTEGER`. -/
def int4 (x : ℤ) : Bool := decide (-2147483648 ≤ x ∧ x ≤ 2147483647)

/-- Rounding to an integer, half away from zero. -/
def roundHalfAway (x : ℚ) : ℤ :=
  if 0 ≤ x then ⌊x + 1 / 2⌋ else -⌊-x + 1 / 2⌋

/-- Assignment to a `DECIMAL(10, 2)` column, in hundredths. -/
def decimal (x : ℚ) : Option ℤ :=
  let c := roundHalfAway (x * 100)
  if c.natAbs < 10000000000 then some c else none

/-- What a `VARCHAR(n)` column stores is the string itself, or is exactly `n` long and cut from a
longer one. -/
theorem varchar_cases {n : ℕ} {s s' : String} (h : varchar n s = some s') :
    s' = s ∨ (n < s.toList.length ∧ s'.toList.length = n) := by
  unfold varchar at h
  split_ifs at h with h₀ hlen hsp
  · exact Or.inl (Option.some.inj h).symm
  · obtain rfl := Option.some.inj h
    refine Or.inr ⟨by omega, ?_⟩
    rw [String.toList_ofList, List.length_take]
    omega

end FoodFlow
