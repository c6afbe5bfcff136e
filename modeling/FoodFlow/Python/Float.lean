import Mathlib.Data.Int.Log
import Mathlib.Data.Rat.Floor
import Mathlib.Algebra.Order.Ring.Rat
import Mathlib.Algebra.BigOperators.Group.List.Basic
import Mathlib.Tactic.Linarith

/-!
# Floats

The arithmetic of Python's `float`, which is that of binary64: every operation gives the exact
result rounded to the nearest float, the even one of two, an infinity when it is too large, and
NaN where there is none.  Floats are given by their values, and zero has no sign.

* `PyFloat.ofRat` : rounding, with gradual underflow;
* `PyFloat.ofInt` : `float(n)`;
* `PyFloat.sum` : the builtin `sum`, which since Python 3.12 compensates the rounding errors of a
  sum of floats;
* `PyFloat.sum_exact` : it is the sum when no partial sum is rounded.
-/

namespace FoodFlow

/-- A float. -/
inductive PyFloat where
  | finite (x : ℚ)
  | inf (negative : Bool)
  | nan
  deriving DecidableEq, Repr

namespace PyFloat

/-- The integer nearest to `x`, the even one of two. -/
def roundEven (x : ℚ) : ℤ :=
  if Int.fract x < 1 / 2 ∨ (Int.fract x = 1 / 2 ∧ ⌊x⌋ % 2 = 0) then ⌊x⌋ else ⌊x⌋ + 1

/-- The distance of the floats next to `x`. -/
def ulp (x : ℚ) : ℚ := 2 ^ (max (-1022) (Int.log 2 |x|) - 52)

/-- The multiple of `ulp x` nearest to `x`. -/
def nearest (x : ℚ) : ℚ := roundEven (x / ulp x) * ulp x

/-- The float nearest to `x`. -/
def ofRat (x : ℚ) : PyFloat :=
  if |nearest x| < 2 ^ 1024 then .finite (nearest x) else .inf (decide (x < 0))

/-- Its value, when it is a number. -/
def value? : PyFloat → Option ℚ
  | .finite x => some x
  | _ => none

def isFinite (x : PyFloat) : Bool := x.value?.isSome

/-- `float(n)`, except that an infinity stands for the `OverflowError`. -/
def ofInt (n : ℤ) : PyFloat := ofRat n

instance (n : ℕ) : OfNat PyFloat n := ⟨.finite n⟩

instance : Add PyFloat where
  add
    | .finite x, .finite y => ofRat (x + y)
    | .inf s, .inf s' => if s = s' then .inf s else .nan
    | .inf s, .finite _ | .finite _, .inf s => .inf s
    | _, _ => .nan

instance : Neg PyFloat where
  neg
    | .finite x => .finite (-x)
    | .inf s => .inf !s
    | .nan => .nan

instance : Sub PyFloat := ⟨fun x y => x + -y⟩

instance : Mul PyFloat where
  mul
    | .finite x, .finite y => ofRat (x * y)
    | .inf s, .inf s' => .inf (s ^^ s')
    | .inf s, .finite x | .finite x, .inf s => if x = 0 then .nan else .inf (s ^^ decide (x < 0))
    | _, _ => .nan

/-- `fabs(x) >= fabs(y)` -/
def absGe : PyFloat → PyFloat → Bool
  | .finite x, .finite y => decide (|y| ≤ |x|)
  | .inf _, .finite _ | .inf _, .inf _ => true
  | _, _ => false

/-- A step of `sum`, which carries the sum `f` and the compensation `c`. -/
def sumStep : PyFloat × PyFloat → PyFloat → PyFloat × PyFloat
  | (f, c), x =>
    let t := f + x
    (t, c + if f.absGe x then (f - t) + x else (x - t) + f)

/-- The end of `sum`. -/
def compensated : PyFloat × PyFloat → PyFloat
  | (f, c) => if c.isFinite ∧ c ≠ 0 then f + c else f

/-- `sum(xs)`.  It starts with the integer 0; the compensation begins after the first float. -/
def sum : List PyFloat → PyFloat
  | [] => 0
  | x :: xs => compensated (xs.foldl sumStep (0 + x, 0))

-- as Python 3.12 has it
example : sum (List.replicate 10 (ofRat 0.1)) = 1 := by decide +kernel

example : (ofInt (10 ^ 309)).isFinite = false := by decide +kernel

/-! ### Sums without rounding -/

variable {x y : ℚ} {xs : List ℚ}

theorem roundEven_intCast (n : ℤ) : roundEven n = n := by simp [roundEven]

theorem roundEven_neg (x : ℚ) : roundEven (-x) = -roundEven x := by
  by_cases hx : Int.fract x = 0
  · obtain ⟨n, rfl⟩ := Int.fract_eq_zero_iff.1 hx
    rw [← Int.cast_neg, roundEven_intCast, roundEven_intCast]
  · have hfloor : ⌊-x⌋ = -⌊x⌋ - 1 := by
      have hlt : 0 < Int.fract x := (Int.fract_nonneg x).lt_of_ne (Ne.symm hx)
      rw [Int.fract] at hlt
      have hhi := Int.lt_floor_add_one x
      refine Int.floor_eq_iff.2 ⟨?_, ?_⟩ <;> push_cast <;> linarith
    unfold roundEven
    rw [hfloor, Int.fract_neg hx]
    -- at a tie, one of the two neighbours is even
    rcases lt_trichotomy (Int.fract x) (1 / 2) with h | h | h
    · rw [if_neg, if_pos (.inl h)]
      · ring
      · rintro (h' | ⟨h', -⟩) <;> linarith
    · rw [h]
      norm_num
      split_ifs <;> omega
    · rw [if_pos (.inl (by linarith)), if_neg]
      · ring
      · rintro (h' | ⟨h', -⟩) <;> linarith

theorem nearest_neg (x : ℚ) : nearest (-x) = -nearest x := by
  have hulp : ulp (-x) = ulp x := by rw [ulp, abs_neg, ulp]
  rw [nearest, hulp, neg_div, roundEven_neg, nearest]
  push_cast
  ring

/-- The rational is a float. -/
def Exact (x : ℚ) : Prop := ofRat x = .finite x

instance (x : ℚ) : Decidable (Exact x) := inferInstanceAs (Decidable (_ = _))

theorem Exact.neg (h : Exact x) : Exact (-x) := by
  have hr : nearest x = x ∧ |nearest x| < 2 ^ 1024 := by
    unfold Exact ofRat at h
    split_ifs at h with hlt
    exact ⟨PyFloat.finite.inj h, hlt⟩
  rw [Exact, ofRat, nearest_neg, abs_neg, if_pos hr.2, hr.1]

theorem exact_zero : Exact 0 := by decide +kernel

theorem add_exact (h : Exact (x + y)) : (.finite x + .finite y : PyFloat) = .finite (x + y) := h

/-- Nothing has to be compensated. -/
theorem sumStep_exact (hx : Exact x) (hy : Exact y) (h : Exact (x + y)) :
    sumStep (.finite x, 0) (.finite y) = (.finite (x + y), 0) := by
  have hsub : ∀ {a b : ℚ}, Exact b → (.finite a - .finite (a + b) : PyFloat) = .finite (-b) := by
    intro a b hb
    show ofRat (a + -(a + b)) = _
    rw [show a + -(a + b) = -b by ring]
    exact hb.neg
  have hcancel : ∀ a : ℚ, (.finite (-a) + .finite a : PyFloat) = 0 := by
    intro a
    show ofRat (-a + a) = _
    rw [neg_add_cancel]
    exact exact_zero
  have hc : (0 + 0 : PyFloat) = 0 := by decide +kernel
  simp only [sumStep, add_exact h]
  split_ifs
  · rw [hsub hy, hcancel, hc]
  · rw [add_comm x y, hsub hx, hcancel, hc]

theorem foldl_sumStep_exact (hx : Exact x) (hxs : ∀ y ∈ xs, Exact y)
    (h : ∀ pre, pre <+: xs → Exact (x + pre.sum)) :
    (xs.map .finite).foldl sumStep (.finite x, 0) = (.finite (x + xs.sum), 0) := by
  induction xs generalizing x with
  | nil => simp
  | cons y xs ih =>
    have hy : Exact (x + y) := by
      simpa using h [y] ⟨xs, rfl⟩
    rw [List.map_cons, List.foldl_cons, sumStep_exact hx (hxs y List.mem_cons_self) hy,
      ih hy (fun z hz => hxs z (List.mem_cons_of_mem _ hz)) fun pre hp => ?_]
    · rw [List.sum_cons, add_assoc]
    · have := h (y :: pre) (List.cons_prefix_cons.2 ⟨rfl, hp⟩)
      rwa [List.sum_cons, ← add_assoc] at this

/-- **The sum of floats whose partial sums are floats.** -/
theorem sum_exact (hxs : ∀ x ∈ xs, Exact x) (h : ∀ pre, pre <+: xs → Exact pre.sum) :
    sum (xs.map .finite) = .finite xs.sum := by
  cases xs with
  | nil => rfl
  | cons x xs =>
    have hx : Exact x := hxs x List.mem_cons_self
    have hfirst : (0 + .finite x : PyFloat) = .finite x := by
      show ofRat (0 + x) = _
      rw [zero_add]
      exact hx
    rw [List.map_cons, sum, hfirst, foldl_sumStep_exact hx
      (fun y hy => hxs y (List.mem_cons_of_mem _ hy)) fun pre hp => ?_]
    · rfl
    · simpa using h (x :: pre) (List.cons_prefix_cons.2 ⟨rfl, hp⟩)

end PyFloat

end FoodFlow
