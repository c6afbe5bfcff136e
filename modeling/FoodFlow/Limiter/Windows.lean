import Mathlib.Data.List.Chain
import Mathlib.Order.Lattice
import Mathlib.Order.Monotone.Basic

/-!
# Fixed and sliding windows

A limiter that counts in *fixed windows*: an arrival opens a window, which takes those that come up
to its close, and the first `n` of every window are let through.  Times are of any linear order.

* `windows` : the fixed windows of some arrivals;
* `admitted` : what is let through;
* `Limits` : a *sliding window* of any position has at most `n` arrivals;
* `limits_iff_spaced` : the arrivals that are `n` apart do not fit into a sliding window;
* `limits_admitted_iff` : **when the fixed windows keep the limit of the sliding one**, a condition
  on each two consecutive windows;
* `limits_admitted_double` : twice the limit is kept always;
* `Opens.limits` : windows of any lengths that open a span after one another stay below it.
-/

namespace FoodFlow

namespace Limiter

variable {α : Type*}

/-- The arrivals of a window: that which opens it, and the later ones. -/
structure Window (α : Type*) where
  start : α
  rest : List α := []
  deriving DecidableEq, Repr

namespace Window

/-- In the order of their coming. -/
def arrivals (w : Window α) : List α := w.start :: w.rest

/-- One more arrival. -/
def add (w : Window α) (t : α) : Window α := { w with rest := w.rest ++ [t] }

@[simp] theorem start_add (w : Window α) (t : α) : (w.add t).start = w.start := rfl

@[simp] theorem arrivals_add (w : Window α) (t : α) : (w.add t).arrivals = w.arrivals ++ [t] := rfl

@[simp] theorem arrivals_single (t : α) : (⟨t, []⟩ : Window α).arrivals = [t] := rfl

theorem take_arrivals_add (n : ℕ) (w : Window α) (t : α) : (w.add t).arrivals.take n =
    w.arrivals.take n ++ if w.arrivals.length < n then [t] else [] := by
  rw [arrivals_add, List.take_append]
  split_ifs with h
  · rw [List.take_of_length_le (l := [t]) (Nat.sub_pos_of_lt h)]
  · rw [Nat.sub_eq_zero_of_le (not_lt.1 h), List.take_zero]

end Window

/-- The first `n` arrivals of every window. -/
def admitted (n : ℕ) (ws : List (Window α)) : List α := ws.flatMap fun w => w.arrivals.take n

theorem admitted_cons (n : ℕ) (w : Window α) (ws : List (Window α)) :
    admitted n (w :: ws) = w.arrivals.take n ++ admitted n ws := rfl

theorem admitted_sublist (n : ℕ) (ws : List (Window α)) :
    (admitted n ws).Sublist (ws.flatMap Window.arrivals) := by
  induction ws with
  | nil => exact List.Sublist.refl _
  | cons w ws ih =>
    rw [admitted_cons, List.flatMap_cons]
    exact (List.take_sublist _ _).append ih

/-- The first window lets no more than `n` arrivals through: `n` further, they are those of the
later ones. -/
theorem getElem?_admitted_cons_add (n i : ℕ) (w : Window α) (ws : List (Window α)) :
    (admitted n (w :: ws))[i + n]? = (admitted n ws)[i + (n - w.arrivals.length)]? := by
  have hle : (w.arrivals.take n).length ≤ i + n := (List.length_take_le _ _).trans (by omega)
  rw [admitted_cons, List.getElem?_append_right hle, List.length_take]
  congr 1
  omega

/-- An arrival let through is one of the first window, or one of the later ones. -/
theorem getElem?_admitted_cons {n i : ℕ} {w : Window α} {ws : List (Window α)} {x : α}
    (h : (admitted n (w :: ws))[i]? = some x) : (i < n ∧ w.arrivals[i]? = some x) ∨
      ∃ j, i = j + min n w.arrivals.length ∧ (admitted n ws)[j]? = some x := by
  rw [admitted_cons] at h
  by_cases hi : i < (w.arrivals.take n).length
  · rw [List.getElem?_append_left hi] at h
    rw [List.length_take] at hi
    have hin : i < n := by omega
    exact .inl ⟨hin, by rwa [List.getElem?_take_of_lt hin] at h⟩
  · rw [List.getElem?_append_right (not_lt.1 hi), List.length_take] at h
    rw [List.length_take] at hi
    exact .inr ⟨_, by omega, h⟩

variable [LinearOrder α]

/-- The window that is open and the later ones, after further arrivals. -/
def windowsFrom (close : α → α) (w : Window α) : List α → List (Window α)
  | [] => [w]
  | t :: ts =>
    if t ≤ close w.start then windowsFrom close (w.add t) ts
    else w :: windowsFrom close ⟨t, []⟩ ts

/-- The fixed windows. -/
def windows (close : α → α) : List α → List (Window α)
  | [] => []
  | t :: ts => windowsFrom close ⟨t, []⟩ ts

/-- Of the arrivals `ts`, each of which counts from its own time until `span` of it, no more than
`n` count at a time. -/
def Limits (n : ℕ) (span : α → α) (ts : List α) : Prop :=
  ∀ t, ts.countP (fun x => x ≤ t ∧ t < span x) ≤ n

/-- Arrivals that are `n` apart never count at the same time. -/
def Spaced (n : ℕ) (span : α → α) (ts : List α) : Prop :=
  ∀ i x y, ts[i]? = some x → ts[i + n]? = some y → span x ≤ y

/-- An arrival that the window `V` lets through has ceased to count when the `n`-th one after it
comes, of those that `V` and the next window `W` let through. -/
def Apart (n : ℕ) (span : α → α) (V W : Window α) : Prop :=
  ∀ i < n, ∀ x ∈ V.arrivals[i]?, ∀ y ∈ W.arrivals[i + (n - V.arrivals.length)]?, span x ≤ y

instance (n : ℕ) (span : α → α) (V W : Window α) : Decidable (Apart n span V W) :=
  inferInstanceAs (Decidable (∀ i < n, ∀ x ∈ _, ∀ y ∈ _, _))

/-- A window closes when the arrival that opens it has ceased to count, or later. -/
structure Covers (close span : α → α) : Prop where
  le_close : ∀ t, t ≤ close t
  monotone_close : Monotone close
  monotone_span : Monotone span
  span_le : ∀ x y, close x < y → span x ≤ y

/-- Windows in their order, each of which takes the arrivals up to the next one, and opens when the
opening of the one before it has ceased to count, or later. -/
structure Opens (span : α → α) (ws : List (Window α)) : Prop where
  sorted : (ws.flatMap Window.arrivals).Pairwise (· ≤ ·)
  span_le : ws.Pairwise fun V W => span V.start ≤ W.start

variable {n : ℕ} {close span : α → α} {t x y : α} {ts : List α} {w V W : Window α}
  {ws : List (Window α)}

/-! ### Sliding windows -/

theorem Spaced.tail (h : Spaced n span (x :: ts)) : Spaced n span ts := by
  intro i x y hx hy
  refine h (i + 1) x y hx ?_
  rw [Nat.add_right_comm]
  exact hy

/-- The order of sorted arrivals. -/
theorem le_of_getElem? (hsorted : ts.Pairwise (· ≤ ·)) {i j : ℕ} (hij : i ≤ j)
    (hx : ts[i]? = some x) (hy : ts[j]? = some y) : x ≤ y := by
  obtain ⟨hi, rfl⟩ := List.getElem?_eq_some_iff.1 hx
  obtain ⟨hj, rfl⟩ := List.getElem?_eq_some_iff.1 hy
  obtain rfl | hlt := hij.eq_or_lt
  · exact le_rfl
  · exact List.pairwise_iff_getElem.1 hsorted i j hi hj hlt

theorem Limits.spaced (h : Limits n span ts) (hsorted : ts.Pairwise (· ≤ ·))
    (hspan : Monotone span) : Spaced n span ts := by
  intro i x y hx hy
  by_contra hlt
  -- all the arrivals from the one to the other count when the later one comes
  have hcounts : ∀ z ∈ (ts.drop i).take (n + 1), z ≤ y ∧ y < span z := by
    intro z hz
    obtain ⟨j, hj⟩ := List.mem_iff_getElem?.1 hz
    rw [List.getElem?_take] at hj
    split_ifs at hj with hjn
    rw [List.getElem?_drop] at hj
    exact ⟨le_of_getElem? hsorted (by omega) hj hy,
      (not_le.1 hlt).trans_le (hspan (le_of_getElem? hsorted (by omega) hx hj))⟩
  have hlen : ((ts.drop i).take (n + 1)).length = n + 1 := by
    have := (List.getElem?_eq_some_iff.1 hy).1
    rw [List.length_take, List.length_drop]
    omega
  have hsub : ((ts.drop i).take (n + 1)).Sublist ts :=
    (List.take_sublist _ _).trans (List.drop_sublist _ _)
  have hle := (hsub.countP_le (p := fun z => decide (z ≤ y ∧ y < span z))).trans (h y)
  rw [List.countP_eq_length.2 fun z hz => decide_eq_true (hcounts z hz), hlen] at hle
  omega

theorem Spaced.limits (h : Spaced n span ts) (hsorted : ts.Pairwise (· ≤ ·))
    (hspan : Monotone span) : Limits n span ts := by
  intro t
  induction ts with
  | nil => exact Nat.zero_le n
  | cons x ts ih =>
    by_cases hx : x ≤ t ∧ t < span x
    · -- while the first one counts, those from the next `n` on have not come
      have hlater : ∀ z ∈ (x :: ts).drop n, ¬ (z ≤ t ∧ t < span z) := by
        intro z hz
        obtain ⟨j, hj⟩ := List.mem_iff_getElem?.1 hz
        rw [List.getElem?_drop] at hj
        have hjlen : j < (x :: ts).length := by
          have := (List.getElem?_eq_some_iff.1 hj).1
          omega
        have hu : (x :: ts)[j]? = some (x :: ts)[j] := List.getElem?_eq_getElem hjlen
        have hxu : x ≤ (x :: ts)[j] := le_of_getElem? hsorted (Nat.zero_le j) rfl hu
        have huz : span (x :: ts)[j] ≤ z := h j _ z hu (by rwa [Nat.add_comm])
        exact fun hz => absurd hz.1 (hx.2.trans_le ((hspan hxu).trans huz)).not_ge
      have hzero : ((x :: ts).drop n).countP (fun z => z ≤ t ∧ t < span z) = 0 :=
        List.countP_eq_zero.2 fun z hz => by simpa using hlater z hz
      rw [← List.take_append_drop n (x :: ts), List.countP_append, hzero]
      exact List.countP_le_length.trans (List.length_take_le _ _)
    · rw [List.countP_cons_of_neg (by simpa using hx)]
      exact ih h.tail hsorted.tail

/-- The arrivals of a sliding window are within the limit just when those that are `n` apart do not
fit into one. -/
theorem limits_iff_spaced (hsorted : ts.Pairwise (· ≤ ·)) (hspan : Monotone span) :
    Limits n span ts ↔ Spaced n span ts :=
  ⟨fun h => h.spaced hsorted hspan, fun h => h.limits hsorted hspan⟩

/-! ### Fixed windows -/

@[simp] theorem arrivals_windowsFrom :
    (windowsFrom close w ts).flatMap Window.arrivals = w.arrivals ++ ts := by
  induction ts generalizing w with
  | nil => simp [windowsFrom]
  | cons t ts ih =>
    unfold windowsFrom
    split_ifs <;> simp [ih]

/-- Every arrival is in one window. -/
theorem arrivals_windows : (windows close ts).flatMap Window.arrivals = ts := by
  cases ts with
  | nil => rfl
  | cons t ts => simp [windows]

/-- The fixed windows in their order: none takes an arrival after its close, and the later ones
begin after it. -/
structure Cut (close : α → α) (ws : List (Window α)) : Prop where
  within : ∀ w ∈ ws, ∀ x ∈ w.arrivals, x ≤ close w.start
  after : ws.Pairwise fun V W => ∀ y ∈ W.arrivals, close V.start < y

theorem Cut.tail (h : Cut close (w :: ws)) : Cut close ws :=
  ⟨fun V hV => h.within V (List.mem_cons_of_mem _ hV), h.after.tail⟩

theorem cut_windowsFrom (hsorted : ts.Pairwise (· ≤ ·)) (hclose : ∀ t, t ≤ close t)
    (hw : ∀ x ∈ w.arrivals, x ≤ close w.start) : Cut close (windowsFrom close w ts) := by
  induction ts generalizing w with
  | nil => exact ⟨by simpa [windowsFrom] using hw, by simp [windowsFrom]⟩
  | cons t ts ih =>
    unfold windowsFrom
    split_ifs with ht
    · refine ih hsorted.tail fun x hx => ?_
      rw [Window.arrivals_add, List.mem_append, List.mem_singleton] at hx
      obtain hx | rfl := hx
      · exact hw x hx
      · exact ht
    · have hcut : Cut close (windowsFrom close ⟨t, []⟩ ts) :=
        ih hsorted.tail (by simpa using hclose t)
      refine ⟨List.forall_mem_cons.2 ⟨hw, hcut.within⟩, List.pairwise_cons.2 ⟨?_, hcut.after⟩⟩
      intro W hW y hy
      have hmem : y ∈ (windowsFrom close ⟨t, []⟩ ts).flatMap Window.arrivals :=
        List.mem_flatMap.2 ⟨W, hW, hy⟩
      rw [arrivals_windowsFrom] at hmem
      obtain rfl | hy := List.mem_cons.1 hmem
      · exact not_le.1 ht
      · exact (not_le.1 ht).trans_le (List.rel_of_pairwise_cons hsorted hy)

theorem cut_windows (hsorted : ts.Pairwise (· ≤ ·)) (hclose : ∀ t, t ≤ close t) :
    Cut close (windows close ts) := by
  cases ts with
  | nil => exact ⟨by simp [windows], List.Pairwise.nil⟩
  | cons t ts => exact cut_windowsFrom hsorted.tail hclose (by simpa using hclose t)

/-- Two windows later, an arrival has ceased to count. -/
theorem Cut.span_le (h : Cut close (V :: W :: ws)) (hcovers : Covers close span)
    (hx : x ∈ V.arrivals) (hy : y ∈ admitted n ws) : span x ≤ y := by
  have hlt : close V.start < W.start :=
    List.rel_of_pairwise_cons h.after List.mem_cons_self _ List.mem_cons_self
  obtain ⟨U, hU, hyU⟩ := List.mem_flatMap.1 ((admitted_sublist n ws).subset hy)
  refine hcovers.span_le x y ?_
  calc close x ≤ close W.start :=
        hcovers.monotone_close ((h.within V List.mem_cons_self x hx).trans hlt.le)
    _ < y := List.rel_of_pairwise_cons h.tail.after hU y hyU

theorem spaced_admitted_cons : Spaced n span (admitted n (V :: ws)) ↔
    (∀ i < n, ∀ x ∈ V.arrivals[i]?, ∀ y ∈ (admitted n ws)[i + (n - V.arrivals.length)]?,
      span x ≤ y) ∧ Spaced n span (admitted n ws) := by
  constructor
  · intro h
    constructor
    · intro i hi x hx y hy
      have hlen : i < (V.arrivals.take n).length := by
        rw [List.length_take]
        exact lt_min hi (List.getElem?_eq_some_iff.1 hx).1
      refine h i x y ?_ (by rwa [getElem?_admitted_cons_add])
      rwa [admitted_cons, List.getElem?_append_left hlen, List.getElem?_take_of_lt hi]
    · intro i x y hx hy
      refine h (i + (V.arrivals.take n).length) x y ?_ ?_
      · rwa [admitted_cons, List.getElem?_append_right (Nat.le_add_left _ _), Nat.add_sub_cancel]
      · rw [getElem?_admitted_cons_add, ← hy, List.length_take]
        congr 1
        omega
  · rintro ⟨hfirst, htail⟩ i x y hx hy
    rw [getElem?_admitted_cons_add] at hy
    obtain ⟨hi, hxV⟩ | ⟨j, rfl, hxs⟩ := getElem?_admitted_cons hx
    · exact hfirst i hi x hxV y hy
    · refine htail j x y hxs ?_
      rw [← hy]
      congr 1
      omega

/-- Only two windows in a row matter. -/
theorem spaced_admitted_iff (hcovers : Covers close span) (hcut : Cut close ws) :
    Spaced n span (admitted n ws) ↔ ws.IsChain (Apart n span) := by
  induction ws with
  | nil => exact ⟨fun _ => .nil, nofun⟩
  | cons V ws ih =>
    rw [spaced_admitted_cons, ih hcut.tail]
    cases ws with
    | nil => exact ⟨fun _ => .singleton V, fun _ => ⟨nofun, .nil⟩⟩
    | cons W ws =>
      rw [List.isChain_cons_cons]
      refine and_congr_left fun _ => forall₂_congr fun i hi => forall₂_congr fun x hx => ?_
      -- the index is one of those that `W` lets through
      have hin : i + (n - V.arrivals.length) < n := by
        have := (List.getElem?_eq_some_iff.1 hx).1
        omega
      rw [admitted_cons]
      by_cases hj : i + (n - V.arrivals.length) < (W.arrivals.take n).length
      · rw [List.getElem?_append_left hj, List.getElem?_take_of_lt hin]
      · constructor
        · intro _ y hy
          have := (List.getElem?_eq_some_iff.1 hy).1
          rw [List.length_take] at hj
          omega
        · intro _ y hy
          rw [List.getElem?_append_right (not_lt.1 hj)] at hy
          exact hcut.span_le hcovers (List.mem_of_getElem? hx) (List.mem_of_getElem? hy)

theorem admitted_windows_sorted (hsorted : ts.Pairwise (· ≤ ·)) :
    (admitted n (windows close ts)).Pairwise (· ≤ ·) := by
  have h := admitted_sublist n (windows close ts)
  rw [arrivals_windows] at h
  exact hsorted.sublist h

/-- What a limiter with fixed windows lets through keeps the limit of the sliding window just when
every two consecutive windows do so. -/
theorem limits_admitted_iff (hcovers : Covers close span) (hsorted : ts.Pairwise (· ≤ ·)) :
    Limits n span (admitted n (windows close ts)) ↔
      (windows close ts).IsChain (Apart n span) := by
  rw [limits_iff_spaced (admitted_windows_sorted hsorted) hcovers.monotone_span]
  exact spaced_admitted_iff hcovers (cut_windows hsorted hcovers.le_close)

/-- No three windows in a row have arrivals that count at the same time. -/
theorem spaced_double (hcovers : Covers close span) (hcut : Cut close ws) :
    Spaced (n + n) span (admitted n ws) := by
  induction ws with
  | nil => nofun
  | cons V ws ih =>
    intro i x y hx hy
    rw [← Nat.add_assoc, getElem?_admitted_cons_add] at hy
    obtain ⟨-, hxV⟩ | ⟨j, rfl, hxs⟩ := getElem?_admitted_cons hx
    · cases ws with
      | nil => simp [admitted] at hy
      | cons W ws =>
        rw [Nat.add_right_comm, getElem?_admitted_cons_add] at hy
        exact hcut.span_le hcovers (List.mem_of_getElem? hxV) (List.mem_of_getElem? hy)
    · refine ih hcut.tail j x y hxs ?_
      rw [← hy]
      congr 1
      omega

theorem limits_admitted_double (hcovers : Covers close span) (hsorted : ts.Pairwise (· ≤ ·)) :
    Limits (n + n) span (admitted n (windows close ts)) :=
  (spaced_double hcovers (cut_windows hsorted hcovers.le_close)).limits
    (admitted_windows_sorted hsorted) hcovers.monotone_span

theorem Opens.tail (h : Opens span (w :: ws)) : Opens span ws :=
  ⟨(List.pairwise_append.1 h.sorted).2.1, h.span_le.tail⟩

/-- What later windows let through comes when the opening of the first one has ceased to count. -/
theorem Opens.span_start_le (h : Opens span (V :: ws)) (hy : y ∈ admitted n ws) :
    span V.start ≤ y := by
  obtain ⟨U, hU, hyU⟩ := List.mem_flatMap.1 ((admitted_sublist n ws).subset hy)
  have hsorted : U.arrivals.Pairwise (· ≤ ·) :=
    (List.pairwise_flatMap.1 h.tail.sorted).1 U hU
  refine (List.rel_of_pairwise_cons h.span_le hU).trans ?_
  obtain rfl | hy := List.mem_cons.1 hyU
  · exact le_rfl
  · exact List.rel_of_pairwise_cons hsorted hy

/-- Two windows later, every arrival has ceased to count. -/
theorem Opens.span_le_admitted (hspan : Monotone span) (h : Opens span (V :: W :: ws))
    (hx : x ∈ V.arrivals) (hy : y ∈ admitted n ws) : span x ≤ y := by
  have hxW : x ≤ W.start := (List.pairwise_append.1 h.sorted).2.2 x hx W.start
    (List.mem_flatMap.2 ⟨W, List.mem_cons_self, List.mem_cons_self⟩)
  exact (hspan hxW).trans (h.tail.span_start_le hy)

/-- Of two windows that count at the same time, the opening of the first one does not. -/
theorem Opens.spaced (hspan : Monotone span) (h : Opens span ws) :
    Spaced (n + (n + 1)) span (admitted (n + 1) ws) := by
  induction ws with
  | nil => nofun
  | cons V ws ih =>
    intro i x y hx hy
    rw [← Nat.add_assoc, getElem?_admitted_cons_add] at hy
    obtain ⟨-, hxV⟩ | ⟨j, rfl, hxs⟩ := getElem?_admitted_cons hx
    · cases i with
      | zero =>
        obtain rfl := Option.some.inj hxV
        exact h.span_start_le (List.mem_of_getElem? hy)
      | succ i =>
        cases ws with
        | nil => simp [admitted] at hy
        | cons W ws =>
          rw [show i + 1 + n + (n + 1 - V.arrivals.length) =
            i + (n + 1 - V.arrivals.length) + (n + 1) by omega, getElem?_admitted_cons_add] at hy
          exact h.span_le_admitted hspan (List.mem_of_getElem? hxV) (List.mem_of_getElem? hy)
    · refine ih h.tail j x y hxs ?_
      rw [← hy]
      congr 1
      omega

/-- Windows that open a span after one another let through less than twice the limit. -/
theorem Opens.limits (hspan : Monotone span) (h : Opens span ws) :
    Limits (n + (n + 1)) span (admitted (n + 1) ws) :=
  (h.spaced hspan).limits (h.sorted.sublist (admitted_sublist (n + 1) ws)) hspan

/-- An arrival that the last window takes. -/
theorem Opens.add (h : Opens span (ws ++ [w]))
    (hle : ∀ x ∈ (ws ++ [w]).flatMap Window.arrivals, x ≤ t) : Opens span (ws ++ [w.add t]) := by
  have hflat : (ws ++ [w.add t]).flatMap Window.arrivals =
      (ws ++ [w]).flatMap Window.arrivals ++ [t] := by
    simp [List.flatMap_append]
  refine ⟨?_, ?_⟩
  · rw [hflat, List.pairwise_append]
    refine ⟨h.sorted, List.pairwise_singleton _ _, fun x hx y hy => ?_⟩
    exact List.mem_singleton.1 hy ▸ hle x hx
  · obtain ⟨hws, -, hlast⟩ := List.pairwise_append.1 h.span_le
    refine List.pairwise_append.2 ⟨hws, List.pairwise_singleton _ _, fun V hV W hW => ?_⟩
    obtain rfl := List.mem_singleton.1 hW
    exact hlast V hV w (List.mem_singleton_self w)

/-- An arrival that opens a window. -/
theorem Opens.snoc (h : Opens span ws) (hle : ∀ x ∈ ws.flatMap Window.arrivals, x ≤ t)
    (hspan : ∀ V ∈ ws, span V.start ≤ t) : Opens span (ws ++ [⟨t, []⟩]) := by
  have hflat : (ws ++ [(⟨t, []⟩ : Window α)]).flatMap Window.arrivals =
      ws.flatMap Window.arrivals ++ [t] := by
    simp [List.flatMap_append]
  refine ⟨?_, ?_⟩
  · rw [hflat, List.pairwise_append]
    refine ⟨h.sorted, List.pairwise_singleton _ _, fun x hx y hy => ?_⟩
    exact List.mem_singleton.1 hy ▸ hle x hx
  · refine List.pairwise_append.2 ⟨h.span_le, List.pairwise_singleton _ _, fun V hV W hW => ?_⟩
    exact List.mem_singleton.1 hW ▸ hspan V hV

end Limiter

end FoodFlow
