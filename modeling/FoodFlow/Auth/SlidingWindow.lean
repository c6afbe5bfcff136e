import FoodFlow.Auth.RateLimiter
import FoodFlow.Limiter.Windows

/-!
# The sliding window of the rate limiter

`rate_limiter.py` documents a sliding window.  The expiry of a counter is set when it is created,
and not moved: while Redis is available, the middleware counts in fixed windows.

* `admitted` : the requests that the middleware lets through;
* `admitted_time` : they are the first of every fixed window;
* `sliding_window` : **when they keep the limit in every window of `WINDOW_SECONDS`**;
* `admitted_double` : twice the limit is kept always.
-/

namespace FoodFlow

namespace Auth

namespace RateLimiter

open Limiter (Window windows windowsFrom Apart Limits Covers)

/-- The requests that the middleware lets through, from a state of Redis on. -/
def admittedFrom (s : Redis) : List Request → List Request
  | [] => []
  | r :: rs =>
    (if (dispatch s r).2 = .next then [r] else []) ++ admittedFrom (dispatch s r).1 rs

/-- The requests that the middleware lets through. -/
def admitted (rs : List Request) : List Request := admittedFrom .empty rs

/-- Redis is available to the middleware. -/
structure Request.Available (r : Request) : Prop where
  connected : r.connected = true
  incr : r.incr = .succeeds
  expire : r.expire = .succeeds

/-- `WINDOW_SECONDS` later. -/
def windowEnd (t : Time) : Time := t + 1000 * windowSeconds

/-- How many of the requests have come in the `WINDOW_SECONDS` that end at `t`. -/
def inWindow (t : Time) (rs : List Request) : ℕ :=
  rs.countP fun r => r.time ≤ t ∧ t < windowEnd r.time

variable {s : Redis} {r : Request} {rs : List Request} {key ip : String} {c : Counter}

theorem covers_windowEnd : Covers windowEnd windowEnd where
  le_close t := Nat.le_add_right t _
  monotone_close _ _ h := Nat.add_le_add_right h _
  monotone_span _ _ h := Nat.add_le_add_right h _
  span_le _ _ h := h.le

theorem admittedFrom_append (rs rs' : List Request) : admittedFrom s (rs ++ rs') =
    admittedFrom s rs ++ admittedFrom (rs.foldl (fun s r => (dispatch s r).1) s) rs' := by
  induction rs generalizing s with
  | nil => rfl
  | cons r rs ih =>
    rw [List.cons_append, admittedFrom, admittedFrom, ih, List.append_assoc]
    rfl

theorem dispatch_next : (dispatch s r).2 = .next ↔
    (r.connected = true → r.incr = .succeeds → (s.incr r.time r.key).2 ≤ rateLimit) := by
  cases h : (dispatch s r).2 with
  | next =>
    refine iff_of_true rfl fun hconn hincr => not_lt.1 fun hlimit => ?_
    rw [dispatch_snd.2 ⟨hconn, hincr, hlimit, rfl, rfl⟩] at h
    cases h
  | raised statusCode detail =>
    obtain ⟨hconn, hincr, hlimit, -⟩ := dispatch_snd.1 h
    exact iff_of_false nofun fun hle => hlimit.not_ge (hle hconn hincr)

/-- They are the requests that are not rejected. -/
theorem admitted_snoc : (Rejected rs r → admitted (rs ++ [r]) = admitted rs) ∧
    (¬ Rejected rs r → admitted (rs ++ [r]) = admitted rs ++ [r]) := by
  have hsnoc : admitted (rs ++ [r]) =
      admitted rs ++ if (dispatch (serve rs) r).2 = .next then [r] else [] := by
    rw [admitted, admittedFrom_append, admittedFrom, admittedFrom, List.append_nil]
    rfl
  have hnext : (dispatch (serve rs) r).2 = .next ↔ ¬ Rejected rs r := by
    rw [dispatch_next, rejected_iff]
    push Not
    rfl
  rw [hsnoc]
  constructor
  · intro h
    rw [if_neg fun hn => hnext.1 hn h, List.append_nil]
  · intro h
    rw [if_pos (hnext.2 h)]

/-! ### The windows of a counter -/

theorem Request.Available.counts (h : r.Available) : r.Counts :=
  ⟨h.connected, by rw [h.incr]; rfl⟩

/-- A counter that can be read counts the request, which passes below the limit. -/
theorem dispatch_live (hs : Positive s) (h : r.Available) (hc : s.get r.time r.key = some c) :
    (dispatch s r).1 r.key = some { c with value := c.value + 1 } ∧
      ((dispatch s r).2 = .next ↔ c.value < rateLimit) := by
  refine ⟨dispatch_some hs h.counts hc, ?_⟩
  rw [dispatch_next, Redis.incr, hc]
  exact ⟨fun hle => hle h.connected h.incr, fun hlt _ _ => hlt⟩

/-- Otherwise it opens a window. -/
theorem dispatch_opens (h : r.Available) (hc : s.get r.time r.key = none) :
    (dispatch s r).1 r.key = some ⟨1, some (windowEnd r.time)⟩ ∧ (dispatch s r).2 = .next := by
  constructor
  · rw [dispatch_none h.counts hc, if_pos ⟨h.incr, by rw [h.expire]; rfl⟩]
    rfl
  · rw [dispatch_next, Redis.incr, hc]
    exact fun _ _ => show 1 ≤ rateLimit by decide

/-- The counter of a window goes on with the windows after it. -/
theorem admittedFrom_time {w : Window Time} (hs : Positive s) (hkey : ∀ r ∈ rs, r.key = key)
    (havail : ∀ r ∈ rs, r.Available)
    (hw : s key = some ⟨w.arrivals.length, some (windowEnd w.start)⟩) :
    w.arrivals.take rateLimit ++ (admittedFrom s rs).map (·.time) =
      Limiter.admitted rateLimit (windowsFrom windowEnd w (rs.map (·.time))) := by
  induction rs generalizing s w with
  | nil => simp [admittedFrom, windowsFrom, Limiter.admitted]
  | cons r rs ih =>
    obtain ⟨rfl, hkeys⟩ := List.forall_mem_cons.1 hkey
    obtain ⟨hr, havails⟩ := List.forall_mem_cons.1 havail
    have hpos := dispatch_positive (r := r) hs
    rw [admittedFrom, List.map_cons, windowsFrom]
    by_cases ht : r.time ≤ windowEnd w.start
    · obtain ⟨hstored, hnext⟩ := dispatch_live hs hr (get_eq_some.2 ⟨hw, by simpa using ht⟩)
      have hlen : (w.add r.time).arrivals.length = w.arrivals.length + 1 := by simp
      rw [if_pos ht, ← ih hpos hkeys havails (by rw [hstored, hlen]; rfl), Window.take_arrivals_add,
        List.append_assoc, List.map_append]
      simp only [hnext]
      split_ifs <;> rfl
    · have hnone : s.get r.time r.key = none := by
        rw [Redis.get, hw]
        simpa using ht
      obtain ⟨hstored, hnext⟩ := dispatch_opens hr hnone
      rw [if_neg ht, Limiter.admitted_cons, ← ih (w := ⟨r.time, []⟩) hpos hkeys havails hstored,
        if_pos hnext]
      rfl

/-- With Redis available, the middleware lets through the first requests of every fixed window of an
address. -/
theorem admitted_time (hip : ∀ r ∈ rs, r.clientIp = ip) (havail : ∀ r ∈ rs, r.Available) :
    (admitted rs).map (·.time) =
      Limiter.admitted rateLimit (windows windowEnd (rs.map (·.time))) := by
  cases rs with
  | nil => rfl
  | cons r rs =>
    have hkey : ∀ r' ∈ rs, r'.key = r.key := by
      intro r' hr'
      rw [Request.key, Request.key, hip r' (List.mem_cons_of_mem _ hr'), hip r List.mem_cons_self]
    obtain ⟨hr, havails⟩ := List.forall_mem_cons.1 havail
    obtain ⟨hstored, hnext⟩ := dispatch_opens (s := .empty) hr rfl
    have hpos : Positive (dispatch .empty r).1 := dispatch_positive nofun
    rw [admitted, admittedFrom, if_pos hnext, List.map_cons, windows,
      ← admittedFrom_time (w := ⟨r.time, []⟩) hpos hkey havails hstored]
    rfl

/-- The requests in a window are those let through by the fixed windows. -/
theorem inWindow_admitted (hip : ∀ r ∈ rs, r.clientIp = ip) (havail : ∀ r ∈ rs, r.Available)
    (t : Time) : inWindow t (admitted rs) =
      (Limiter.admitted rateLimit (windows windowEnd (rs.map (·.time)))).countP
        fun x => x ≤ t ∧ t < windowEnd x := by
  rw [← admitted_time hip havail, List.countP_map]
  rfl

/-! ### The limit of the sliding window -/

/-- Requests of the address `ip` at the given times. -/
def requestsFrom (ip : String) (times : List Time) : List Request :=
  times.map fun t => requestFrom ip t

theorem requestsFrom_clientIp {times : List Time} : ∀ r ∈ requestsFrom ip times, r.clientIp = ip :=
  List.forall_mem_map.2 fun _ _ => rfl

theorem requestsFrom_available {times : List Time} : ∀ r ∈ requestsFrom ip times, r.Available :=
  List.forall_mem_map.2 fun _ _ => ⟨rfl, rfl, rfl⟩

/-- In a sequence of requests of one address, with Redis available, no window of `WINDOW_SECONDS`
gets more than `RATE_LIMIT` requests through just when none that straddles the expiry of a counter
does: if `k` requests come to a counter, the `i`-th of them is as old as a window when the one with
the number `i + (RATE_LIMIT - k)` comes to the next counter. -/
theorem sliding_window (hsorted : rs.Pairwise (·.time ≤ ·.time))
    (hip : ∀ r ∈ rs, r.clientIp = ip) (havail : ∀ r ∈ rs, r.Available) :
    (∀ t, inWindow t (admitted rs) ≤ rateLimit) ↔
      (windows windowEnd (rs.map (·.time))).IsChain (Apart rateLimit windowEnd) := by
  simp only [inWindow_admitted hip havail]
  exact Limiter.limits_admitted_iff covers_windowEnd (List.pairwise_map.2 hsorted)

/-- The first counter begins with a request that is out of the window when the next one comes, and
29 others follow it. -/
theorem sliding_window_steady : ¬ ∃ t, rateLimit < inWindow t (admitted
    (requestsFrom "203.0.113.7" (0 :: List.replicate 29 30000 ++ [60001]))) := by
  push Not
  exact (sliding_window (by decide) requestsFrom_clientIp requestsFrom_available).2 (by decide)

/-- One request opens the counter, 29 come shortly before its expiry, and 30 shortly after it: the
last 59 get through in two seconds. -/
theorem sliding_window_straddled : ¬ ∀ (ip : String) (rs : List Request) (t : Time),
    rs.Pairwise (·.time ≤ ·.time) → (∀ r ∈ rs, r.clientIp = ip) → (∀ r ∈ rs, r.Available) →
      inWindow t (admitted rs) ≤ rateLimit := by
  intro h
  have hle := h _ (requestsFrom "203.0.113.7"
    (0 :: List.replicate 29 59000 ++ List.replicate 30 61000)) 61000 (by decide)
    requestsFrom_clientIp requestsFrom_available
  rw [inWindow_admitted requestsFrom_clientIp requestsFrom_available] at hle
  exact absurd hle (by decide)

/-- Twice the limit gets through in no window. -/
theorem admitted_double (hsorted : rs.Pairwise (·.time ≤ ·.time))
    (hip : ∀ r ∈ rs, r.clientIp = ip) (havail : ∀ r ∈ rs, r.Available) (t : Time) :
    inWindow t (admitted rs) ≤ rateLimit + rateLimit := by
  rw [inWindow_admitted hip havail]
  exact Limiter.limits_admitted_double covers_windowEnd (List.pairwise_map.2 hsorted) t

end RateLimiter

end Auth

end FoodFlow
