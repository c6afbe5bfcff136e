import FoodFlow.Shared.Events
import Mathlib.Data.List.Induction
import Mathlib.Logic.Function.Basic

/-!
# The rate limiter of the auth service

`RateLimitMiddleware.dispatch` over the commands of Redis that it uses, any of which may raise, with
or without having taken effect.  Times are in milliseconds.

* `Redis.incr`, `Redis.expire` : the commands, on keys of which some have an expiry;
* `dispatch` : the middleware;
* `Stranded` : the counter of an address has been created, and its expiry has not been set;
* `serve_stranded` : the counters without expiry are the stranded ones, and stay from there on;
* `quiet_admitted_iff` : when a request is let through after a quiet window.
-/

namespace FoodFlow

namespace Auth

namespace RateLimiter

/-! ### Redis -/

/-- An integer under a key, which can be read up to its expiry. -/
structure Counter where
  value : ℕ
  expiresAt : Option Time := none
  deriving DecidableEq, Repr

/-- The keys of a Redis database, all of them integers. -/
def Redis := String → Option Counter

namespace Redis

/-- Before the first command. -/
def empty : Redis := fun _ => none

/-- The counter under a key, unless it has expired. -/
def get (s : Redis) (now : Time) (key : String) : Option Counter :=
  (s key).filter fun c => c.expiresAt.all (now ≤ ·)

/-- Storing a counter. -/
def set (s : Redis) (key : String) (c : Counter) : Redis := Function.update s key (some c)

/-- `INCR`: the value counted up, from 0 if there is none; the expiry stays as it is. -/
def incr (s : Redis) (now : Time) (key : String) : Redis × ℕ :=
  let c := (s.get now key).getD { value := 0 }
  (s.set key { c with value := c.value + 1 }, c.value + 1)

/-- `EXPIRE` -/
def expire (s : Redis) (now : Time) (key : String) (seconds : ℕ) : Redis :=
  match s.get now key with
  | some c => s.set key { c with expiresAt := some (now + 1000 * seconds) }
  | none => s

end Redis

/-- What becomes of a command. -/
inductive Command where
  | succeeds
  /-- It raises, having been executed or not. -/
  | raises (executed : Bool)
  deriving DecidableEq, Repr

/-- The command takes effect. -/
def Command.executed : Command → Bool
  | succeeds => true
  | raises executed => executed

/-! ### The middleware -/

/-- `RATE_LIMIT` -/
def rateLimit : ℕ := 30

/-- `WINDOW_SECONDS` -/
def windowSeconds : ℕ := 60

/-- A request, with what becomes of the commands of its middleware. -/
structure Request where
  time : Time
  /-- `request.client.host`, if there is a client. -/
  host : Option String
  /-- `get_redis()` gives a client. -/
  connected : Bool := true
  incr : Command := .succeeds
  expire : Command := .succeeds
  deriving DecidableEq, Repr

/-- What the middleware does with a request. -/
inductive Dispatched where
  /-- `call_next` -/
  | next
  /-- `HTTPException` -/
  | raised (statusCode : ℕ) (detail : String)
  deriving DecidableEq, Repr

/-- `client_ip` -/
def Request.clientIp (r : Request) : String := r.host.getD "unknown"

/-- `key` -/
def keyOf (clientIp : String) : String := "rate_limit:" ++ clientIp

/-- The key of a request. -/
def Request.key (r : Request) : String := keyOf r.clientIp

/-- `RateLimitMiddleware.dispatch` -/
def dispatch (s : Redis) (r : Request) : Redis × Dispatched :=
  if !r.connected then (s, .next)
  else
    let (s₁, current) := s.incr r.time r.key
    match r.incr with
    -- any error of Redis: fail open
    | .raises executed => (if executed then s₁ else s, .next)
    | .succeeds =>
      if current = 1 then
        let s₂ := s₁.expire r.time r.key windowSeconds
        match r.expire with
        | .raises executed => (if executed then s₂ else s₁, .next)
        | .succeeds =>
          if current > rateLimit then
            (s₂, .raised 429 "Rate limit exceeded. Try again later.")
          else (s₂, .next)
      else if current > rateLimit then
        (s₁, .raised 429 "Rate limit exceeded. Try again later.")
      else (s₁, .next)

/-- Redis after some requests. -/
def serve (rs : List Request) : Redis := rs.foldl (fun s r => (dispatch s r).1) .empty

/-- The middleware rejects the request after those before it. -/
def Rejected (rs : List Request) (r : Request) : Prop :=
  ∃ statusCode detail, (dispatch (serve rs) r).2 = .raised statusCode detail

/-- No request of the same address came during the window before it. -/
def Quiet (rs : List Request) (r : Request) : Prop :=
  ∀ r' ∈ rs, r'.clientIp = r.clientIp → r'.time + 1000 * windowSeconds < r.time

instance (rs : List Request) (r : Request) : Decidable (Quiet rs r) :=
  inferInstanceAs (Decidable (∀ r' ∈ rs, _))

/-! ### What a request does to the counter of an address -/

/-- The request is counted. -/
def Request.Counts (r : Request) : Prop := r.connected = true ∧ r.incr.executed = true

instance (r : Request) : Decidable r.Counts := inferInstanceAs (Decidable (_ ∧ _))

/-- The request creates the counter, and its expiry is not set. -/
def Strands (s : Redis) (r : Request) : Prop :=
  r.Counts ∧ s.get r.time r.key = none ∧ ¬ (r.incr = .succeeds ∧ r.expire.executed = true)

instance (s : Redis) (r : Request) : Decidable (Strands s r) :=
  inferInstanceAs (Decidable (_ ∧ _ ∧ _))

variable {s : Redis} {r : Request} {rs : List Request} {key ip : String} {c : Counter} {n : ℕ}

theorem keyOf_inj {ip ip' : String} : keyOf ip = keyOf ip' ↔ ip = ip' := by
  simp [keyOf]

/-- Every counter has counted something. -/
def Positive (s : Redis) : Prop := ∀ key c, s key = some c → 0 < c.value

theorem get_eq_some {now : Time} :
    s.get now key = some c ↔ s key = some c ∧ c.expiresAt.all (now ≤ ·) := by
  rw [Redis.get, Option.filter_eq_some_iff]

/-- What a request leaves in Redis. -/
theorem dispatch_fst : (dispatch s r).1 = if r.Counts then
    if (s.incr r.time r.key).2 = 1 ∧ r.incr = .succeeds ∧ r.expire.executed = true then
      (s.incr r.time r.key).1.expire r.time r.key windowSeconds
    else (s.incr r.time r.key).1
  else s := by
  unfold dispatch Request.Counts
  by_cases hconn : r.connected = true
  · simp only [hconn, Bool.not_true, Bool.false_eq_true, if_false, true_and]
    cases hincr : r.incr with
    | raises executed => cases executed <;> simp [Command.executed]
    | succeeds =>
      by_cases h : (s.incr r.time r.key).2 = 1
      · cases hexpire : r.expire with
        | succeeds => simp [Command.executed, h, rateLimit]
        | raises executed => cases executed <;> simp [Command.executed, h]
      · simp only [Command.executed, h, false_and, if_true, if_false]
        split_ifs <;> rfl
  · simp [hconn]

theorem incr_other {now : Time} {k : String} (h : key ≠ k) : (s.incr now k).1 key = s key :=
  Function.update_of_ne h _ _

theorem incr_self {now : Time} : (s.incr now key).1 key =
    some { (s.get now key).getD { value := 0 } with
      value := ((s.get now key).getD { value := 0 }).value + 1 } :=
  Function.update_self _ _ _

theorem expire_other {now : Time} {k : String} {seconds : ℕ} (h : key ≠ k) :
    s.expire now k seconds key = s key := by
  unfold Redis.expire
  cases s.get now k with
  | none => rfl
  | some c => exact Function.update_of_ne h _ _

/-- The counters of other addresses stay. -/
theorem dispatch_other (h : key ≠ r.key) : (dispatch s r).1 key = s key := by
  rw [dispatch_fst]
  split_ifs
  · rw [expire_other h, incr_other h]
  · exact incr_other h
  · rfl

/-- The counter of the address of a request that is not counted stays as well. -/
theorem dispatch_not_counts (h : ¬ r.Counts) : (dispatch s r).1 = s := by
  rw [dispatch_fst, if_neg h]

/-- A counter that is there counts up, and keeps its expiry. -/
theorem dispatch_some (hs : Positive s) (h : r.Counts) (hc : s.get r.time r.key = some c) :
    (dispatch s r).1 r.key = some { c with value := c.value + 1 } := by
  have hpos : 0 < c.value := hs _ c (get_eq_some.1 hc).1
  have hcur : ¬ (s.incr r.time r.key).2 = 1 := by
    simp only [Redis.incr, hc, Option.getD_some]
    omega
  rw [dispatch_fst, if_pos h, if_neg fun h => hcur h.1, incr_self, hc]
  rfl

/-- A counter that is not there is created. -/
theorem dispatch_none (h : r.Counts) (hc : s.get r.time r.key = none) :
    (dispatch s r).1 r.key = some ⟨1, if r.incr = .succeeds ∧ r.expire.executed = true then
      some (r.time + 1000 * windowSeconds) else none⟩ := by
  have hcur : (s.incr r.time r.key).2 = 1 := by simp [Redis.incr, hc]
  have hnew : (s.incr r.time r.key).1 r.key = some ⟨1, none⟩ := by rw [incr_self, hc]; rfl
  rw [dispatch_fst, if_pos h]
  by_cases he : r.incr = .succeeds ∧ r.expire.executed = true
  · rw [if_pos ⟨hcur, he⟩, if_pos he, Redis.expire, get_eq_some.2 ⟨hnew, rfl⟩]
    exact Function.update_self _ _ _
  · rw [if_neg fun h => he h.2, if_neg he, hnew]

/-- When the request is rejected. -/
theorem dispatch_snd {statusCode : ℕ} {detail : String} :
    (dispatch s r).2 = .raised statusCode detail ↔ r.connected = true ∧ r.incr = .succeeds ∧
      rateLimit < (s.incr r.time r.key).2 ∧
      statusCode = 429 ∧ detail = "Rate limit exceeded. Try again later." := by
  unfold dispatch
  by_cases hconn : r.connected = true
  · simp only [hconn, Bool.not_true, Bool.false_eq_true, if_false, true_and]
    cases hincr : r.incr with
    | raises executed => simp
    | succeeds =>
      by_cases h : (s.incr r.time r.key).2 = 1
      · cases hexpire : r.expire <;> simp [h, rateLimit]
      · rw [if_neg h]
        split_ifs with hlimit
        · simp [hlimit, eq_comm]
        · simp [hlimit]
  · simp [hconn]

theorem dispatch_positive (hs : Positive s) : Positive (dispatch s r).1 := by
  intro key c hc
  by_cases hcount : r.Counts
  · by_cases hkey : key = r.key
    · subst hkey
      cases hget : s.get r.time r.key with
      | none =>
        rw [dispatch_none hcount hget, Option.some.injEq] at hc
        simp [← hc]
      | some c' =>
        rw [dispatch_some hs hcount hget, Option.some.injEq] at hc
        simp [← hc]
    · rw [dispatch_other hkey] at hc
      exact hs key c hc
  · rw [dispatch_not_counts hcount] at hc
    exact hs key c hc

/-! ### Sequences of requests -/

/-- The requests of an address that are counted. -/
def counted (ip : String) (rs : List Request) : ℕ :=
  rs.countP fun r => decide (r.clientIp = ip ∧ r.Counts)

/-- The counter of an address has been created without an expiry, and has counted to `n` since. -/
def Stranded (rs : List Request) (ip : String) (n : ℕ) : Prop :=
  ∃ pre r post, rs = pre ++ r :: post ∧ r.clientIp = ip ∧ Strands (serve pre) r ∧
    counted ip (r :: post) = n

theorem serve_snoc : serve (rs ++ [r]) = (dispatch (serve rs) r).1 := by
  simp [serve]

theorem serve_positive (rs : List Request) : Positive (serve rs) := by
  induction rs using List.reverseRecOn with
  | nil => nofun
  | append_singleton rs r ih => rw [serve_snoc]; exact dispatch_positive ih

/-- An expiry has been set by a request of the address, to the end of its window. -/
theorem serve_expiresAt (h : serve rs key = some c) {at' : Time} (he : c.expiresAt = some at') :
    ∃ r ∈ rs, r.key = key ∧ at' = r.time + 1000 * windowSeconds := by
  induction rs using List.reverseRecOn generalizing c with
  | nil => cases h
  | append_singleton rs r ih =>
    -- what has been there before comes from an earlier request
    have earlier {c' : Counter} (h' : serve rs key = some c') (he' : c'.expiresAt = some at') :
        ∃ r' ∈ rs ++ [r], r'.key = key ∧ at' = r'.time + 1000 * windowSeconds := by
      obtain ⟨r', hr', hr⟩ := ih h' he'
      exact ⟨r', List.mem_append_left _ hr', hr⟩
    rw [serve_snoc] at h
    by_cases hcount : r.Counts
    · by_cases hkey : key = r.key
      · subst hkey
        cases hget : (serve rs).get r.time r.key with
        | none =>
          rw [dispatch_none hcount hget, Option.some.injEq] at h
          subst h
          dsimp only at he
          split_ifs at he
          cases he
          exact ⟨r, by simp, rfl, rfl⟩
        | some c' =>
          rw [dispatch_some (serve_positive rs) hcount hget, Option.some.injEq] at h
          subst h
          exact earlier (get_eq_some.1 hget).1 he
      · rw [dispatch_other hkey] at h
        exact earlier h he
    · rw [dispatch_not_counts hcount] at h
      exact earlier h he

theorem stranded_snoc : Stranded (rs ++ [r]) ip n ↔
    (r.clientIp = ip ∧ Strands (serve rs) r ∧ n = 1) ∨
      ∃ m, Stranded rs ip m ∧ n = m + if r.clientIp = ip ∧ r.Counts then 1 else 0 := by
  constructor
  · rintro ⟨pre, r', post, hrs, hip, hstrands, hn⟩
    induction post using List.reverseRecOn with
    | nil =>
      obtain ⟨rfl, hr⟩ := List.append_inj' hrs rfl
      cases hr
      refine Or.inl ⟨hip, hstrands, ?_⟩
      rw [← hn, counted, List.countP_singleton, if_pos (by simpa using ⟨hip, hstrands.1⟩)]
    | append_singleton post r'' _ =>
      rw [← List.cons_append, ← List.append_assoc] at hrs
      obtain ⟨rfl, hr⟩ := List.append_inj' hrs rfl
      cases hr
      refine Or.inr ⟨_, ⟨pre, r', post, rfl, hip, hstrands, rfl⟩, ?_⟩
      rw [← hn, ← List.cons_append, counted, List.countP_append, List.countP_singleton]
      simp [counted]
  · rintro (⟨hip, hstrands, rfl⟩ | ⟨m, ⟨pre, r', post, rfl, hip, hstrands, rfl⟩, rfl⟩)
    · refine ⟨rs, r, [], rfl, hip, hstrands, ?_⟩
      rw [counted, List.countP_singleton, if_pos (by simpa using ⟨hip, hstrands.1⟩)]
    · refine ⟨pre, r', post ++ [r], by simp, hip, hstrands, ?_⟩
      rw [← List.cons_append, counted, List.countP_append, List.countP_singleton]
      simp [counted]

/-- The counters without expiry are the stranded ones. -/
theorem serve_stranded : serve rs (keyOf ip) = some ⟨n, none⟩ ↔ Stranded rs ip n := by
  induction rs using List.reverseRecOn generalizing n with
  | nil =>
    constructor
    · nofun
    · rintro ⟨pre, r, post, h, -⟩
      simp at h
  | append_singleton rs r ih =>
    rw [serve_snoc, stranded_snoc]
    by_cases h : r.clientIp = ip ∧ r.Counts
    · obtain ⟨rfl, hcount⟩ := h
      change (dispatch (serve rs) r).1 r.key = _ ↔ _
      simp only [hcount, and_self, if_true, true_and]
      cases hget : (serve rs).get r.time r.key with
      | none =>
        -- nothing has been stranded, as it would not have expired
        have hnone (m : ℕ) : ¬ Stranded rs r.clientIp m := by
          intro hm
          have hstored : (serve rs).get r.time r.key = some ⟨m, none⟩ :=
            get_eq_some.2 ⟨ih.2 hm, rfl⟩
          rw [hget] at hstored
          cases hstored
        have hstrands : Strands (serve rs) r ↔
            ¬ (r.incr = .succeeds ∧ r.expire.executed = true) :=
          ⟨fun h => h.2.2, fun h => ⟨hcount, hget, h⟩⟩
        rw [dispatch_none hcount hget, hstrands]
        by_cases hok : r.incr = .succeeds ∧ r.expire.executed = true
        · simp [hok, hnone]
        · simpa [hok, hnone] using eq_comm
      | some c =>
        have hstrands : ¬ Strands (serve rs) r := by
          rintro ⟨-, hnone, -⟩
          rw [hget] at hnone
          cases hnone
        have hstored : serve rs r.key = some c := (get_eq_some.1 hget).1
        rw [dispatch_some (serve_positive rs) hcount hget]
        constructor
        · intro h
          cases c
          cases h
          exact Or.inr ⟨_, ih.1 hstored, rfl⟩
        · rintro (⟨h, -⟩ | ⟨m, hm, rfl⟩)
          · exact absurd h hstrands
          · rw [← ih, show keyOf r.clientIp = r.key from rfl, hstored] at hm
            cases hm
            rfl
    · have hstays : (dispatch (serve rs) r).1 (keyOf ip) = serve rs (keyOf ip) := by
        by_cases hip : r.clientIp = ip
        · rw [dispatch_not_counts fun hcount => h ⟨hip, hcount⟩]
        · exact dispatch_other fun hkey => hip (keyOf_inj.1 hkey).symm
      rw [hstays, ih, if_neg h]
      constructor
      · exact fun hn => Or.inr ⟨n, hn, rfl⟩
      · rintro (⟨hip, hstrands, -⟩ | ⟨m, hm, rfl⟩)
        · exact absurd ⟨hip, hstrands.1⟩ h
        · exact hm

/-- What a quiet request finds: no counter, unless it is a stranded one. -/
theorem get_of_quiet (hq : Quiet rs r) :
    (serve rs).get r.time r.key = some c ↔ ∃ n, Stranded rs r.clientIp n ∧ c = ⟨n, none⟩ := by
  constructor
  · intro h
    obtain ⟨hstored, hlive⟩ := get_eq_some.1 h
    obtain ⟨n, expiresAt⟩ := c
    cases expiresAt with
    | none => exact ⟨n, serve_stranded.1 hstored, rfl⟩
    | some at' =>
      -- it has been set to expire by a request of the address, which is older than the window
      obtain ⟨r', hr', hkey, rfl⟩ := serve_expiresAt hstored rfl
      have hold := hq r' hr' (keyOf_inj.1 hkey)
      simp only [Option.all_some, decide_eq_true_eq] at hlive
      exact absurd hlive hold.not_ge
  · rintro ⟨n, hn, rfl⟩
    exact get_eq_some.2 ⟨serve_stranded.2 hn, rfl⟩

theorem rejected_iff : Rejected rs r ↔
    r.connected = true ∧ r.incr = .succeeds ∧ rateLimit < ((serve rs).incr r.time r.key).2 := by
  simp only [Rejected, dispatch_snd]
  exact ⟨fun ⟨_, _, hconn, hincr, h, _⟩ => ⟨hconn, hincr, h⟩,
    fun ⟨hconn, hincr, h⟩ => ⟨_, _, hconn, hincr, h, rfl, rfl⟩⟩

/-- A quiet request counts over the limit only from a stranded counter. -/
theorem quiet_current (hq : Quiet rs r) : rateLimit < ((serve rs).incr r.time r.key).2 ↔
    ∃ n, Stranded rs r.clientIp n ∧ rateLimit ≤ n := by
  cases hget : (serve rs).get r.time r.key with
  | none =>
    simp only [Redis.incr, hget, Option.getD_none, rateLimit]
    constructor
    · omega
    · rintro ⟨n, hn, -⟩
      rw [(get_of_quiet hq).2 ⟨n, hn, rfl⟩] at hget
      cases hget
  | some c =>
    obtain ⟨n, hn, rfl⟩ := (get_of_quiet hq).1 hget
    simp only [Redis.incr, hget, Option.getD_some]
    constructor
    · exact fun h => ⟨n, hn, Nat.lt_succ_iff.1 h⟩
    · rintro ⟨m, hm, hle⟩
      have hmn := serve_stranded.2 hm
      rw [serve_stranded.2 hn] at hmn
      cases hmn
      exact Nat.lt_succ_of_le hle

/-- A request that comes after a quiet window is let through exactly when its `INCR` does not
return, or no stranded counter of its address has reached the limit. -/
theorem quiet_admitted_iff (hq : Quiet rs r) : ¬ Rejected rs r ↔
    (r.connected = true → r.incr = .succeeds → ∀ n, Stranded rs r.clientIp n → n < rateLimit) := by
  rw [rejected_iff, quiet_current hq]
  push Not
  rfl

/-- A request of the address `ip`. -/
def requestFrom (ip : String) (time : Time) (expire : Command := .succeeds) : Request where
  time := time
  host := some ip
  expire := expire

/-- The second request of an address comes two minutes after the first, which has been counted
without an expiry; one request is below the limit. -/
theorem quiet_admitted_second :
    ¬ Rejected [requestFrom "203.0.113.7" 0 (.raises false)]
      (requestFrom "203.0.113.7" 120000) := by
  refine (quiet_admitted_iff ?_).2 fun _ _ n hn => ?_
  · decide
  · have hstored : Stranded [requestFrom "203.0.113.7" 0 (.raises false)]
        (requestFrom "203.0.113.7" 120000).clientIp 1 :=
      ⟨[], _, [], rfl, rfl, by decide, by decide⟩
    have hn' := serve_stranded.2 hn
    rw [serve_stranded.2 hstored] at hn'
    cases hn'
    decide

/-- One request an hour; `EXPIRE` raises at the first one. -/
def hourly : List Request :=
  requestFrom "203.0.113.7" 0 (.raises false) ::
    (List.range 29).map fun i => requestFrom "203.0.113.7" (3600000 * (i + 1))

/-- The next one is rejected. -/
theorem hourly_locked_out : ¬ ∀ (rs : List Request) (r : Request),
    (rs ++ [r]).Pairwise (·.time ≤ ·.time) → Quiet rs r → ¬ Rejected rs r := by
  intro h
  have hquiet : Quiet hourly (requestFrom "203.0.113.7" 108000000) := by decide
  refine h hourly (requestFrom "203.0.113.7" 108000000) (by decide) hquiet ?_
  have hstranded : Stranded hourly "203.0.113.7" 30 :=
    ⟨[], _, _, rfl, rfl, by decide, by decide⟩
  exact rejected_iff.2 ⟨rfl, rfl, (quiet_current hquiet).2 ⟨30, hstranded, le_rfl⟩⟩

/-! ### From there on -/

/-- A stranded counter stays, and counts on. -/
theorem Stranded.append (h : Stranded rs ip n) (rs' : List Request) :
    Stranded (rs ++ rs') ip (n + counted ip rs') := by
  obtain ⟨pre, r, post, rfl, hip, hstrands, rfl⟩ := h
  refine ⟨pre, r, post ++ rs', by simp, hip, hstrands, ?_⟩
  rw [← List.cons_append, counted, List.countP_append]
  rfl

/-- Once it has reached the limit, every request of the address whose `INCR` returns is rejected,
after quiet windows as well. -/
theorem rejected_of_stranded (h : Stranded rs r.clientIp n) (hn : rateLimit ≤ n)
    (rs' : List Request) (hconn : r.connected = true) (hincr : r.incr = .succeeds) :
    Rejected (rs ++ rs') r := by
  have hget : (serve (rs ++ rs')).get r.time r.key = some ⟨n + counted r.clientIp rs', none⟩ :=
    get_eq_some.2 ⟨serve_stranded.2 (h.append rs'), rfl⟩
  refine rejected_iff.2 ⟨hconn, hincr, ?_⟩
  simp only [Redis.incr, hget, Option.getD_some]
  omega

/-- Without a request that strands the counter of its address, the limiter rejects nobody after a
quiet window. -/
theorem not_rejected_of_not_strands (hq : Quiet rs r)
    (h : ∀ pre r' post, rs = pre ++ r' :: post → r'.clientIp = r.clientIp →
      ¬ Strands (serve pre) r') : ¬ Rejected rs r := by
  rw [rejected_iff, quiet_current hq]
  rintro ⟨-, -, n, ⟨pre, r', post, hrs, hip, hstrands, -⟩, -⟩
  exact h pre r' post hrs hip hstrands

end RateLimiter

end Auth

end FoodFlow
