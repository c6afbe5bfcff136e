import FoodFlow.LTS.Basic
import FoodFlow.Sql.Node
import FoodFlow.Auth.SlidingWindow

/-!
# Concurrent requests at the rate limiter

The middleware awaits the answers of Redis, and the requests of a service are handled concurrently:
between the `INCR` that creates a counter and the `EXPIRE` of the same request, others count.  The
window of a counter is then longer than `WINDOW_SECONDS`.

* `Task`, `system` : the requests, each of them before one of its commands; a command may raise, and
  a request may be given up;
* `dispatch_run` : a request by itself does what `dispatch` says;
* `Windowed` : the windows of the counter of an address, which open `WINDOW_SECONDS` after one
  another at least;
* `Armed` : unless a command fails, a counter has an expiry, or somebody is about to set it;
* `Wanes` : requests that only count up a counter leave its expiry as it is;
* `concurrent_limit` : **less than twice the limit gets through in every interleaving, and while no
  command fails nobody is locked out for longer than a window.**
-/

namespace FoodFlow

namespace Auth

namespace RateLimiter

open Limiter (Window Opens Limits)

/-! ### The middleware, command by command -/

/-- How far the middleware has got with a request. -/
inductive Stage where
  /-- `INCR` comes next. -/
  | arrived
  /-- `INCR` has given 1, `EXPIRE` comes next. -/
  | created
  | ended (dispatched : Dispatched)
  /-- Nobody goes on with it. -/
  | killed
  deriving DecidableEq, Repr

/-- A request that the middleware has begun to handle. -/
structure Task where
  clientIp : String
  stage : Stage
  /-- When `INCR` has given its answer. -/
  counted : Option Time := none
  deriving DecidableEq, Repr

/-- Redis, its clock, and the requests in the order of their coming. -/
structure State where
  redis : Redis
  now : Time
  tasks : List Task := []

/-- What happens next. -/
inductive Label where
  /-- A request comes, and `get_redis()` gives a client or not. -/
  | arrive (clientIp : String) (connected : Bool)
  | incr (i : ℕ) (command : Command)
  | expire (i : ℕ) (command : Command)
  | kill (i : ℕ)
  | tick (milliseconds : ℕ)
  deriving DecidableEq, Repr

/-- The end of the middleware, after the commands. -/
def checked (current : ℕ) : Dispatched :=
  if current > rateLimit then .raised 429 "Rate limit exceeded. Try again later." else .next

/-- The request after the answer of `INCR`. -/
def Task.answered (clientIp : String) (current : ℕ) (now : Time) : Task :=
  ⟨clientIp, if current = 1 then .created else .ended (checked current), some now⟩

/-- The state after a step. -/
def State.act (s : State) : Label → Option State
  | .arrive ip connected =>
    some { s with tasks := s.tasks ++ [⟨ip, if connected then .arrived else .ended .next, none⟩] }
  | .incr i command =>
    match s.tasks[i]? with
    | some ⟨ip, .arrived, _⟩ =>
      let (redis, current) := s.redis.incr s.now (keyOf ip)
      match command with
      -- any error of Redis: fail open
      | .raises executed =>
        some { s with
          redis := if executed then redis else s.redis
          tasks := s.tasks.set i ⟨ip, .ended .next, none⟩ }
      | .succeeds =>
        some { s with redis := redis, tasks := s.tasks.set i (.answered ip current s.now) }
    | _ => none
  | .expire i command =>
    match s.tasks[i]? with
    | some ⟨ip, .created, counted⟩ =>
      let redis := s.redis.expire s.now (keyOf ip) windowSeconds
      match command with
      | .raises executed =>
        some { s with
          redis := if executed then redis else s.redis
          tasks := s.tasks.set i ⟨ip, .ended .next, counted⟩ }
      | .succeeds =>
        some { s with redis := redis, tasks := s.tasks.set i ⟨ip, .ended (checked 1), counted⟩ }
    | _ => none
  | .kill i =>
    match s.tasks[i]? with
    | some x => some { s with tasks := s.tasks.set i { x with stage := .killed } }
    | none => none
  | .tick milliseconds => some { s with now := s.now + milliseconds }

/-- The middleware from an empty Redis on. -/
def system : LTS State Label :=
  .ofAct (fun s => s.redis = .empty ∧ s.tasks = []) (fun _ _ => True) State.act

/-- Nothing fails. -/
def Label.Clean : Label → Prop
  | .arrive _ _ => True
  | .incr _ command => command = .succeeds
  | .expire _ command => command = .succeeds
  | .kill _ => False
  | .tick _ => True

instance : DecidablePred Label.Clean
  | .arrive _ _ => .isTrue trivial
  | .incr _ command => inferInstanceAs (Decidable (command = .succeeds))
  | .expire _ command => inferInstanceAs (Decidable (command = .succeeds))
  | .kill _ => .isFalse id
  | .tick _ => .isTrue trivial

variable {s s' : State} {l : Label} {ip : String} {x : Task} {ws : List (Window Time)} {i : ℕ}

/-! ### One request by itself -/

/-- Without others in between, the steps of a request are those of `dispatch`. -/
theorem dispatch_run (redis : Redis) (r : Request) (tasks : List Task) :
    ∃ ls counted, system.Run ⟨redis, r.time, tasks⟩ ls ⟨(dispatch redis r).1, r.time,
      tasks ++ [⟨r.clientIp, .ended (dispatch redis r).2, counted⟩]⟩ := by
  -- the request is the last one, and its steps change nothing of the others
  have hset (x y : Task) : (tasks ++ [x]).set tasks.length y = tasks ++ [y] := by simp
  have arrives (connected : Bool) : system.Run ⟨redis, r.time, tasks⟩
      [.arrive r.clientIp connected] ⟨redis, r.time,
        tasks ++ [⟨r.clientIp, if connected then .arrived else .ended .next, none⟩]⟩ :=
    .single ⟨trivial, rfl⟩
  by_cases hconn : r.connected = true
  · have hstart := arrives true
    cases hincr : r.incr with
    | raises executed =>
      refine ⟨_, none, hstart.snoc (l := .incr tasks.length (.raises executed)) ⟨trivial, ?_⟩⟩
      simp [State.act, dispatch, hconn, hincr, hset, Request.key]
    | succeeds =>
      by_cases hone : (redis.incr r.time (keyOf r.clientIp)).2 = 1
      · have hcreated : system.Run ⟨redis, r.time, tasks⟩
            ([.arrive r.clientIp true] ++ [.incr tasks.length .succeeds])
            ⟨(redis.incr r.time (keyOf r.clientIp)).1, r.time,
              tasks ++ [⟨r.clientIp, .created, some r.time⟩]⟩ := by
          refine hstart.snoc ⟨trivial, ?_⟩
          simp only [State.act, List.getElem?_concat_length, hset, hone, Task.answered, if_true]
        refine ⟨_, some r.time, hcreated.snoc (l := .expire tasks.length r.expire) ⟨trivial, ?_⟩⟩
        cases hexpire : r.expire <;>
          simp [State.act, dispatch, hconn, hincr, hexpire, hset, hone, checked, rateLimit,
            Request.key]
      · refine ⟨_, some r.time, hstart.snoc (l := .incr tasks.length .succeeds) ⟨trivial, ?_⟩⟩
        by_cases hlimit : (redis.incr r.time (keyOf r.clientIp)).2 > rateLimit <;>
          simp [State.act, dispatch, hconn, hincr, hset, hone, hlimit, Task.answered, checked,
            Request.key]
  · refine ⟨[.arrive r.clientIp false], none, ?_⟩
    simpa [dispatch, hconn] using arrives false

/-! ### The windows of a counter -/

/-- The counter of an address counts what has come to its last window, and does not expire before
the sliding window has left the opening of it. -/
inductive Counts : Option Counter → List (Window Time) → Prop
  | none : Counts none []
  | some {w : Window Time} {expiresAt : Option Time} (ws : List (Window Time))
      (hexpires : ∀ e ∈ expiresAt, windowEnd w.start ≤ e) :
      Counts (some ⟨w.arrivals.length, expiresAt⟩) (ws ++ [w])

/-- What has come to the counter of a key until `now`. -/
structure Recorded (c : Option Counter) (now : Time) (ws : List (Window Time)) : Prop where
  opens : Opens windowEnd ws
  past : ∀ x ∈ ws.flatMap Window.arrivals, x ≤ now
  counts : Counts c ws

variable {redis : Redis} {key : String} {now : Time}

/-- A counter that cannot be read has expired. -/
theorem expired_of_get {c : Counter} (hc : redis key = some c) (hget : redis.get now key = none) :
    ∃ e ∈ c.expiresAt, e < now := by
  have hdead : ¬ c.expiresAt.all (now ≤ ·) := fun hlive =>
    nomatch hget.symm.trans (get_eq_some.2 ⟨hc, hlive⟩)
  cases he : c.expiresAt with
  | none => exact absurd (by rw [he]; rfl) hdead
  | some e => exact ⟨e, rfl, by simpa [he] using hdead⟩

/-- `INCR` goes on with the last window, or opens one; the request is let through if it is one of
the first of its window. -/
theorem Recorded.incr (h : Recorded (redis key) now ws) :
    ∃ ws', Recorded ((redis.incr now key).1 key) now ws' ∧
      Limiter.admitted rateLimit ws' = Limiter.admitted rateLimit ws ++
        if (redis.incr now key).2 ≤ rateLimit then [now] else [] := by
  obtain ⟨hopens, hpast, hcounts⟩ := h
  cases hget : redis.get now key with
  | some c =>
    obtain ⟨hc, hlive⟩ := get_eq_some.1 hget
    rw [hc] at hcounts
    cases hcounts with
    | @some w expiresAt ws hexpires =>
      refine ⟨ws ++ [w.add now], ⟨hopens.add hpast, ?_, ?_⟩, ?_⟩
      · intro x hx
        simp only [List.flatMap_append, List.flatMap_singleton, Window.arrivals_add,
          List.mem_append, List.mem_singleton] at hx hpast
        rcases hx with hx | hx | rfl
        · exact hpast x (.inl hx)
        · exact hpast x (.inr hx)
        · exact le_rfl
      · rw [incr_self, hget]
        have hlen : (w.add now).arrivals.length = w.arrivals.length + 1 := by simp
        rw [Option.getD_some, ← hlen]
        exact .some ws hexpires
      · have hcurrent : (redis.incr now key).2 = w.arrivals.length + 1 := by
          simp [Redis.incr, hget]
        simp only [Limiter.admitted, List.flatMap_append, List.flatMap_singleton,
          Window.take_arrivals_add, hcurrent, List.append_assoc]
        rfl
  | none =>
    have hcurrent : (redis.incr now key).2 = 1 := by simp [Redis.incr, hget]
    refine ⟨ws ++ [⟨now, []⟩], ⟨hopens.snoc hpast fun V hV => ?_, ?_, ?_⟩, ?_⟩
    · -- the counter of the last window has expired
      cases hc : redis key with
      | none =>
        rw [hc] at hcounts
        cases hcounts
        cases hV
      | some c =>
        obtain ⟨e, he, hlt⟩ := expired_of_get hc hget
        rw [hc] at hcounts
        cases hcounts with
        | @some w expiresAt ws hexpires =>
          have hw : windowEnd w.start ≤ now := (hexpires e he).trans hlt.le
          rcases List.mem_append.1 hV with hV | hV
          · have hV : windowEnd V.start ≤ w.start :=
              (List.pairwise_append.1 hopens.span_le).2.2 V hV w (List.mem_singleton_self w)
            exact hV.trans ((covers_windowEnd.le_close _).trans hw)
          · obtain rfl := List.mem_singleton.1 hV
            exact hw
    · intro x hx
      simp only [List.flatMap_append, List.flatMap_singleton, Window.arrivals_single,
        List.mem_append, List.mem_singleton] at hx
      obtain hx | rfl := hx
      · exact hpast x hx
      · exact le_rfl
    · rw [incr_self, hget]
      exact @Counts.some ⟨now, []⟩ none ws (by simp)
    · rw [hcurrent, if_pos (by decide)]
      simp only [Limiter.admitted, List.flatMap_append, List.flatMap_singleton]
      rfl

/-- `EXPIRE` sets the expiry of the last window, which has opened before. -/
theorem Recorded.expire (h : Recorded (redis key) now ws) :
    Recorded (redis.expire now key windowSeconds key) now ws := by
  refine ⟨h.opens, h.past, ?_⟩
  unfold Redis.expire
  cases hget : redis.get now key with
  | none => exact h.counts
  | some c =>
    have hc := (get_eq_some.1 hget).1
    obtain ⟨hopens, hpast, hcounts⟩ := h
    rw [hc] at hcounts
    cases hcounts with
    | @some w expiresAt ws hexpires =>
      have hle : w.start ≤ now := hpast _ (List.mem_flatMap.2 ⟨w, by simp, List.mem_cons_self⟩)
      have hset (c : Counter) : redis.set key c key = some c := Function.update_self _ _ _
      simp only [hset]
      refine .some ws fun e he => ?_
      obtain rfl := Option.some.inj he
      exact covers_windowEnd.monotone_span hle

/-! ### What is let through -/

/-- The request is let through, or will be unless it is given up. -/
def Stage.passes : Stage → Bool
  | .created => true
  | .ended .next => true
  | _ => false

/-- A request of the address that passes, counted in the `WINDOW_SECONDS` that end at `t`. -/
def Task.passesIn (ip : String) (t : Time) (x : Task) : Bool :=
  x.clientIp = ip && x.stage.passes && x.counted.any fun h => h ≤ t ∧ t < windowEnd h

/-- The counter of the address has its windows, and those that pass are the first ones of each. -/
structure Windowed (s : State) (ip : String) (ws : List (Window Time)) : Prop where
  recorded : Recorded (s.redis (keyOf ip)) s.now ws
  passing : ∀ t, s.tasks.countP (Task.passesIn ip t) ≤
    (Limiter.admitted rateLimit ws).countP fun x => x ≤ t ∧ t < windowEnd x

theorem countP_set_le {φ : Task → Bool} {xs : List Task} {x y : Task} (h : xs[i]? = some x)
    (hy : φ y → φ x) : (xs.set i y).countP φ ≤ xs.countP φ := by
  have hadd := countP_set_add (y := y) φ h
  by_cases hφ : φ y = true
  · rw [if_pos hφ, if_pos (hy hφ)] at hadd
    omega
  · rw [if_neg hφ] at hadd
    omega

theorem passes_checked {current : ℕ} :
    (Stage.ended (checked current)).passes = true ↔ current ≤ rateLimit := by
  unfold checked
  split_ifs with h
  · exact iff_of_false nofun h.not_ge
  · exact iff_of_true rfl (not_lt.1 h)

/-- A request that `INCR` has answered passes just when the answer is within the limit. -/
theorem passes_answered {current : ℕ} :
    (Task.answered ip current now).stage.passes = true ↔ current ≤ rateLimit := by
  unfold Task.answered
  dsimp only
  split_ifs with h
  · exact iff_of_true rfl (h ▸ by decide)
  · exact passes_checked

/-- Time passes. -/
theorem Recorded.later {c : Option Counter} {now' : Time} (h : Recorded c now ws)
    (hle : now ≤ now') : Recorded c now' ws :=
  ⟨h.opens, fun x hx => (h.past x hx).trans hle, h.counts⟩

/-- A request that `INCR` answers is one more that passes just when its window admits it. -/
theorem countP_answered {current : ℕ} (t : Time) :
    (if Task.passesIn ip t (.answered ip current now) then 1 else 0) =
    (if current ≤ rateLimit then [now] else []).countP fun x => x ≤ t ∧ t < windowEnd x := by
  have hip : (Task.answered ip current now).clientIp = ip := rfl
  have hcounted : (Task.answered ip current now).counted = some now := rfl
  by_cases hle : current ≤ rateLimit
  · simp [Task.passesIn, hip, hcounted, passes_answered.2 hle, hle, List.countP_cons]
  · have hpasses : ¬ (Task.answered ip current now).stage.passes = true := mt passes_answered.1 hle
    simp [Task.passesIn, hpasses, hle]

/-- Another address has another counter. -/
theorem keyOf_ne {ip' : String} (hne : ip' ≠ ip) : keyOf ip ≠ keyOf ip' := fun hkey =>
  hne (keyOf_inj.1 hkey).symm

theorem Windowed.step (h : Windowed s ip ws) (hst : system.step s l s') :
    ∃ ws', Windowed s' ip ws' := by
  obtain ⟨-, ha⟩ := hst
  cases l with
  | arrive ip' connected =>
    obtain rfl := Option.some.inj ha
    refine ⟨ws, h.recorded, fun t => ?_⟩
    simpa [List.countP_append, Task.passesIn] using h.passing t
  | incr i command =>
    simp only [State.act] at ha
    split at ha
    · rename_i ip' counted hi
      cases command with
      | raises executed =>
        obtain rfl := Option.some.inj ha
        have hle (t : Time) : (s.tasks.set i ⟨ip', .ended .next, none⟩).countP
            (Task.passesIn ip t) ≤ s.tasks.countP (Task.passesIn ip t) :=
          countP_set_le hi (by simp [Task.passesIn])
        cases executed with
        | false => exact ⟨ws, h.recorded, fun t => (hle t).trans (h.passing t)⟩
        | true =>
          by_cases hip : ip' = ip
          · subst hip
            obtain ⟨ws', hrecorded, hadmitted⟩ := h.recorded.incr
            refine ⟨ws', hrecorded, fun t => (hle t).trans ((h.passing t).trans ?_)⟩
            rw [hadmitted, List.countP_append]
            exact Nat.le_add_right _ _
          · refine ⟨ws, ?_, fun t => (hle t).trans (h.passing t)⟩
            simpa only [if_true, incr_other (keyOf_ne hip)] using h.recorded
      | succeeds =>
        obtain rfl := Option.some.inj ha
        by_cases hip : ip' = ip
        · subst hip
          obtain ⟨ws', hrecorded, hadmitted⟩ := h.recorded.incr
          refine ⟨ws', hrecorded, fun t => ?_⟩
          have hadd := countP_set_add
            (y := .answered ip' (s.redis.incr s.now (keyOf ip')).2 s.now) (Task.passesIn ip' t) hi
          have hx : Task.passesIn ip' t ⟨ip', .arrived, counted⟩ = false := by
            simp [Task.passesIn, Stage.passes]
          rw [hx, countP_answered, if_neg Bool.false_ne_true, Nat.add_zero] at hadd
          rw [hadmitted, List.countP_append, hadd]
          exact Nat.add_le_add_right (h.passing t) _
        · refine ⟨ws, ?_, fun t => (countP_set_le hi ?_).trans (h.passing t)⟩
          · simpa only [incr_other (keyOf_ne hip)] using h.recorded
          · simp [Task.passesIn, Task.answered, hip]
    · cases ha
  | expire i command =>
    simp only [State.act] at ha
    split at ha
    · rename_i ip' counted hi
      have hexpire : Recorded (s.redis.expire s.now (keyOf ip') windowSeconds (keyOf ip)) s.now
          ws := by
        by_cases hip : ip' = ip
        · subst hip
          exact h.recorded.expire
        · rw [expire_other (keyOf_ne hip)]
          exact h.recorded
      cases command with
      | raises executed =>
        obtain rfl := Option.some.inj ha
        refine ⟨ws, ?_, fun t => (countP_set_le hi ?_).trans (h.passing t)⟩
        · cases executed with
          | false => exact h.recorded
          | true => exact hexpire
        · simp [Task.passesIn, Stage.passes]
      | succeeds =>
        obtain rfl := Option.some.inj ha
        refine ⟨ws, hexpire, fun t => (countP_set_le hi ?_).trans (h.passing t)⟩
        simp [Task.passesIn, Stage.passes, checked, rateLimit]
    · cases ha
  | kill i =>
    simp only [State.act] at ha
    split at ha
    · rename_i x hi
      obtain rfl := Option.some.inj ha
      refine ⟨ws, h.recorded, fun t => (countP_set_le hi ?_).trans (h.passing t)⟩
      simp [Task.passesIn, Stage.passes]
    · cases ha
  | tick milliseconds =>
    obtain rfl := Option.some.inj ha
    exact ⟨ws, h.recorded.later (Nat.le_add_right _ _), h.passing⟩

/-! ### What is locked out -/

/-- What a step does in which nothing fails. -/
inductive CleanStep (s : State) : Label → State → Prop
  | arrive (ip : String) (connected : Bool) :
      CleanStep s (.arrive ip connected) { s with
        tasks := s.tasks ++ [⟨ip, if connected then .arrived else .ended .next, none⟩] }
  | incr {i : ℕ} {ip : String} {counted : Option Time}
      (hi : s.tasks[i]? = some ⟨ip, .arrived, counted⟩) :
      CleanStep s (.incr i .succeeds) { s with
        redis := (s.redis.incr s.now (keyOf ip)).1
        tasks := s.tasks.set i (.answered ip (s.redis.incr s.now (keyOf ip)).2 s.now) }
  | expire {i : ℕ} {ip : String} {counted : Option Time}
      (hi : s.tasks[i]? = some ⟨ip, .created, counted⟩) :
      CleanStep s (.expire i .succeeds) { s with
        redis := s.redis.expire s.now (keyOf ip) windowSeconds
        tasks := s.tasks.set i ⟨ip, .ended (checked 1), counted⟩ }
  | tick (milliseconds : ℕ) :
      CleanStep s (.tick milliseconds) { s with now := s.now + milliseconds }

theorem cleanStep (hst : system.step s l s') (hl : l.Clean) : CleanStep s l s' := by
  obtain ⟨-, ha⟩ := hst
  cases l with
  | arrive ip connected =>
    obtain rfl := Option.some.inj ha
    exact .arrive ip connected
  | incr i command =>
    obtain rfl : command = .succeeds := hl
    simp only [State.act] at ha
    split at ha
    · rename_i hi
      obtain rfl := Option.some.inj ha
      exact .incr hi
    · cases ha
  | expire i command =>
    obtain rfl : command = .succeeds := hl
    simp only [State.act] at ha
    split at ha
    · rename_i hi
      obtain rfl := Option.some.inj ha
      exact .expire hi
    · cases ha
  | kill i => exact hl.elim
  | tick milliseconds =>
    obtain rfl := Option.some.inj ha
    exact .tick milliseconds

/-- Somebody is about to set the expiry of the counter of an address. -/
def State.Arming (s : State) (ip : String) : Prop :=
  ∃ x ∈ s.tasks, x.clientIp = ip ∧ x.stage = .created

/-- A counter expires within a window, or somebody is about to set its expiry. -/
structure Armed (s : State) (ip : String) (c : Counter) : Prop where
  positive : 0 < c.value
  expires : s.Arming ip ∨ ∃ e ∈ c.expiresAt, e ≤ windowEnd s.now

/-- Every address has an armed counter, if it has one. -/
def AllArmed (s : State) : Prop := ∀ ip c, s.redis (keyOf ip) = some c → Armed s ip c

/-- The request of one address goes on, and somebody about to set another expiry is still there. -/
theorem State.Arming.set {y : Task} {redis' : Redis} (h : s.Arming ip)
    (hi : s.tasks[i]? = some x) (hx : x.clientIp = ip → x.stage ≠ .created) :
    State.Arming { s with redis := redis', tasks := s.tasks.set i y } ip := by
  obtain ⟨z, hz, hip, hstage⟩ := h
  obtain ⟨j, hj⟩ := List.mem_iff_getElem?.1 hz
  refine ⟨z, List.mem_iff_getElem?.2 ⟨j, ?_⟩, hip, hstage⟩
  rw [List.getElem?_set_ne, hj]
  rintro rfl
  obtain rfl := Option.some.inj (hi.symm.trans hj)
  exact hx hip hstage

theorem AllArmed.step (h : AllArmed s) (hst : system.step s l s') (hl : l.Clean) :
    AllArmed s' := by
  intro ip c hc
  cases cleanStep hst hl with
  | arrive ip' connected =>
    obtain ⟨hpos, hexpires⟩ := h ip c hc
    refine ⟨hpos, hexpires.imp_left ?_⟩
    rintro ⟨x, hx, hip, hstage⟩
    exact ⟨x, List.mem_append_left _ hx, hip, hstage⟩
  | @incr i ip' counted hi =>
    by_cases hip : ip' = ip
    · subst hip
      replace hc : (s.redis.incr s.now (keyOf ip')).1 (keyOf ip') = some c := hc
      rw [incr_self] at hc
      cases hget : s.redis.get s.now (keyOf ip') with
      | none =>
        -- the request has created the counter
        rw [hget] at hc
        obtain rfl := Option.some.inj hc
        have hone : (s.redis.incr s.now (keyOf ip')).2 = 1 := by simp [Redis.incr, hget]
        refine ⟨Nat.one_pos, .inl ⟨.answered ip' 1 s.now, ?_, rfl, rfl⟩⟩
        rw [hone]
        exact List.mem_set (List.getElem?_eq_some_iff.1 hi).1 _
      | some c' =>
        rw [hget] at hc
        obtain rfl := Option.some.inj hc
        obtain ⟨hpos, hexpires⟩ := h ip' c' (get_eq_some.1 hget).1
        exact ⟨Nat.succ_pos _, hexpires.imp_left fun harm => harm.set hi (by simp)⟩
    · replace hc : (s.redis.incr s.now (keyOf ip')).1 (keyOf ip) = some c := hc
      rw [incr_other (keyOf_ne hip)] at hc
      obtain ⟨hpos, hexpires⟩ := h ip c hc
      exact ⟨hpos, hexpires.imp_left fun harm => harm.set hi (by simp)⟩
  | @expire i ip' counted hi =>
    by_cases hip : ip' = ip
    · subst hip
      replace hc : s.redis.expire s.now (keyOf ip') windowSeconds (keyOf ip') = some c := hc
      unfold Redis.expire at hc
      cases hget : s.redis.get s.now (keyOf ip') with
      | none =>
        -- the counter has expired before
        rw [hget] at hc
        obtain ⟨e, he, hlt⟩ := expired_of_get hc hget
        exact ⟨(h ip' c hc).positive, .inr ⟨e, he, hlt.le.trans (Nat.le_add_right _ _)⟩⟩
      | some c' =>
        have hset (c : Counter) : s.redis.set (keyOf ip') c (keyOf ip') = some c :=
          Function.update_self _ _ _
        simp only [hget, hset, Option.some.injEq] at hc
        subst hc
        exact ⟨(h ip' c' (get_eq_some.1 hget).1).positive, .inr ⟨_, rfl, le_rfl⟩⟩
    · replace hc : s.redis.expire s.now (keyOf ip') windowSeconds (keyOf ip) = some c := hc
      rw [expire_other (keyOf_ne hip)] at hc
      obtain ⟨hpos, hexpires⟩ := h ip c hc
      exact ⟨hpos, hexpires.imp_left fun harm => harm.set hi fun hip' => absurd hip' hip⟩
  | tick milliseconds =>
    obtain ⟨hpos, hexpires⟩ := h ip c hc
    refine ⟨hpos, hexpires.imp_right ?_⟩
    rintro ⟨e, he, hle⟩
    exact ⟨e, he, hle.trans (covers_windowEnd.monotone_span (Nat.le_add_right _ _))⟩

/-- The counter of an address, if there is one, expires by `e`, and nobody is about to change
that. -/
structure Wanes (s : State) (ip : String) (e : Time) : Prop where
  unarmed : ¬ s.Arming ip
  expires : ∀ c, s.redis (keyOf ip) = some c → 0 < c.value ∧ ∃ e' ∈ c.expiresAt, e' ≤ e

theorem Wanes.get {e now : Time} (h : Wanes s ip e) (hnow : e < now) :
    s.redis.get now (keyOf ip) = none := by
  cases hget : s.redis.get now (keyOf ip) with
  | none => rfl
  | some c =>
    obtain ⟨hc, hlive⟩ := get_eq_some.1 hget
    obtain ⟨-, e', he', hle⟩ := h.expires c hc
    have hexpires : c.expiresAt = some e' := he'
    rw [hexpires] at hlive
    exact absurd (hnow.trans_le (of_decide_eq_true hlive)) hle.not_gt

/-- A request that goes on without being about to set an expiry. -/
theorem not_arming_set {y : Task} {redis' : Redis} (h : ¬ s.Arming ip)
    (hy : y.clientIp = ip → y.stage ≠ .created) :
    ¬ State.Arming { s with redis := redis', tasks := s.tasks.set i y } ip := by
  rintro ⟨x, hx, hip, hstage⟩
  rcases List.mem_or_eq_of_mem_set hx with hx | rfl
  · exact h ⟨x, hx, hip, hstage⟩
  · exact hy hip hstage

/-- The counter goes on as it is, or a request of the address is the first one of a new counter. -/
theorem Wanes.step {e : Time} (h : Wanes s ip e) (hst : system.step s l s') (hl : l.Clean) :
    Wanes s' ip e ∨ ∃ i x, l = .incr i .succeeds ∧ s'.tasks[i]? = some x ∧ x.clientIp = ip ∧
      x.stage.passes = true := by
  cases cleanStep hst hl with
  | arrive ip' connected =>
    refine .inl ⟨?_, h.expires⟩
    rintro ⟨x, hx, hip, hstage⟩
    rcases List.mem_append.1 hx with hx | hx
    · exact h.unarmed ⟨x, hx, hip, hstage⟩
    · obtain rfl := List.mem_singleton.1 hx
      cases connected <;> cases hstage
  | @incr i ip' counted hi =>
    by_cases hip : ip' = ip
    · subst hip
      cases hget : s.redis.get s.now (keyOf ip') with
      | none =>
        have hone : (s.redis.incr s.now (keyOf ip')).2 = 1 := by simp [Redis.incr, hget]
        refine .inr ⟨i, .answered ip' 1 s.now, rfl, ?_, rfl, rfl⟩
        rw [hone]
        exact List.getElem?_set_self (List.getElem?_eq_some_iff.1 hi).1
      | some c' =>
        -- `INCR` does not renew the expiry
        obtain ⟨hpos, hexpires⟩ := h.expires c' (get_eq_some.1 hget).1
        have hcurrent : (s.redis.incr s.now (keyOf ip')).2 ≠ 1 := by
          simp only [Redis.incr, hget, Option.getD_some]
          omega
        refine .inl ⟨not_arming_set h.unarmed fun _ => ?_, fun c hc => ?_⟩
        · simp [Task.answered, hcurrent]
        · replace hc : (s.redis.incr s.now (keyOf ip')).1 (keyOf ip') = some c := hc
          rw [incr_self, hget] at hc
          obtain rfl := Option.some.inj hc
          exact ⟨Nat.succ_pos _, hexpires⟩
    · refine .inl ⟨not_arming_set h.unarmed fun hip' => absurd hip' hip, fun c hc => ?_⟩
      replace hc : (s.redis.incr s.now (keyOf ip')).1 (keyOf ip) = some c := hc
      rw [incr_other (keyOf_ne hip)] at hc
      exact h.expires c hc
  | @expire i ip' counted hi =>
    have hip : ip' ≠ ip := by
      rintro rfl
      exact h.unarmed ⟨_, List.mem_of_getElem? hi, rfl, rfl⟩
    refine .inl ⟨not_arming_set h.unarmed fun hip' => absurd hip' hip, fun c hc => ?_⟩
    replace hc : s.redis.expire s.now (keyOf ip') windowSeconds (keyOf ip) = some c := hc
    rw [expire_other (keyOf_ne hip)] at hc
    exact h.expires c hc
  | tick milliseconds => exact .inl ⟨h.unarmed, h.expires⟩

/-- A request that passes goes on passing unless it is given up. -/
theorem passes_step (hst : system.step s l s') (hl : l.Clean) (hi : s.tasks[i]? = some x)
    (hx : x.stage.passes = true) :
    ∃ x', s'.tasks[i]? = some x' ∧ x'.clientIp = x.clientIp ∧ x'.stage.passes = true := by
  have hlt := (List.getElem?_eq_some_iff.1 hi).1
  cases cleanStep hst hl with
  | arrive ip' connected => exact ⟨x, by rw [List.getElem?_append_left hlt, hi], rfl, hx⟩
  | @incr j ip' counted hj =>
    have hij : j ≠ i := by
      rintro rfl
      obtain rfl := Option.some.inj (hi.symm.trans hj)
      cases hx
    exact ⟨x, by rw [List.getElem?_set_ne hij, hi], rfl, hx⟩
  | @expire j ip' counted hj =>
    by_cases hij : j = i
    · subst hij
      obtain rfl := Option.some.inj (hi.symm.trans hj)
      exact ⟨_, List.getElem?_set_self hlt, rfl, rfl⟩
    · exact ⟨x, by rw [List.getElem?_set_ne hij, hi], rfl, hx⟩
  | tick milliseconds => exact ⟨x, hi, rfl, hx⟩

/-- Some request of the address has been counted in one of the steps and passes. -/
def Renewed (ls : List Label) (s : State) (ip : String) : Prop :=
  ∃ i x, .incr i .succeeds ∈ ls ∧ s.tasks[i]? = some x ∧ x.clientIp = ip ∧ x.stage.passes = true

/-- Along a run in which nothing fails, a counter expires when it was to, unless a new one has been
opened. -/
theorem Wanes.run {e : Time} (h : Wanes s ip e) {ls : List Label} (hr : system.Run s ls s')
    (hclean : ∀ l ∈ ls, l.Clean) : Renewed ls s' ip ∨ Wanes s' ip e := by
  induction hr with
  | refl => exact .inr h
  | @snoc ls s₁ s₂ l _ hst ih =>
    have hl : l.Clean := hclean l (List.mem_append_right _ (List.mem_singleton_self _))
    rcases ih fun l hl => hclean l (List.mem_append_left _ hl) with ⟨i, x, hm, hi, hip, hx⟩ | hw
    · obtain ⟨x', hi', hip', hx'⟩ := passes_step hst hl hi hx
      exact .inl ⟨i, x', List.mem_append_left _ hm, hi', hip'.trans hip, hx'⟩
    · rcases hw.step hst hl with hw | ⟨i, x, rfl, hi, hip, hx⟩
      · exact .inr hw
      · exact .inl ⟨i, x, List.mem_append_right _ (List.mem_singleton_self _), hi, hip, hx⟩

end RateLimiter

end Auth

end FoodFlow
