import FoodFlow.Auth.Lineage

/-!
# The session of a client

`AuthContext.jsx` with any number of calls of `authenticatedFetch` in flight, and the auth service,
which serves the exchanges of refresh tokens one at a time.  A call uses the tokens of the render
whose closure it is, also for its `POST /auth/refresh`.

* `Client` : the provider, its renders and its calls;
* `session` : the client and the service;
* `Meets` : what must not happen: a call presents a token that another one has exchanged, the token
  held expires, a request fails;
* `parallel_requests` : **the client keeps its session just when nothing of this happens.**
-/

namespace FoodFlow

namespace Frontend

open Auth

/-! ### The client -/

/-- The tokens in the state of the provider, which are those in `localStorage`. -/
structure Tokens where
  token : Option AccessToken
  refreshToken : Option String
  deriving DecidableEq, Repr

/-- How far a call of `authenticatedFetch` is. -/
inductive Stage where
  /-- `fetch(url, …)` -/
  | fetching
  /-- `fetch('/auth/refresh', …)`, on its way to the service. -/
  | refreshing
  /-- `refreshRes` is on its way back. -/
  | answered (refreshRes : Except Err AuthResponse)
  /-- `fetch(url, …)` with the new token. -/
  | retrying
  | returned
  | threw

/-- A call of `authenticatedFetch`, with the tokens that its closure has captured. -/
structure Call where
  tokens : Tokens
  stage : Stage := .fetching

/-- The provider: its state, the states it has been rendered with, and the calls made so far.
`logouts` counts how often `logout()` has been executed. -/
structure Client where
  tokens : Tokens
  rendered : List Tokens
  calls : List Call := []
  logouts : ℕ := 0

namespace Client

/-- Setting the state, which is rendered. -/
def render (c : Client) (t : Tokens) : Client :=
  { c with tokens := t, rendered := c.rendered ++ [t] }

/-- `login` -/
def login (c : Client) (accessToken : AccessToken) (refToken : String) : Client :=
  c.render ⟨some accessToken, some refToken⟩

/-- `logout` -/
def logout (c : Client) : Client :=
  { c.render ⟨none, none⟩ with logouts := c.logouts + 1 }

/-- The effect on `token`: a token whose payload cannot be decoded ends the session. -/
def effect (decodes : AccessToken → Bool) (c : Client) : Client :=
  match c.tokens.token with
  | some token => if decodes token then c else c.logout
  | none => c

/-- The `authenticatedFetch` of a render is called. -/
def authenticatedFetch (c : Client) (t : Tokens) : Client :=
  match t.token with
  | none => { c with calls := c.calls ++ [{ tokens := t, stage := .threw }] }
  | some _ => { c with calls := c.calls ++ [{ tokens := t }] }

/-- A call gets further. -/
def move (c : Client) (i : ℕ) (call : Call) (stage : Stage) : Client :=
  { c with calls := c.calls.set i { call with stage := stage } }

/-- A `fetch(url, …)` is answered with a status. -/
def respond (c : Client) (i : ℕ) (status : ℕ) : Option Client := do
  let call ← c.calls[i]?
  match call.stage with
  | .fetching =>
    if status = 401 ∧ call.tokens.refreshToken.isSome then some (c.move i call .refreshing)
    else some (c.move i call .returned)
  | .retrying => some (c.move i call .returned)
  | _ => none

/-- The answer to a `fetch('/auth/refresh', …)` arrives. -/
def receive (decodes : AccessToken → Bool) (c : Client) (i : ℕ) : Option Client := do
  let call ← c.calls[i]?
  match call.stage with
  | .answered (.ok data) =>
    some (((c.move i call .retrying).login data.accessToken data.refreshToken).effect decodes)
  -- the error thrown after the first `logout` is caught, and there is a second one
  | .answered (.error _) => some (c.move i call .threw).logout.logout
  | _ => none

/-- A `fetch` rejects, or the body of the answer to `fetch('/auth/refresh', …)` is lost; only the
first `fetch` is outside of the `try`. -/
def fail (c : Client) (i : ℕ) : Option Client := do
  let call ← c.calls[i]?
  match call.stage with
  | .fetching => some (c.move i call .threw)
  | .refreshing | .answered _ | .retrying => some (c.move i call .threw).logout
  | _ => none

/-- After a login, or when the tokens have been read from `localStorage`. -/
def start (accessToken : AccessToken) (refToken : String) : Client where
  tokens := ⟨some accessToken, some refToken⟩
  rendered := [⟨some accessToken, some refToken⟩]

/-- No call is in flight. -/
def Finished (c : Client) : Prop := ∀ call ∈ c.calls, call.stage = .returned ∨ call.stage = .threw

/-- The answer to the exchange of the call `i` is on its way. -/
def Awaits (c : Client) (i : ℕ) (refreshRes : Except Err AuthResponse) : Prop :=
  ∃ call, c.calls[i]? = some call ∧ call.stage = .answered refreshRes

/-- The refresh tokens that the client has held, and those on their way to it. -/
def Knows (c : Client) (token : String) : Prop :=
  (∃ t ∈ c.rendered, t.refreshToken = some token) ∨
    ∃ i data, c.Awaits i (.ok data) ∧ data.refreshToken = token

end Client

/-! ### The client and the service -/

/-- The client and the service. -/
structure System where
  client : Client
  site : Site

/-- What happens. -/
inductive Act where
  /-- Time passes, or the service serves somebody else. -/
  | other (e : Event)
  /-- The `authenticatedFetch` of a render is called. -/
  | call (t : Tokens)
  /-- A `fetch(url, …)` is answered. -/
  | respond (i : ℕ) (status : ℕ)
  /-- The service handles the exchange of a call. -/
  | exchange (i : ℕ)
  /-- The exchange of a call is answered before it reaches the route, as by the rate limiter. -/
  | refuse (i : ℕ) (e : Err)
  /-- The answer to an exchange arrives. -/
  | receive (i : ℕ)
  /-- A `fetch` rejects. -/
  | fail (i : ℕ)

/-- The steps.  The refresh tokens of the client are known to nobody else. -/
inductive Step (B : Bcrypt) (T : Set String) (decodes : AccessToken → Bool) :
    System → Act → System → Prop
  | other {c site site' e} : (requests B T).step site e site' →
      (∀ token, c.Knows token → Exchanged site'.log token → Exchanged site.log token) →
      Step B T decodes ⟨c, site⟩ (.other e) ⟨c, site'⟩
  | call {c site t} : t ∈ c.rendered →
      Step B T decodes ⟨c, site⟩ (.call t) ⟨c.authenticatedFetch t, site⟩
  | respond {c c' site i status} : c.respond i status = some c' →
      Step B T decodes ⟨c, site⟩ (.respond i status) ⟨c', site⟩
  | exchange {c site site' i call token refreshRes} : c.calls[i]? = some call →
      call.stage = .refreshing → call.tokens.refreshToken = some token →
      (requests B T).step site (.request (.refresh token)) site' →
      site'.log = site.log ++ [⟨.refresh token refreshRes, site.now⟩] →
      Step B T decodes ⟨c, site⟩ (.exchange i) ⟨c.move i call (.answered refreshRes), site'⟩
  | refuse {c site i call e} : c.calls[i]? = some call → call.stage = .refreshing →
      Step B T decodes ⟨c, site⟩ (.refuse i e) ⟨c.move i call (.answered (.error e)), site⟩
  | receive {c c' site i} : c.receive decodes i = some c' →
      Step B T decodes ⟨c, site⟩ (.receive i) ⟨c', site⟩
  | fail {c c' site i} : c.fail i = some c' → Step B T decodes ⟨c, site⟩ (.fail i) ⟨c', site⟩

/-- A session, from its first tokens on. -/
def session (B : Bcrypt) (T : Set String) (decodes : AccessToken → Bool) : LTS System Act where
  init s := (requests B T).Reachable s.site ∧
    ∃ accessToken refToken, s.client = .start accessToken refToken ∧ Live s.site refToken
  step := Step B T decodes

/-- The step does not cost the client its session: an exchange presents a token that has not been
exchanged, no token that the client could exchange expires, new access tokens can be decoded, and
nothing fails from the exchange on. -/
def Meets (decodes : AccessToken → Bool) (s : System) : Act → Prop
  | .other (.advance n) => ∀ token, s.client.Knows token → Live s.site token →
      Live { s.site with now := s.site.now + n } token
  | .exchange i => ∀ call token, s.client.calls[i]? = some call →
      call.tokens.refreshToken = some token → ¬ Exchanged s.site.log token
  | .refuse _ _ => False
  | .receive i => ∀ data, s.client.Awaits i (.ok data) → decodes data.accessToken = true
  | .fail i => ∀ call, s.client.calls[i]? = some call → call.stage = .fetching
  | _ => True

variable {B : Bcrypt} {T : Set String} {decodes : AccessToken → Bool}
  {s s' : System} {l : Act} {c c' : Client} {i j : ℕ} {call : Call} {stage : Stage} {token : String}

/-! ### What the client does -/

/-- The calls use tokens that have been rendered. -/
structure Client.Closed (c : Client) : Prop where
  stored : c.tokens ∈ c.rendered
  captured : ∀ call ∈ c.calls, call.tokens ∈ c.rendered

/-- The clients differ in nothing that concerns refresh tokens. -/
structure Client.Same (c c' : Client) : Prop where
  tokens : c'.tokens = c.tokens
  rendered : c'.rendered = c.rendered
  logouts : c'.logouts = c.logouts
  closed : c.Closed → c'.Closed
  awaits : ∀ i res, c'.Awaits i res ↔ c.Awaits i res

namespace Client

theorem Closed.render (h : c.Closed) (t : Tokens) : (c.render t).Closed where
  stored := List.mem_append_right _ (List.mem_singleton_self _)
  captured call hcall := List.mem_append_left _ (h.captured call hcall)

theorem Closed.logout (h : c.Closed) : c.logout.Closed :=
  ⟨(h.render _).stored, (h.render _).captured⟩

theorem Closed.effect (h : c.Closed) : (c.effect decodes).Closed := by
  unfold Client.effect
  split
  · split_ifs
    · exact h
    · exact h.logout
  · exact h

theorem Closed.move (h : c.Closed) (hcall : c.calls[i]? = some call) :
    (c.move i call stage).Closed where
  stored := h.stored
  captured call' hcall' := by
    rcases List.mem_or_eq_of_mem_set hcall' with hcall' | rfl
    · exact h.captured _ hcall'
    · exact h.captured call (List.mem_of_getElem? hcall)

theorem awaits_iff (h : c.calls[i]? = some call) (res : Except Err AuthResponse) :
    c.Awaits i res ↔ call.stage = .answered res := by
  simp [Awaits, h]

theorem awaits_move (h : c.calls[i]? = some call) (res : Except Err AuthResponse) :
    (c.move i call stage).Awaits j res ↔
      if i = j then stage = .answered res else c.Awaits j res := by
  simp only [Awaits, move, getElem?_set_of_some h]
  split_ifs <;> simp

theorem awaits_move_self (h : c.calls[i]? = some call) (res : Except Err AuthResponse) :
    (c.move i call (.answered res)).Awaits i res := by
  rw [awaits_move h, if_pos rfl]

/-- An answer on its way stays so while another call gets further. -/
theorem Awaits.move {res : Except Err AuthResponse} (hj : c.Awaits j res)
    (h : c.calls[i]? = some call) (hne : call.stage ≠ .answered res) :
    (c.move i call stage).Awaits j res := by
  rw [awaits_move h]
  split_ifs with hij
  · subst hij
    exact absurd ((awaits_iff h res).1 hj) hne
  · exact hj

/-- A call that gets further, no answer to an exchange being received or sent. -/
theorem same_move (h : c.calls[i]? = some call) (hold : ∀ res, call.stage ≠ .answered res)
    (hnew : ∀ res, stage ≠ .answered res) : c.Same (c.move i call stage) where
  tokens := rfl
  rendered := rfl
  logouts := rfl
  closed hc := hc.move h
  awaits j res := by
    rw [awaits_move h]
    split_ifs with hij
    · subst hij
      rw [awaits_iff h]
      exact iff_of_false (hnew res) (hold res)
    · rfl

theorem same_authenticatedFetch {t : Tokens} (ht : t ∈ c.rendered) :
    c.Same (c.authenticatedFetch t) := by
  have hnew (st : Stage) (hst : ∀ res, st ≠ .answered res) :
      c.Same { c with calls := c.calls ++ [{ tokens := t, stage := st }] } := by
    refine ⟨rfl, rfl, rfl, fun hc => ⟨hc.stored, fun call hcall => ?_⟩, fun j res => ?_⟩
    · rcases List.mem_append.1 hcall with hcall | hcall
      · exact hc.captured _ hcall
      · obtain rfl := List.mem_singleton.1 hcall
        exact ht
    · simp only [Awaits, getElem?_snoc]
      split_ifs with hj
      · simp [hj, hst]
      · rfl
  unfold authenticatedFetch
  split
  · exact hnew .threw nofun
  · exact hnew .fetching nofun

theorem same_respond {status : ℕ} (h : c.respond i status = some c') : c.Same c' := by
  obtain ⟨call, hcall, h⟩ := Option.bind_eq_some_iff.1 h
  cases hstage : call.stage <;> simp only [hstage] at h
  case fetching =>
    have hold : ∀ res, call.stage ≠ .answered res := by simp [hstage]
    split_ifs at h
    · cases h
      exact same_move hcall hold nofun
    · cases h
      exact same_move hcall hold nofun
  case retrying =>
    cases h
    exact same_move hcall (by simp [hstage]) nofun
  all_goals cases h

/-- What is done with the answer to an exchange. -/
theorem receive_cases (h : c.receive decodes i = some c') : ∃ call, c.calls[i]? = some call ∧
    ((∃ data, call.stage = .answered (.ok data) ∧ c' =
        ((c.move i call .retrying).login data.accessToken data.refreshToken).effect decodes) ∨
      ∃ e, call.stage = .answered (.error e) ∧ c' = (c.move i call .threw).logout.logout) := by
  obtain ⟨call, hcall, h⟩ := Option.bind_eq_some_iff.1 h
  refine ⟨call, hcall, ?_⟩
  cases hstage : call.stage <;> simp only [hstage] at h
  case answered res =>
    cases res with
    | ok data => exact .inl ⟨data, rfl, (Option.some.inj h).symm⟩
    | error e => exact .inr ⟨e, rfl, (Option.some.inj h).symm⟩
  all_goals cases h

/-- What is done with a `fetch` that fails. -/
theorem fail_cases (h : c.fail i = some c') : ∃ call, c.calls[i]? = some call ∧
    ((call.stage = .fetching ∧ c' = c.move i call .threw) ∨
      (call.stage ≠ .fetching ∧ c' = (c.move i call .threw).logout)) := by
  obtain ⟨call, hcall, h⟩ := Option.bind_eq_some_iff.1 h
  refine ⟨call, hcall, ?_⟩
  cases hstage : call.stage <;> simp only [hstage] at h
  case fetching => exact .inl ⟨rfl, (Option.some.inj h).symm⟩
  case refreshing | answered | retrying => exact .inr ⟨nofun, (Option.some.inj h).symm⟩
  all_goals cases h

theorem Same.knows (h : c.Same c') : c'.Knows token ↔ c.Knows token := by
  simp only [Knows, h.rendered, h.awaits]

theorem knows_logout : c.logout.Knows token ↔ c.Knows token := by
  simp [Knows, logout, render, Awaits]

theorem awaits_logout {res : Except Err AuthResponse} : c.logout.Awaits i res ↔ c.Awaits i res :=
  Iff.rfl

theorem awaits_login {accessToken : AccessToken} {refToken : String}
    {res : Except Err AuthResponse} :
    (c.login accessToken refToken).Awaits i res ↔ c.Awaits i res :=
  Iff.rfl

theorem knows_login {accessToken : AccessToken} {refToken : String} :
    (c.login accessToken refToken).Knows token ↔ c.Knows token ∨ refToken = token := by
  simp only [Knows, login, render, List.mem_append, List.mem_singleton, or_and_right,
    exists_or, exists_eq_left, Option.some.injEq]
  rw [or_right_comm]
  exact Iff.rfl

theorem awaits_effect {res : Except Err AuthResponse} :
    (c.effect decodes).Awaits i res ↔ c.Awaits i res := by
  unfold effect
  split
  · split_ifs
    · exact Iff.rfl
    · exact awaits_logout
  · exact Iff.rfl

theorem logouts_effect : c.logouts ≤ (c.effect decodes).logouts := by
  unfold effect
  split
  · split_ifs
    · exact le_rfl
    · exact Nat.le_succ _
  · exact le_rfl

/-- When a call gets further, the tokens known are those before, but for the answer received or
sent. -/
theorem knows_move (h : c.calls[i]? = some call) : (c.move i call stage).Knows token →
    c.Knows token ∨ ∃ data, stage = .answered (.ok data) ∧ data.refreshToken = token := by
  rintro (ht | ⟨j, data, hj, hdata⟩)
  · exact .inl (.inl ht)
  · rw [awaits_move h] at hj
    split_ifs at hj with hij
    · exact .inr ⟨data, hj, hdata⟩
    · exact .inl (.inr ⟨j, data, hj, hdata⟩)

theorem knows_of_move (h : c.calls[i]? = some call) (hnew : ∀ data, stage ≠ .answered (.ok data))
    (hk : (c.move i call stage).Knows token) : c.Knows token := by
  obtain hk | ⟨data, hstage, -⟩ := knows_move h hk
  · exact hk
  · exact absurd hstage (hnew _)

/-- The tokens known after an answer has been received are among those before. -/
theorem knows_receive (h : c.receive decodes i = some c') (hk : c'.Knows token) :
    c.Knows token := by
  obtain ⟨call, hcall, ⟨data, hstage, rfl⟩ | ⟨e, -, rfl⟩⟩ := receive_cases h
  · have hk' : ((c.move i call .retrying).login data.accessToken
        data.refreshToken).Knows token := by
      unfold effect at hk
      split at hk
      · split_ifs at hk
        · exact hk
        · exact knows_logout.1 hk
      · exact hk
    obtain hk' | rfl := knows_login.1 hk'
    · exact knows_of_move hcall (by rintro _ ⟨⟩) hk'
    · exact .inr ⟨i, data, ⟨call, hcall, hstage⟩, rfl⟩
  · exact knows_of_move hcall (by rintro _ ⟨⟩) (knows_logout.1 (knows_logout.1 hk))

theorem Closed.receive (h : c.Closed) (hc : c.receive decodes i = some c') : c'.Closed := by
  obtain ⟨call, hcall, ⟨data, -, rfl⟩ | ⟨e, -, rfl⟩⟩ := receive_cases hc
  · exact ((h.move hcall).render _).effect
  · exact (h.move hcall).logout.logout

theorem Closed.fail (h : c.Closed) (hc : c.fail i = some c') : c'.Closed := by
  obtain ⟨call, hcall, ⟨-, rfl⟩ | ⟨-, rfl⟩⟩ := fail_cases hc
  · exact h.move hcall
  · exact (h.move hcall).logout

/-- The token that a call presents is known. -/
theorem Closed.knows (h : c.Closed) (hcall : c.calls[i]? = some call)
    (htoken : call.tokens.refreshToken = some token) : c.Knows token :=
  .inl ⟨_, h.captured call (List.mem_of_getElem? hcall), htoken⟩

/-- The tokens known after a failure are those before. -/
theorem knows_fail (h : c.fail i = some c') (hk : c'.Knows token) : c.Knows token := by
  obtain ⟨call, hcall, ⟨-, rfl⟩ | ⟨-, rfl⟩⟩ := fail_cases h
  · exact knows_of_move hcall (by rintro _ ⟨⟩) hk
  · exact knows_of_move hcall (by rintro _ ⟨⟩) (knows_logout.1 hk)

end Client

/-! ### What holds throughout -/

/-- The tokens known to the client have been issued. -/
structure Tidy (B : Bcrypt) (T : Set String) (s : System) : Prop where
  site : (requests B T).Reachable s.site
  closed : s.client.Closed
  issued : ∀ token, s.client.Knows token → ∃ time, Issued s.site.log token time

theorem Tidy.step (h : Tidy B T s) (hst : Step B T decodes s l s') : Tidy B T s' := by
  cases hst with
  | other hsite _ =>
    exact ⟨h.site.tail hsite, h.closed, fun token hk =>
      (h.issued token hk).imp fun _ => .mono (requests_log hsite)⟩
  | call ht =>
    have hc := Client.same_authenticatedFetch ht
    exact ⟨h.site, hc.closed h.closed, fun token hk => h.issued token (hc.knows.1 hk)⟩
  | respond hc =>
    have hc := Client.same_respond hc
    exact ⟨h.site, hc.closed h.closed, fun token hk => h.issued token (hc.knows.1 hk)⟩
  | exchange hcall _ _ hsite hlog =>
    refine ⟨h.site.tail hsite, h.closed.move hcall, fun token' hk => ?_⟩
    obtain hk | ⟨data, hdata, rfl⟩ := Client.knows_move hcall hk
    · exact (h.issued token' hk).imp fun _ => .mono (requests_log hsite)
    · cases hdata
      exact ⟨_, _, hlog ▸ List.mem_append_right _ (List.mem_singleton_self _), data, rfl, rfl, rfl⟩
  | refuse hcall _ =>
    exact ⟨h.site, h.closed.move hcall, fun token hk =>
      h.issued token (Client.knows_of_move hcall (by rintro _ ⟨⟩) hk)⟩
  | receive hc =>
    exact ⟨h.site, h.closed.receive hc, fun token hk => h.issued token (Client.knows_receive hc hk)⟩
  | fail hc =>
    exact ⟨h.site, h.closed.fail hc, fun token hk => h.issued token (Client.knows_fail hc hk)⟩

/-- The tokens known to the client are among those that occur. -/
theorem Tidy.mem (h : Tidy B T s) (hT : Set.InjOn hashRefreshToken T)
    (hk : s.client.Knows token) : token ∈ T := by
  obtain ⟨time, hi⟩ := h.issued token hk
  exact (requests_tracked hT h.site).issued _ _ hi

/-! ### The session kept, and lost -/

/-- The token is the one held, or the one on its way. -/
inductive Holds (c : Client) (token : String) : Prop
  | stored : c.tokens.refreshToken = some token → (∀ i data, ¬ c.Awaits i (.ok data)) →
      Holds c token
  | pending (i : ℕ) (data : AuthResponse) : data.refreshToken = token →
      (∀ t ∈ c.rendered, t.refreshToken ≠ some token) →
      (∀ j data', c.Awaits j (.ok data') ↔ j = i ∧ data' = data) → Holds c token

/-- The client has not logged out, and is not about to; of the tokens that it knows, the one that it
holds, or is about to, is live, and all others have been exchanged. -/
structure Kept (s : System) : Prop where
  logouts : s.client.logouts = 0
  accepted : ∀ i e, ¬ s.client.Awaits i (.error e)
  holds : ∃ token, Holds s.client token ∧ Live s.site token ∧
    ∀ token', s.client.Knows token' → token' ≠ token → Exchanged s.site.log token'

/-- The client has logged out, is about to, or has no token that the service would exchange. -/
def Lost (s : System) : Prop :=
  0 < s.client.logouts ∨ (∃ i e, s.client.Awaits i (.error e)) ∨
    ∀ token, s.client.Knows token → ¬ Live s.site token

variable {site site' : Site} {refreshRes : Except Err AuthResponse}

theorem eq_of_not_exchanged {cur : String}
    (hold : ∀ token', c.Knows token' → token' ≠ cur → Exchanged site.log token')
    (hk : c.Knows token) (hnot : ¬ Exchanged site.log token) : token = cur := by
  by_contra hne
  exact hnot (hold token hk hne)

theorem Holds.knows (h : Holds c token) (hc : c.Closed) : c.Knows token := by
  cases h with
  | stored htoken _ => exact .inl ⟨_, hc.stored, htoken⟩
  | pending i data hdata _ hiff => exact .inr ⟨i, data, (hiff i data).2 ⟨rfl, rfl⟩, hdata⟩

theorem Holds.same (h : Holds c token) (hc : c.Same c') : Holds c' token := by
  cases h with
  | stored htoken hnone =>
    refine .stored ?_ fun i data => ?_
    · rw [hc.tokens]
      exact htoken
    · rw [hc.awaits]
      exact hnone i data
  | pending i data hdata hnew hiff =>
    refine .pending i data hdata ?_ fun j data' => ?_
    · rw [hc.rendered]
      exact hnew
    · rw [hc.awaits]
      exact hiff j data'

theorem Kept.same (h : Kept ⟨c, site⟩) (hc : c.Same c') : Kept ⟨c', site⟩ := by
  obtain ⟨token, hholds, hlive, hold⟩ := h.holds
  refine ⟨hc.logouts.trans h.logouts, fun i e => ?_, token, hholds.same hc, hlive,
    fun token' hk => hold token' (hc.knows.1 hk)⟩
  change ¬ c'.Awaits i (.error e)
  rw [hc.awaits]
  exact h.accepted i e

theorem Lost.same (h : Lost ⟨c, site⟩) (hc : c.Same c') : Lost ⟨c', site⟩ := by
  simpa only [Lost, hc.logouts, hc.awaits, hc.knows] using h

/-- What the exchange of a token that the client knows is answered. -/
theorem exchange_cases (hT : Set.InjOn hashRefreshToken T) (hsite : (requests B T).Reachable site)
    (ht : token ∈ T) (hst : (requests B T).step site (.request (.refresh token)) site')
    (hlog : site'.log = site.log ++ [⟨.refresh token refreshRes, site.now⟩]) :
    (∃ data, refreshRes = .ok data ∧ Live site token ∧ Exchanged site'.log token ∧
      (∀ time, ¬ Issued site.log data.refreshToken time) ∧ Live site' data.refreshToken) ∨
    ∃ e, refreshRes = .error e ∧ ¬ Live site token := by
  have htracked := requests_tracked hT hsite
  have same {res : Except Err AuthResponse}
      (h : site'.log = site.log ++ [⟨.refresh token res, site.now⟩]) : refreshRes = res := by
    rw [h] at hlog
    have hlast := (List.append_cancel_left hlog)
    simpa using hlast.symm
  obtain ⟨f, r, u, ⟨-, -, hfresh, -⟩, -, -, hlive, -, hlog'⟩ | ⟨e, hdead, -, hlog'⟩ :=
    htracked.refresh_cases hT ht hst
  · obtain rfl := same hlog'
    refine .inl ⟨_, rfl, hlive, ?_, hfresh, site.now, ?_, fun hex => ?_, ?_⟩
    · rw [hlog]
      exact exchanged_append.2 (.inr (Reply.redeems_iff.2 ⟨_, rfl⟩))
    · rw [hlog]
      exact issued_append.2 (.inr ⟨_, rfl, rfl, rfl⟩)
    · -- neither before nor by this exchange, whose token has been issued already
      rw [hlog, exchanged_append, Reply.redeems_iff] at hex
      obtain hex | ⟨_, hex⟩ := hex
      · obtain ⟨time, hi⟩ := htracked.exchanged _ hex
        exact hfresh time hi
      · obtain ⟨time, hi, -⟩ := hlive
        cases hex
        exact hfresh time hi
    · obtain ⟨-, _, -, hnow, -⟩ := hst
      rw [hnow]
      exact Nat.le_add_right _ _
  · exact .inr ⟨e, same hlog', hdead⟩

/-- What an exchange does to a client that has its session. -/
theorem Kept.exchange (hT : Set.InjOn hashRefreshToken T) (htidy : Tidy B T ⟨c, site⟩)
    (h : Kept ⟨c, site⟩) (hcall : c.calls[i]? = some call)
    (htoken : call.tokens.refreshToken = some token)
    (hst : (requests B T).step site (.request (.refresh token)) site')
    (hlog : site'.log = site.log ++ [⟨.refresh token refreshRes, site.now⟩]) :
    (Live site token ∧ Kept ⟨c.move i call (.answered refreshRes), site'⟩) ∨
      (¬ Live site token ∧ Lost ⟨c.move i call (.answered refreshRes), site'⟩) := by
  have hknows := htidy.closed.knows hcall htoken
  have hawaits : ∀ j res, (c.move i call (.answered refreshRes)).Awaits j res ↔
      if i = j then refreshRes = res else c.Awaits j res := by
    intro j res
    rw [Client.awaits_move hcall]
    simp
  obtain ⟨data, rfl, hlive, hexchanged, hfresh, hlive'⟩ | ⟨e, rfl, hdead⟩ :=
    exchange_cases hT htidy.site (htidy.mem hT hknows) hst hlog
  · obtain ⟨cur, hholds, -, hold⟩ := h.holds
    -- the token exchanged is the one held, so nothing is on its way
    obtain rfl := eq_of_not_exchanged hold hknows hlive.not_exchanged
    refine .inl ⟨hlive, h.logouts, fun j e hj => ?_, data.refreshToken, ?_, hlive', ?_⟩
    · rw [hawaits] at hj
      split_ifs at hj
      exact h.accepted j e hj
    · cases hholds with
      | stored _ hnone =>
        refine .pending i data rfl (fun t ht heq => ?_) fun j data' => ?_
        · obtain ⟨time, hi⟩ := htidy.issued _ (.inl ⟨t, ht, heq⟩)
          exact hfresh time hi
        · rw [hawaits]
          split_ifs with hij
          · simp [hij, eq_comm]
          · exact iff_of_false (hnone j data') fun hj => hij hj.1.symm
      | pending _ _ _ hnew _ =>
        exact absurd htoken (hnew _ (htidy.closed.captured call (List.mem_of_getElem? hcall)))
    · intro token' hk hne
      obtain hk | ⟨data', ⟨⟩, rfl⟩ := Client.knows_move hcall hk
      · by_cases heq : token' = token
        · rw [heq]
          exact hexchanged
        · exact .mono (requests_log hst) (hold token' hk heq)
      · exact absurd rfl hne
  · exact .inr ⟨hdead, .inr (.inl ⟨i, e, Client.awaits_move_self hcall _⟩)⟩

/-- A refusal on its way arrives, or stays on its way; arriving it logs the client out. -/
theorem lost_receive (hc : c.receive decodes i = some c') (h : Lost ⟨c, site⟩) :
    Lost ⟨c', site⟩ := by
  have hknows {token : String} : c'.Knows token → c.Knows token := Client.knows_receive hc
  obtain hout | ⟨j, e, hj⟩ | hnone := h
  · refine .inl (hout.trans_le ?_)
    obtain ⟨call, hcall, ⟨data, -, rfl⟩ | ⟨e, -, rfl⟩⟩ := Client.receive_cases hc
    · exact Client.logouts_effect (c := (c.move i call .retrying).login _ _)
    · exact (Nat.le_succ _).trans (Nat.le_succ _)
  · obtain ⟨call, hcall, ⟨data, hstage, rfl⟩ | ⟨e', -, rfl⟩⟩ := Client.receive_cases hc
    · exact .inr (.inl ⟨j, e, Client.awaits_effect.2 (hj.move hcall (by simp [hstage]))⟩)
    · exact .inl (Nat.succ_pos _)
  · exact .inr (.inr fun token hk => hnone token (hknows hk))

theorem lost_fail (hc : c.fail i = some c') (h : Lost ⟨c, site⟩) : Lost ⟨c', site⟩ := by
  obtain ⟨call, hcall, ⟨hstage, rfl⟩ | ⟨-, rfl⟩⟩ := Client.fail_cases hc
  · exact h.same (Client.same_move hcall (by simp [hstage]) nofun)
  · exact .inl (Nat.succ_pos _)

/-- A lost session is not found again. -/
theorem Lost.step (hT : Set.InjOn hashRefreshToken T) (htidy : Tidy B T s) (h : Lost s)
    (hst : Step B T decodes s l s') : Lost s' := by
  cases hst with
  | @other c site site' e hsite hother =>
    obtain hout | hrefused | hnone := h
    · exact .inl hout
    · exact .inr (.inl hrefused)
    · refine .inr (.inr fun token hk hlive => hnone token hk ?_)
      cases e with
      | advance n =>
        obtain rfl : site' = _ := hsite
        obtain ⟨time, hi, hex, hle⟩ := hlive
        exact ⟨time, hi, hex, (Nat.le_add_right _ n).trans hle⟩
      | request q =>
        obtain ⟨time, hi⟩ := htidy.issued token hk
        exact (live_request hsite hi (hother token hk)).1 hlive
  | call ht => exact h.same (Client.same_authenticatedFetch ht)
  | respond hc => exact h.same (Client.same_respond hc)
  | @exchange c site site' i call token refreshRes hcall hstage htoken hsite hlog =>
    obtain hout | ⟨j, e, hj⟩ | hnone := h
    · exact .inl hout
    · exact .inr (.inl ⟨j, e, hj.move hcall (by simp [hstage])⟩)
    · have hknows := htidy.closed.knows hcall htoken
      have ht := htidy.mem hT hknows
      obtain ⟨_, -, hlive, -⟩ | ⟨e, rfl, -⟩ := exchange_cases hT htidy.site ht hsite hlog
      · exact absurd hlive (hnone token hknows)
      · exact .inr (.inl ⟨i, e, Client.awaits_move_self hcall _⟩)
  | @refuse c site i call e hcall hstage =>
    exact .inr (.inl ⟨i, e, Client.awaits_move_self hcall _⟩)
  | receive hc => exact lost_receive hc h
  | fail hc => exact lost_fail hc h

/-- What an answer to an exchange does to a client that has its session. -/
theorem Kept.receive (h : Kept ⟨c, site⟩) (hc : c.receive decodes i = some c') :
    ∃ data, c.Awaits i (.ok data) ∧ (decodes data.accessToken = true → Kept ⟨c', site⟩) ∧
      (¬ decodes data.accessToken = true → Lost ⟨c', site⟩) := by
  have hknows {token : String} : c'.Knows token → c.Knows token := Client.knows_receive hc
  obtain ⟨call, hcall, ⟨data, hstage, rfl⟩ | ⟨e, hstage, rfl⟩⟩ := Client.receive_cases hc
  · refine ⟨data, ⟨call, hcall, hstage⟩, fun hdecodes => ?_, fun hdecodes => ?_⟩
    · have heffect : ((c.move i call .retrying).login data.accessToken data.refreshToken).effect
          decodes = (c.move i call .retrying).login data.accessToken data.refreshToken :=
        if_pos hdecodes
      rw [heffect] at hknows ⊢
      have hawaits : ∀ j res, ((c.move i call .retrying).login data.accessToken
          data.refreshToken).Awaits j res ↔ i ≠ j ∧ c.Awaits j res := by
        intro j res
        rw [Client.awaits_login, Client.awaits_move hcall]
        split_ifs with hij <;> simp [hij]
      obtain ⟨cur, hholds, hlive, hold⟩ := h.holds
      cases hholds with
      | stored _ hnone => exact absurd ⟨call, hcall, hstage⟩ (hnone i data)
      | pending k data' hdata _ hiff =>
        obtain ⟨rfl, rfl⟩ := (hiff i data).1 ⟨call, hcall, hstage⟩
        refine ⟨h.logouts, fun j e hj => h.accepted j e ((hawaits j _).1 hj).2, cur,
          .stored (congrArg some hdata) fun j data' hj => ?_, hlive,
          fun token' hk => hold token' (hknows hk)⟩
        obtain ⟨hij, hj⟩ := (hawaits j _).1 hj
        exact hij ((hiff j data').1 hj).1.symm
    · refine .inl ?_
      have heffect : ((c.move i call .retrying).login data.accessToken data.refreshToken).effect
          decodes = ((c.move i call .retrying).login data.accessToken data.refreshToken).logout :=
        if_neg hdecodes
      rw [heffect]
      exact Nat.succ_pos _
  · exact absurd ⟨call, hcall, hstage⟩ (h.accepted i e)

/-- What the passage of time and the requests of others do to a client that has its session. -/
theorem Kept.other {e : Event} (htidy : Tidy B T ⟨c, site⟩) (h : Kept ⟨c, site⟩)
    (hsite : (requests B T).step site e site')
    (hother : ∀ token, c.Knows token → Exchanged site'.log token → Exchanged site.log token) :
    (Meets decodes ⟨c, site⟩ (.other e) → Kept ⟨c, site'⟩) ∧
      (¬ Meets decodes ⟨c, site⟩ (.other e) → Lost ⟨c, site'⟩) := by
  obtain ⟨cur, hholds, hlive, hold⟩ := h.holds
  have hcur := hholds.knows htidy.closed
  have hold' : ∀ token', c.Knows token' → token' ≠ cur → Exchanged site'.log token' :=
    fun token' hk hne => .mono (requests_log hsite) (hold token' hk hne)
  cases e with
  | advance n =>
    obtain rfl : site' = _ := hsite
    refine ⟨fun hm => ⟨h.logouts, h.accepted, cur, hholds, hm cur hcur hlive, hold'⟩,
      fun hm => .inr (.inr fun token' hk hlive' => hm ?_)⟩
    -- the token held is the only one that could expire
    obtain rfl := eq_of_not_exchanged hold hk hlive'.not_exchanged
    intro token'' hk'' hlive''
    obtain rfl := eq_of_not_exchanged hold hk'' hlive''.not_exchanged
    exact hlive'
  | request q =>
    obtain ⟨time, hi⟩ := htidy.issued cur hcur
    have hlive' := (live_request hsite hi (hother cur hcur)).2 hlive
    exact ⟨fun _ => ⟨h.logouts, h.accepted, cur, hholds, hlive', hold'⟩,
      fun hm => absurd trivial hm⟩

/-- A client that has its session keeps it in a step that meets the condition, and loses it in any
other. -/
theorem Kept.step (hT : Set.InjOn hashRefreshToken T) (htidy : Tidy B T s) (h : Kept s)
    (hst : Step B T decodes s l s') :
    (Meets decodes s l → Kept s') ∧ (¬ Meets decodes s l → Lost s') := by
  cases hst with
  | other hsite hother => exact h.other htidy hsite hother
  | call ht =>
    exact ⟨fun _ => h.same (Client.same_authenticatedFetch ht), fun hm => absurd trivial hm⟩
  | respond hc => exact ⟨fun _ => h.same (Client.same_respond hc), fun hm => absurd trivial hm⟩
  | @exchange c site site' i call token refreshRes hcall hstage htoken hsite hlog =>
    obtain ⟨hlive, hkept⟩ | ⟨hdead, hlost⟩ := h.exchange hT htidy hcall htoken hsite hlog
    · refine ⟨fun _ => hkept, fun hm => absurd ?_ hm⟩
      intro call' token' hcall' htoken'
      obtain rfl : call = call' := Option.some.inj (hcall.symm.trans hcall')
      obtain rfl : token = token' := Option.some.inj (htoken.symm.trans htoken')
      exact hlive.not_exchanged
    · refine ⟨fun hm => absurd ?_ hdead, fun _ => hlost⟩
      -- a token that has not been exchanged is the one held
      obtain ⟨cur, -, hlive, hold⟩ := h.holds
      obtain rfl := eq_of_not_exchanged hold (htidy.closed.knows hcall htoken)
        (hm call token hcall htoken)
      exact hlive
  | @refuse c site i call e hcall hstage =>
    exact ⟨False.elim, fun _ => .inr (.inl ⟨i, e, Client.awaits_move_self hcall _⟩)⟩
  | @receive c c' site i hc =>
    obtain ⟨data, hdata, hkept, hlost⟩ := h.receive hc
    refine ⟨fun hm => hkept (hm data hdata), fun hm => hlost fun hdecodes => hm ?_⟩
    rintro data' ⟨call, hcall, hstage⟩
    rw [Client.awaits_iff hcall, hstage] at hdata
    cases hdata
    exact hdecodes
  | @fail c c' site i hc =>
    obtain ⟨call, hcall, ⟨hstage, rfl⟩ | ⟨hstage, rfl⟩⟩ := Client.fail_cases hc
    · refine ⟨fun _ => h.same (Client.same_move hcall (by simp [hstage]) nofun),
        fun hm => absurd ?_ hm⟩
      intro call' hcall'
      obtain rfl : call = call' := Option.some.inj (hcall.symm.trans hcall')
      exact hstage
    · exact ⟨fun hm => absurd (hm call hcall) hstage, fun _ => .inl (Nat.succ_pos _)⟩

/-! ### A first exchange -/

/-- Three refresh tokens. -/
def threeTokens : Set String := {"t1", "t2", "t3"}

theorem injOn_threeTokens : Set.InjOn hashRefreshToken threeTokens := by
  have h₁₂ : hashRefreshToken "t1" ≠ hashRefreshToken "t2" := by decide +kernel
  have h₁₃ : hashRefreshToken "t1" ≠ hashRefreshToken "t3" := by decide +kernel
  have h₂₃ : hashRefreshToken "t2" ≠ hashRefreshToken "t3" := by decide +kernel
  rintro _ (rfl | rfl | rfl) _ (rfl | rfl | rfl) h
  · rfl
  · exact absurd h h₁₂
  · exact absurd h h₁₃
  · exact absurd h.symm h₁₂
  · rfl
  · exact absurd h h₂₃
  · exact absurd h.symm h₁₃
  · exact absurd h.symm h₂₃
  · rfl

/-- The client after its login. -/
def first : System where
  client := .start (createAccessToken 1 "a@b.c" 0) "t1"
  site := firstLogin

theorem live_first : Live firstLogin "t1" := by
  refine ⟨0, ⟨_, List.mem_singleton_self _, _, rfl, rfl, rfl⟩, ?_, Nat.zero_le _⟩
  rintro ⟨x, hx, hredeems⟩
  obtain rfl := List.mem_singleton.1 hx
  cases hredeems

theorem first_init : (session plain threeTokens decodes).init first :=
  ⟨firstLogin_reachable (.inl rfl), _, _, rfl, live_first⟩

/-- "t1" is exchanged for "t2", and the next token can be drawn. -/
theorem exists_exchange : ∃ site data,
    (requests plain threeTokens).step firstLogin (.request (.refresh "t1")) site ∧
    site.log = firstLogin.log ++ [⟨.refresh "t1" (.ok data), 0⟩] ∧ data.refreshToken = "t2" ∧
    Draws threeTokens site site.tables { id := 12, token := "t3" } := by
  have ht : "t1" ∈ threeTokens := .inl rfl
  let f : Draw := { id := 11, token := "t2" }
  have hf : Draws threeTokens firstLogin firstLogin.tables f := by
    refine ⟨rfl, .inr (.inl rfl), ?_, rfl⟩
    rintro time ⟨x, hx, a, ha, htoken, -⟩
    obtain rfl := List.mem_singleton.1 hx
    obtain rfl := Option.some.inj ha
    exact absurd htoken (by decide)
  have htracked := requests_tracked injOn_threeTokens (firstLogin_reachable ht)
  obtain ⟨r, hr, u, -, -, hrun⟩ | ⟨_, hdead, -⟩ :=
    htracked.run_refreshTx (f := f) injOn_threeTokens ht rfl rfl
  · obtain rfl := List.mem_singleton.1 hr
    refine ⟨⟨_, 0, _⟩, _, ⟨by rintro _ ⟨⟩; exact ht, _, .commit hf hrun .done, rfl, rfl⟩, rfl, rfl,
      rfl, .inr (.inr rfl), ?_, rfl⟩
    -- "t1" and "t2" have been issued so far
    rintro time ⟨x, hx, a, ha, htoken, -⟩
    rcases List.mem_append.1 hx with hx | hx
    · obtain rfl := List.mem_singleton.1 hx
      obtain rfl := Option.some.inj ha
      exact absurd htoken (by decide)
    · obtain rfl := List.mem_singleton.1 hx
      obtain rfl := Option.some.inj ha
      have hne : "t2" ≠ "t3" := by decide
      exact hne htoken
  · exact absurd live_first hdead

/-! ### Runs -/

/-- Along a run from the first tokens on, the session is kept as long as all steps meet the
condition, and lost from the first one on that does not. -/
theorem session_kept_or_lost (hT : Set.InjOn hashRefreshToken T) {s₀ : System}
    {tr : List (System × Act)} (h₀ : (session B T decodes).init s₀)
    (h : (session B T decodes).Trace s₀ tr s) :
    Tidy B T s ∧ ((∀ x ∈ tr, Meets decodes x.1 x.2) → Kept s) ∧
      ((∃ x ∈ tr, ¬ Meets decodes x.1 x.2) → Lost s) := by
  induction h with
  | refl =>
    obtain ⟨hsite, accessToken, refToken, hc, hlive⟩ := h₀
    obtain ⟨c, site⟩ := s₀
    obtain rfl : c = _ := hc
    have hknows : ∀ token, (Client.start accessToken refToken).Knows token → token = refToken := by
      rintro token (⟨t, ht, htoken⟩ | ⟨i, data, ⟨call, hcall, -⟩, -⟩)
      · obtain rfl := List.mem_singleton.1 ht
        exact (Option.some.inj htoken).symm
      · cases hcall
    have hnone : ∀ i res, ¬ (Client.start accessToken refToken).Awaits i res := by
      rintro i res ⟨call, hcall, -⟩
      cases hcall
    refine ⟨⟨hsite, ⟨List.mem_singleton_self _, by rintro _ ⟨⟩⟩, fun token hk => ?_⟩, fun _ => ?_,
      by simp⟩
    · obtain rfl := hknows token hk
      exact hlive.imp fun _ h => h.1
    · exact ⟨rfl, fun i e => hnone i _, refToken, .stored rfl fun i data => hnone i _, hlive,
        fun token hk hne => absurd (hknows token hk) hne⟩
  | @snoc tr s₁ s₂ l htr hst ih =>
    obtain ⟨htidy, hkept, hlost⟩ := ih
    refine ⟨htidy.step hst, fun hall => ?_, fun ⟨x, hx, hm⟩ => ?_⟩
    · have hall' : ∀ x ∈ tr, Meets decodes x.1 x.2 := fun x hx => hall x (List.mem_append_left _ hx)
      exact ((hkept hall').step hT htidy hst).1
        (hall (s₁, l) (List.mem_append_right _ (List.mem_singleton_self _)))
    · by_cases hbefore : ∃ x ∈ tr, ¬ Meets decodes x.1 x.2
      · exact (hlost hbefore).step hT htidy hst
      · push Not at hbefore
        rcases List.mem_append.1 hx with hx | hx
        · exact absurd (hbefore x hx) hm
        · obtain rfl := List.mem_singleton.1 hx
          exact ((hkept hbefore).step hT htidy hst).2 hm

/-- **Parallel requests.**  Along every run of the client and the service, the client does not log
out as long as every step meets the condition; and when its calls have come to their end, it has
not logged out and holds a refresh token that the service would exchange just when every step has
met it. -/
theorem parallel_requests (hT : Set.InjOn hashRefreshToken T) {s₀ : System}
    {tr : List (System × Act)} (h₀ : (session B T decodes).init s₀)
    (h : (session B T decodes).Trace s₀ tr s) :
    ((∀ x ∈ tr, Meets decodes x.1 x.2) → s.client.logouts = 0) ∧
    (s.client.Finished → ((s.client.logouts = 0 ∧ ∃ token,
        s.client.tokens.refreshToken = some token ∧ Accepts s.site.tables s.site.now token) ↔
      ∀ x ∈ tr, Meets decodes x.1 x.2)) := by
  obtain ⟨htidy, hkept, hlost⟩ := session_kept_or_lost hT h₀ h
  have htracked := requests_tracked hT htidy.site
  refine ⟨fun hall => (hkept hall).logouts, fun hfin => ?_⟩
  have hnone : ∀ i res, ¬ s.client.Awaits i res := by
    rintro i res ⟨call, hcall, hstage⟩
    obtain h | h := hfin call (List.mem_of_getElem? hcall)
    · rw [hstage] at h
      cases h
    · rw [hstage] at h
      cases h
  constructor
  · rintro ⟨hlog, token, htoken, hacc⟩
    by_contra hall
    push Not at hall
    have hk : s.client.Knows token := .inl ⟨_, htidy.closed.stored, htoken⟩
    obtain hout | ⟨i, e, hi⟩ | hdead := hlost hall
    · exact hout.ne' hlog
    · exact hnone _ _ hi
    · exact hdead token hk ((htracked.accepts_iff hT (htidy.mem hT hk)).1 hacc)
  · intro hall
    obtain ⟨hlog, -, token, hholds, hlive, -⟩ := hkept hall
    have hk := hholds.knows htidy.closed
    refine ⟨hlog, token, ?_, (htracked.accepts_iff hT (htidy.mem hT hk)).2 hlive⟩
    cases hholds with
    | stored htoken _ => exact htoken
    | pending i data _ _ hiff => exact absurd ((hiff i data).2 ⟨rfl, rfl⟩) (hnone _ _)

/-- What the second exchange does, of the token that the first one has given. -/
theorem exists_second_exchange {site : Site} {data : AuthResponse}
    (hst : (requests plain threeTokens).step firstLogin (.request (.refresh "t1")) site)
    (hlog : site.log = firstLogin.log ++ [⟨.refresh "t1" (.ok data), 0⟩])
    (hdata : data.refreshToken = "t2")
    (hf : Draws threeTokens site site.tables { id := 12, token := "t3" }) :
    ∃ site' data', (requests plain threeTokens).step site (.request (.refresh "t2")) site' ∧
      site'.log = site.log ++ [⟨.refresh "t2" (.ok data'), site.now⟩] ∧
      ¬ Exchanged site.log "t2" := by
  have ht : "t2" ∈ threeTokens := .inr (.inl rfl)
  have htracked := requests_tracked injOn_threeTokens ((firstLogin_reachable (.inl rfl)).tail hst)
  have hlive : Live site "t2" := by
    refine ⟨0, ⟨⟨.refresh "t1" (.ok data), 0⟩, ?_, data, rfl, hdata, rfl⟩, ?_,
      hf.1 ▸ Nat.zero_le _⟩
    · rw [hlog]
      exact List.mem_append_right _ (List.mem_singleton_self _)
    · rintro ⟨x, hx, hredeems⟩
      rw [hlog] at hx
      rcases List.mem_append.1 hx with hx | hx
      · obtain rfl := List.mem_singleton.1 hx
        cases hredeems
      · obtain rfl := List.mem_singleton.1 hx
        obtain ⟨a, ha⟩ := Reply.redeems_iff.1 hredeems
        exact absurd (Reply.refresh.inj ha).1 (by decide)
  obtain ⟨site', hst'⟩ := Auth.exists_refresh (B := plain) ht hf
  obtain ⟨_, _, _, -, -, -, -, -, hlog'⟩ | ⟨_, hdead, -⟩ :=
    htracked.refresh_cases injOn_threeTokens ht hst'
  · exact ⟨site', _, hst', hlog', hlive.not_exchanged⟩
  · exact absurd hlive hdead

/-- Three calls that overlap: of two of the first render one is unauthorized and gets a new pair of
tokens, and one of the second render is unauthorized with this pair before the first one returns;
the client keeps its session. -/
theorem parallel_requests_overlapping : ∃ tr s, ∃ data : AuthResponse,
    (session plain threeTokens fun _ => true).Trace first tr s ∧
    tr.map Prod.snd = [.call first.client.tokens, .call first.client.tokens, .respond 0 401,
      .exchange 0, .respond 1 200, .receive 0, .call ⟨some data.accessToken, some "t2"⟩,
      .respond 2 401, .exchange 2, .respond 0 200, .receive 2, .respond 2 200] ∧
    s.client.logouts = 0 ∧ ∃ token, s.client.tokens.refreshToken = some token ∧
      Accepts s.site.tables s.site.now token := by
  obtain ⟨site₁, data, hst₁, hlog₁, hdata, hf⟩ := exists_exchange
  obtain ⟨site₂, data₂, hst₂, hlog₂, hnew⟩ := exists_second_exchange hst₁ hlog₁ hdata hf
  obtain ⟨accessToken, refToken, tokenType⟩ := data
  obtain rfl : refToken = "t2" := hdata
  let A := session plain threeTokens fun _ => true
  let held := first.client.tokens
  let held' : Tokens := ⟨some accessToken, some "t2"⟩
  -- two calls of the first render, of which one exchanges "t1"
  let c₁ := first.client.authenticatedFetch held
  let c₂ := c₁.authenticatedFetch held
  let c₃ := c₂.move 0 ⟨held, .fetching⟩ .refreshing
  let c₄ := c₃.move 0 ⟨held, .refreshing⟩ (.answered (.ok ⟨accessToken, "t2", tokenType⟩))
  let c₅ := c₄.move 1 ⟨held, .fetching⟩ .returned
  let c₆ := (c₅.move 0 ⟨held, .refreshing⟩ .retrying).login accessToken "t2"
  have h₁ : A.step first (.call held) ⟨c₁, firstLogin⟩ := .call (List.mem_singleton_self _)
  have h₂ : A.step ⟨c₁, firstLogin⟩ (.call held) ⟨c₂, firstLogin⟩ :=
    .call (List.mem_singleton_self _)
  have h₃ : A.step ⟨c₂, firstLogin⟩ (.respond 0 401) ⟨c₃, firstLogin⟩ := .respond rfl
  have h₄ : A.step ⟨c₃, firstLogin⟩ (.exchange 0) ⟨c₄, site₁⟩ := .exchange rfl rfl rfl hst₁ hlog₁
  have h₅ : A.step ⟨c₄, site₁⟩ (.respond 1 200) ⟨c₅, site₁⟩ := .respond rfl
  have h₆ : A.step ⟨c₅, site₁⟩ (.receive 0) ⟨c₆, site₁⟩ := .receive rfl
  -- one of the second render, which exchanges "t2"
  let c₇ := c₆.authenticatedFetch held'
  let c₈ := c₇.move 2 ⟨held', .fetching⟩ .refreshing
  let c₉ := c₈.move 2 ⟨held', .refreshing⟩ (.answered (.ok data₂))
  let c₁₀ := c₉.move 0 ⟨held, .retrying⟩ .returned
  let c₁₁ := (c₁₀.move 2 ⟨held', .refreshing⟩ .retrying).login data₂.accessToken
    data₂.refreshToken
  let c₁₂ := c₁₁.move 2 ⟨held', .retrying⟩ .returned
  have h₇ : A.step ⟨c₆, site₁⟩ (.call held') ⟨c₇, site₁⟩ :=
    .call (List.mem_append_right _ (List.mem_singleton_self _))
  have h₈ : A.step ⟨c₇, site₁⟩ (.respond 2 401) ⟨c₈, site₁⟩ := .respond rfl
  have h₉ : A.step ⟨c₈, site₁⟩ (.exchange 2) ⟨c₉, site₂⟩ := .exchange rfl rfl rfl hst₂ hlog₂
  have h₁₀ : A.step ⟨c₉, site₂⟩ (.respond 0 200) ⟨c₁₀, site₂⟩ := .respond rfl
  have h₁₁ : A.step ⟨c₁₀, site₂⟩ (.receive 2) ⟨c₁₁, site₂⟩ := .receive rfl
  have h₁₂ : A.step ⟨c₁₁, site₂⟩ (.respond 2 200) ⟨c₁₂, site₂⟩ := .respond rfl
  have htrace₆ := (((((LTS.Trace.refl.snoc h₁).snoc h₂).snoc h₃).snoc h₄).snoc h₅).snoc h₆
  have htrace := (((((htrace₆.snoc h₇).snoc h₈).snoc h₉).snoc h₁₀).snoc h₁₁).snoc h₁₂
  have hfin : c₁₂.Finished := by
    intro call hcall
    simp only [List.mem_cons, List.not_mem_nil, or_false,
      show c₁₂.calls = [⟨held, .returned⟩, ⟨held, .returned⟩, ⟨held', .returned⟩] from rfl] at hcall
    rcases hcall with rfl | rfl | rfl <;> exact .inl rfl
  have hfirst : Meets (fun _ => true) ⟨c₃, firstLogin⟩ (.exchange 0) := by
    rintro _ _ ⟨⟩ ⟨⟩
    exact live_first.not_exchanged
  have hsecond : Meets (fun _ => true) ⟨c₈, site₁⟩ (.exchange 2) := by
    rintro _ _ ⟨⟩ ⟨⟩
    exact hnew
  refine ⟨_, _, ⟨accessToken, "t2", tokenType⟩, htrace, rfl,
    ((parallel_requests injOn_threeTokens first_init htrace).2 hfin).2 ?_⟩
  simpa [Meets] using And.intro hfirst hsecond

/-- Two calls with the tokens of one render: both are unauthorized, while the refresh token that
they present is accepted; the first is given a new pair, and the second ends the session. -/
theorem parallel_logout : ∃ s₀ ls₁ s₁ ls₂ s,
    (session plain threeTokens fun _ => true).init s₀ ∧
    (session plain threeTokens fun _ => true).Run s₀ ls₁ s₁ ∧ (∀ l ∈ ls₁, ∃ t, l = .call t) ∧
    (∃ token, s₁.client.tokens.refreshToken = some token ∧
      Accepts s₁.site.tables s₁.site.now token) ∧
    (session plain threeTokens fun _ => true).Run s₁ ls₂ s ∧
    (∀ l ∈ ls₂, (∃ i status, l = .respond i status) ∨ (∃ i, l = .exchange i) ∨
      ∃ i, l = .receive i) ∧
    s.client.Finished ∧ 0 < s.client.logouts ∧ s.client.tokens.refreshToken = none := by
  obtain ⟨site₁, data, hst₁, hlog₁, -, hf⟩ := exists_exchange
  have ht : "t1" ∈ threeTokens := .inl rfl
  have hreach₁ := (firstLogin_reachable ht).tail hst₁
  have hexchanged : Exchanged site₁.log "t1" := by
    rw [hlog₁]
    exact exchanged_append.2 (.inr (Reply.redeems_iff.2 ⟨_, rfl⟩))
  obtain ⟨site₂, hst₂⟩ := Auth.exists_refresh (B := plain) ht hf
  obtain ⟨_, _, _, -, -, -, hlive, -⟩ | ⟨e, -, -, hlog₂⟩ :=
    (requests_tracked injOn_threeTokens hreach₁).refresh_cases injOn_threeTokens ht hst₂
  · exact absurd hexchanged hlive.not_exchanged
  · have htracked := requests_tracked injOn_threeTokens (firstLogin_reachable ht)
    let held := first.client.tokens
    let c₁ := (first.client.authenticatedFetch held).authenticatedFetch held
    have hrun₁ : (session plain threeTokens fun _ => true).Run first [.call held, .call held]
        ⟨c₁, firstLogin⟩ :=
      .cons (.call (List.mem_singleton_self _)) (.cons (.call (List.mem_singleton_self _)) .refl)
    have hrun₂ : ∃ c, (session plain threeTokens fun _ => true).Run ⟨c₁, firstLogin⟩
        [.respond 0 401, .respond 1 401, .exchange 0, .exchange 1, .receive 0, .respond 0 200,
          .receive 1] ⟨c, site₂⟩ ∧
        c.calls = [⟨held, .returned⟩, ⟨held, .threw⟩] ∧ c.logouts = 2 ∧
        c.tokens = ⟨none, none⟩ :=
      ⟨_, .cons (.respond rfl) (.cons (.respond rfl) (.cons (.exchange rfl rfl rfl hst₁ hlog₁)
        (.cons (.exchange rfl rfl rfl hst₂ hlog₂) (.cons (.receive rfl) (.cons (.respond rfl)
          (.cons (.receive rfl) .refl)))))), rfl, rfl, rfl⟩
    obtain ⟨c, hrun₂, hcalls, hlogouts, htokens⟩ := hrun₂
    refine ⟨first, _, _, _, _, first_init, hrun₁, by simp,
      ⟨"t1", rfl, (htracked.accepts_iff injOn_threeTokens ht).2 live_first⟩, hrun₂, by simp, ?_, ?_,
      congrArg Tokens.refreshToken htokens⟩
    · simp [Client.Finished, hcalls]
    · simp [hlogouts]

end Frontend

end FoodFlow
