import FoodFlow.Auth.Accounts
import FoodFlow.Order.Access
import FoodFlow.Order.Idempotency

/-!
# Access to orders

The auth service and the order service side by side, with one clock.  The order service never asks
the auth service who somebody is: it believes an access token, because only the auth service can
sign one.  So what it believes is that somebody has logged in, not who is asking now.

* `Site`, `system` : the two services; whoever asks may present any token whose claims, if its
  signature is right, have been issued (`Presentable`);
* `Site.Issued`, `issued_cases` : the tokens handed out, each of them valid for fifteen minutes, to
  a user whose password has been given;
* `Posts`, `Belongs` : every order comes from a request that presented a token of its user;
* `order_access` : **an order is shown just to those who present a token, not older than fifteen
  minutes, of the user who has placed it.**
-/

namespace FoodFlow

namespace Site

/-- The auth service, the order service and the time. -/
structure State where
  auth : Auth.State
  order : Order.State
  now : Time

/-- What can happen. -/
inductive Label where
  /-- Something happens at the auth service. -/
  | auth (l : World.Label Auth.db Auth.Draw Empty Auth.Reply)
  /-- `POST /orders` -/
  | post (authorization : Option String) (body : Order.CreateOrderRequest)
      (xPaymentSimulate idempotencyKey : Option String)
  /-- Something happens at the order service: a message is delivered, a process runs or is killed,
  the relay changes the mail. -/
  | order (l : Node.Label Order.db Fresh Empty Order.Reply)
  /-- Time passes. -/
  | tick (seconds : ℕ)

/-- The access token has been handed out. -/
def State.Issued (s : State) (c : Auth.AccessToken) : Prop :=
  ∃ reply a, some (.idle (.done reply)) ∈ s.auth.slots ∧ reply.granted = some a ∧
    a.accessToken = c

/-- Nobody but the auth service can sign a token. -/
def Presentable (J : Order.Jwt) (s : State) (authorization : Option String) : Prop :=
  ∀ token c, Order.bearer? authorization = some token → J.verify token = some c → s.Issued c

/-- What the auth service is run with until the time `now`: the ids it draws are UUIDs. -/
def setting (B : Auth.Bcrypt) (regs logins : Set Auth.Credentials) (now : Time) : Auth.Setting :=
  ⟨B, regs, logins, fun f => f.now ≤ now ∧ isUUID f.id⟩

/-- What may happen at the order service by itself. -/
def rules : Node.Rules Order.db Fresh Empty Order.Reply where
  start p := ∃ env, p = Order.handleMessage env
  env g := ∀ d, (g d).tables = d.tables

/-- When something may happen.  What has been answered is not taken back. -/
def guard (J : Order.Jwt) (B : Auth.Bcrypt) (regs logins : Set Auth.Credentials) (s : State) :
    Label → Prop
  | .auth l => (Auth.accountRules (setting B regs logins s.now)).guard s.auth l ∧
      ∀ i, l = .kill i → ∀ reply, s.auth.slots[i]? ≠ some (some (.idle (.done reply)))
  | .post authorization _ _ _ => Presentable J s authorization
  | .order l => rules.guard s.order l
  | .tick _ => True

/-- Performing a label.  A request that the dependency refuses changes nothing. -/
def act (J : Order.Jwt) (s : State) : Label → Option State
  | .auth l => (World.act s.auth l).map fun w => { s with auth := w }
  | .post authorization body sim key =>
    match Order.requestOf J authorization s.now body sim key with
    | .error _ => some s
    | .ok req => (Node.act s.order (.start (Order.createOrder req))).map fun n =>
        { s with order := n }
  | .order l => (Node.act s.order l).map fun n => { s with order := n }
  | .tick seconds => some { s with now := s.now + seconds }

/-- The two services, from empty tables. -/
def system (J : Order.Jwt) (B : Auth.Bcrypt) (regs logins : Set Auth.Credentials) :
    LTS State Label :=
  .ofAct (fun s => ∃ m now, s = ⟨.idle ⟨.empty, .empty⟩, .idle ⟨⟨.empty⟩, m⟩, now⟩)
    (guard J B regs logins) (act J)

variable {J : Order.Jwt} {B : Auth.Bcrypt} {regs logins : Set Auth.Credentials} {s s' : State}
  {l : Label} {ls : List Label} {c : Auth.AccessToken} {u : UUID}

/-- A request that the dependency lets through. -/
theorem act_post {authorization sim key : Option String} {body : Order.CreateOrderRequest}
    {req : Order.Request}
    (h : Order.requestOf J authorization s.now body sim key = .ok req) :
    act J s (.post authorization body sim key) =
      (Node.act s.order (.start (Order.createOrder req))).map fun n => { s with order := n } := by
  simp only [act, h]

/-! ### The auth service -/

/-- The service as it has run until `now`. -/
abbrev authUntil (B : Auth.Bcrypt) (regs logins : Set Auth.Credentials) (now : Time) :=
  Auth.accounts (setting B regs logins now)

/-- What has happened until now may have happened until later. -/
theorem authUntil_mono {now now' : Time} (h : now ≤ now') {w w' : Auth.State} {l}
    (hst : (authUntil B regs logins now).step w l w') :
    (authUntil B regs logins now').step w l w' := by
  refine ⟨?_, hst.2⟩
  have hg := hst.1
  cases l with
  | start p => exact hg
  | «begin» i f => exact ⟨Nat.le_trans hg.1 h, hg.2⟩
  | step i => exact hg
  | kill i => exact hg

/-- Every state of the site is one of a run of the auth service. -/
theorem auth_reachable (h : (system J B regs logins).Reachable s) :
    (authUntil B regs logins s.now).Reachable s.auth := by
  refine h.invariant (I := fun s => (authUntil B regs logins s.now).Reachable s.auth) ?_ ?_
  · rintro _ ⟨m, now, rfl⟩
    exact .init ⟨_, rfl, rfl⟩
  · rintro s l s' hr ⟨hg, ha⟩
    cases l with
    | auth l =>
      obtain ⟨w, hw, rfl⟩ := Option.map_eq_some_iff.1 ha
      exact hr.tail ⟨hg.1, hw⟩
    | post authorization body sim key =>
      simp only [act] at ha
      split at ha
      · obtain rfl := Option.some.inj ha
        exact hr
      · obtain ⟨n, -, rfl⟩ := Option.map_eq_some_iff.1 ha
        exact hr
    | order l =>
      obtain ⟨n, -, rfl⟩ := Option.map_eq_some_iff.1 ha
      exact hr
    | tick seconds =>
      obtain rfl := Option.some.inj ha
      obtain ⟨w₀, ls, h₀, hrun⟩ := hr
      exact ⟨w₀, ls, h₀, hrun.mono fun _ _ _ => authUntil_mono (Nat.le_add_right _ _)⟩

/-- The user whose token it is: the user is stored, and the password has been given. -/
def Owner (B : Auth.Bcrypt) (logins : Set Auth.Credentials) (t : Auth.Tables) (u : UUID) : Prop :=
  isUUID u ∧ ∃ user, t.users.get? u = some user ∧ ∃ body ∈ logins,
    Auth.Authenticates B t body user

/-- What is known of a token that has been handed out. -/
theorem issued_cases (h : (system J B regs logins).Reachable s) (hc : s.Issued c) :
    c.iat ≤ s.now ∧ c.exp = c.iat + 15 * 60 ∧ Owner B logins s.auth.db c.sub := by
  obtain ⟨hs, hslots⟩ := Auth.accounts_invariant (auth_reachable h)
  obtain ⟨reply, a, hm, hg, rfl⟩ := hc
  have hgood : Auth.Good (setting B regs logins s.now) s.auth.db (.done reply) := hslots _ hm
  cases hgood with
  | done _ htrue =>
    obtain ⟨u, email, ⟨user, hu, rfl, body, hb, hbe, hv⟩, f, hf, ha⟩ := htrue.granted a hg
    rw [ha]
    have hmem := Table.mem_of_get? hu
    have hid : user.id = u := Table.key_of_get? hu
    refine ⟨hf.1, rfl, ?_, user, hu, body, hb, hs.byEmail? hmem hbe, hv⟩
    -- the id was drawn by the registration
    obtain ⟨_, -, -, f', hf', hid', -⟩ := hs.registered user hmem
    show isUUID u
    rw [← hid, hid']
    exact hf'.2

/-- An answer stays, as nobody takes it back. -/
theorem mem_slots_step {w w' : Auth.State} {l} {reply : Auth.Reply} {E : Auth.Setting}
    (hst : (Auth.accounts E).step w l w')
    (hkill : ∀ i, l = .kill i → ∀ reply, w.slots[i]? ≠ some (some (.idle (.done reply))))
    (hm : some (.idle (.done reply)) ∈ w.slots) : some (.idle (.done reply)) ∈ w'.slots := by
  obtain ⟨j, hj⟩ := List.mem_iff_getElem?.1 hm
  have other : ∀ {i x y}, w.slots[i]? = some x → x ≠ some (.idle (.done reply)) →
      some (.idle (.done reply)) ∈ w.slots.set i y := by
    intro i x y hi hne
    refine List.mem_iff_getElem?.2 ⟨j, ?_⟩
    rw [List.getElem?_set_ne, hj]
    rintro rfl
    exact hne (Option.some.inj (hi.symm.trans hj))
  cases World.step_cases hst with
  | start _ => exact List.mem_append_left _ hm
  | «begin» _ hi => exact other hi (by simp)
  | @call i o k hi => exact o.elim
  | go hi _ _ _ => exact other hi (by simp)
  | commit hi _ => exact other hi (by simp)
  | abort hi _ => exact other hi (by simp)
  | @kill i _ =>
    cases hi : w.slots[i]? with
    | none => rwa [List.set_eq_of_length_le (List.getElem?_eq_none_iff.1 hi)]
    | some x =>
      refine other hi ?_
      rintro rfl
      exact hkill i rfl reply hi

/-! ### The order service -/

/-- The step is a `POST /orders` with the request, made with a token of its user that has been
handed out and is accepted at the time. -/
def Posts (J : Order.Jwt) (x : State × Label) (req : Order.Request) : Prop :=
  ∃ authorization token c,
    x.2 = .post authorization req.body req.xPaymentSimulate req.idempotencyKey ∧
    Order.bearer? authorization = some token ∧ J.verify token = some c ∧ x.1.Issued c ∧
    c.sub = req.user ∧ x.1.now < c.iat + 15 * 60

/-- One of the steps is a `POST /orders` with the request. -/
def Made (J : Order.Jwt) (tr : List (State × Label)) (req : Order.Request) : Prop :=
  ∃ x ∈ tr, Posts J x req

/-- Every order, and every request on its way, comes from a request that has been made. -/
def Belongs (made : Order.Request → Prop) (s : State) : Prop :=
  Order.Accounted made s.order.db ∧ ∀ p, some p ∈ s.order.procs → Order.Point made s.order.db p

theorem point_weaken {started started' : Order.Request → Prop} {d : Order.Db} {p : Order.Process}
    (h : ∀ req, started req → started' req) (hp : Order.Point started d p) :
    Order.Point started' d p := by
  cases hp with
  | create hs => exact .create (h _ hs)
  | place hs => exact .place (h _ hs)
  | handle env => exact .handle env
  | handled env res => exact .handled env res
  | failed req e => exact .failed req e
  | accepted ht =>
    exact .accepted (ht.imp_right fun ⟨hm, req', hs, hrest⟩ => ⟨hm, req', h _ hs, hrest⟩)

theorem Belongs.weaken {made made' : Order.Request → Prop} (h : Belongs made s)
    (hmade : ∀ req, made req → made' req) (hdb : s'.order.db = s.order.db)
    (hprocs : s'.order.procs = s.order.procs) : Belongs made' s' := by
  refine ⟨fun r hr => ?_, fun p hp => ?_⟩
  · obtain ⟨req, hreq, hd⟩ := h.1 r (hdb ▸ hr)
    exact ⟨req, hmade req hreq, hd⟩
  · rw [hdb]
    exact point_weaken hmade (h.2 p (hprocs ▸ hp))

/-- A step of the order service by itself. -/
theorem Belongs.order {made : Order.Request → Prop} {n : Order.State}
    {l : Node.Label Order.db Fresh Empty Order.Reply} (I₀ : Order.Db → Prop) (h : Belongs made s)
    (hst : (Node.lts rules I₀).step s.order l n) : Belongs made { s with order := n } := by
  refine Node.step_rule (P := rules) (Order.Accounted made) (Order.Point made) h.1
    ?_ ?_ ?_ ?_ ?_ h.2 hst
  · rintro p ⟨env, rfl⟩
    exact .handle env
  · exact fun o => o.elim
  · intro f t e p d' _ hp hrun
    obtain ⟨hI, hp', hk⟩ := Order.commit_point h.1 hp hrun
    exact ⟨hI, hp', fun _ hp => hp.mono hk⟩
  · exact fun f t e x _ hp _ => Order.abort_point hp x
  · -- the relay leaves the orders alone
    intro g hg
    have htables := hg s.order.db
    refine ⟨fun r hr => h.1 r (htables ▸ hr), fun p hp => hp.mono fun o r hr => ?_⟩
    exact ⟨r, by rw [htables]; exact hr, rfl, rfl, rfl, rfl⟩

/-- A token that has been handed out stays so. -/
theorem issued_step (hst : (system J B regs logins).step s l s') (hc : s.Issued c) :
    s'.Issued c := by
  obtain ⟨hg, ha⟩ := hst
  cases l with
  | auth l =>
    obtain ⟨w, hw, rfl⟩ := Option.map_eq_some_iff.1 ha
    obtain ⟨reply, a, hm, hgranted, rfl⟩ := hc
    have hst : (authUntil B regs logins s.now).step s.auth l w := ⟨hg.1, hw⟩
    exact ⟨reply, a, mem_slots_step hst hg.2 hm, hgranted, rfl⟩
  | post authorization body sim key =>
    simp only [act] at ha
    split at ha
    · obtain rfl := Option.some.inj ha
      exact hc
    · obtain ⟨n, -, rfl⟩ := Option.map_eq_some_iff.1 ha
      exact hc
  | order l =>
    obtain ⟨n, -, rfl⟩ := Option.map_eq_some_iff.1 ha
    exact hc
  | tick seconds =>
    obtain rfl := Option.some.inj ha
    exact hc

/-- So does one that had been handed out when an earlier step was taken. -/
theorem issued_of_mem {s₀ : State} {tr : List (State × Label)}
    (h : (system J B regs logins).Trace s₀ tr s) {x : State × Label} (hx : x ∈ tr)
    (hc : x.1.Issued c) : s.Issued c := by
  induction h with
  | refl => cases hx
  | snoc _ hst ih =>
    rcases List.mem_append.1 hx with hx | hx
    · exact issued_step hst (ih hx)
    · obtain rfl := List.mem_singleton.1 hx
      exact issued_step hst hc

/-- A step adds at most the request that it is. -/
theorem Belongs.step {tr : List (State × Label)} (hs : (system J B regs logins).Reachable s)
    (h : Belongs (Made J tr) s) (hst : (system J B regs logins).step s l s') :
    Belongs (Made J (tr ++ [(s, l)])) s' := by
  have hmade : ∀ req, Made J tr req → Made J (tr ++ [(s, l)]) req := fun req ⟨x, hx, hposts⟩ =>
    ⟨x, List.mem_append_left _ hx, hposts⟩
  obtain ⟨hg, ha⟩ := hst
  cases l with
  | auth l =>
    obtain ⟨w, -, rfl⟩ := Option.map_eq_some_iff.1 ha
    exact h.weaken hmade rfl rfl
  | post authorization body sim key =>
    simp only [act] at ha
    split at ha
    · obtain rfl := Option.some.inj ha
      exact h.weaken hmade rfl rfl
    · -- the token has been issued, and names the user of the request
      rename_i req hreq
      obtain ⟨c, u, ⟨token, htoken, hverify, -, hexp⟩, hu, rfl⟩ := Order.requestOf_eq_ok.1 hreq
      have hc : s.Issued c := hg token c htoken hverify
      obtain ⟨-, hfor, huuid, -⟩ := issued_cases hs hc
      obtain rfl : c.sub = u := Option.some.inj ((uuidOf?_uuidStr huuid).symm.trans hu)
      obtain ⟨n, hn, rfl⟩ := Option.map_eq_some_iff.1 ha
      obtain rfl := Option.some.inj hn
      have hnew : Made J (tr ++ [(s, .post authorization body sim key)]) ⟨c.sub, body, sim, key⟩ :=
        ⟨_, List.mem_append_right _ (List.mem_singleton_self _), authorization, token, c, rfl,
          htoken, hverify, hc, rfl, hfor ▸ hexp⟩
      have hweak : Belongs (Made J _) s := h.weaken hmade rfl rfl
      obtain ⟨haccounted, hpoint⟩ := hweak
      refine ⟨haccounted, fun p hp => ?_⟩
      rcases List.mem_append.1 hp with hp | hp
      · exact hpoint p hp
      · obtain rfl := Option.some.inj (List.mem_singleton.1 hp)
        exact .create hnew
  | order l =>
    obtain ⟨n, hn, rfl⟩ := Option.map_eq_some_iff.1 ha
    exact (h.order (fun _ => True) ⟨hg, hn⟩).weaken hmade rfl rfl
  | tick seconds =>
    obtain rfl := Option.some.inj ha
    exact h.weaken hmade rfl rfl

/-- Every order comes from one of the requests of the run. -/
theorem belongs {s₀ : State} {tr : List (State × Label)} (h₀ : (system J B regs logins).init s₀)
    (h : (system J B regs logins).Trace s₀ tr s) : Belongs (Made J tr) s := by
  refine h.invariant (I := fun tr s => Belongs (Made J tr) s) ?_ ?_
  · obtain ⟨m, now, rfl⟩ := h₀
    refine ⟨fun r hr => ?_, fun p hp => ?_⟩
    · cases hr
    · cases hp
  · intro tr s₁ l s₂ hr hI hst
    exact hI.step ⟨s₀, _, h₀, hr⟩ hst

/-- **Who may see an order.**  Somebody presents a header, of which nothing is asked but that nobody
can sign a token except the auth service, and the order is read at any time later.  The order is
shown just when the token has been handed out less than fifteen minutes ago, and the order is that
of its user; then the user is registered, and the password has been given in a login.  Every order,
shown or not, has the contents of a `POST /orders` of the run that presented a token of its user
which had been handed out less than fifteen minutes before, and is shown to whoever bears such a
token in time. -/
theorem order_access (hs : (system J B regs logins).Reachable s)
    {authorization : Option String} (hp : Presentable J s authorization)
    (hr : (system J B regs logins).Run s ls s') (o : UUID) :
    (∀ response, Order.getOrder J authorization s.now o s'.order.db.tables = .ok response ↔
      ∃ token c row, Order.bearer? authorization = some token ∧ J.verify token = some c ∧
        s.Issued c ∧ s.now < c.iat + 15 * 60 ∧ s'.order.db.tables.orders.get? o = some row ∧
        row.userId = c.sub ∧ response = Order.orderResponse row) ∧
    (∀ c, s.Issued c → Owner B logins s.auth.db c.sub) ∧
    ∀ row ∈ s'.order.db.tables.orders.rows, (∃ c, s'.Issued c ∧ c.sub = row.userId) ∧
      (∀ s₀ tr, (system J B regs logins).init s₀ → (system J B regs logins).Trace s₀ tr s' →
        ∃ x ∈ tr, ∃ req, Posts J x req ∧ Order.Describes req row) ∧
      ∀ c, s.Issued c → c.sub = row.userId → s.now < c.iat + 15 * 60 →
        Order.getOrder J (some ("Bearer " ++ J.encode c)) s.now row.id s'.order.db.tables =
          .ok (Order.orderResponse row) := by
  have hs' := hs.trans hr
  have hplaced : ∀ row ∈ s'.order.db.tables.orders.rows, ∀ s₀ tr,
      (system J B regs logins).init s₀ → (system J B regs logins).Trace s₀ tr s' →
        ∃ x ∈ tr, ∃ req, Posts J x req ∧ Order.Describes req row := by
    intro row hrow s₀ tr h₀ htr
    obtain ⟨req, ⟨x, hx, hposts⟩, hd⟩ := (belongs h₀ htr).1 row hrow
    exact ⟨x, hx, req, hposts, hd⟩
  have howned : ∀ row ∈ s'.order.db.tables.orders.rows, ∃ c, s'.Issued c ∧ c.sub = row.userId := by
    intro row hrow
    obtain ⟨s₀, ls₀, h₀, hr₀⟩ := hs'
    obtain ⟨tr, htr, -⟩ := hr₀.trace
    obtain ⟨x, hx, req, ⟨_, _, c, -, -, -, hc, hu, -⟩, hd⟩ := hplaced row hrow s₀ tr h₀ htr
    exact ⟨c, issued_of_mem htr hx hc, hu.trans hd.user.symm⟩
  refine ⟨fun response => ?_, fun c hc => (issued_cases hs hc).2.2,
    fun row hrow => ⟨howned row hrow, hplaced row hrow, fun c hc hu hexp => ?_⟩⟩
  · rw [Order.getOrder_eq_ok]
    constructor
    · rintro ⟨c, row, ⟨token, htoken, hverify, -, hexp⟩, hrow, heq, rfl⟩
      have hc := hp token c htoken hverify
      obtain ⟨-, hfor, howner⟩ := issued_cases hs hc
      -- both ids are UUIDs, so that the texts tell them apart
      obtain ⟨c', hc', hu⟩ := howned row (Table.mem_of_get? hrow)
      have huuid : isUUID row.userId := hu ▸ (issued_cases hs' hc').2.2.1
      exact ⟨token, c, row, htoken, hverify, hc, hfor ▸ hexp, hrow,
        (uuidStr_inj huuid howner.1).1 heq, rfl⟩
    · rintro ⟨token, c, row, htoken, hverify, hc, hexp, hrow, hu, rfl⟩
      obtain ⟨hiat, hfor, -⟩ := issued_cases hs hc
      exact ⟨c, row, ⟨token, htoken, hverify, hiat, hfor.symm ▸ hexp⟩, hrow, congrArg uuidStr hu,
        rfl⟩
  · obtain ⟨hiat, hfor, -⟩ := issued_cases hs hc
    exact Order.getOrder_eq_ok.2 ⟨c, row, ⟨_, Order.bearer?_bearer _, J.verify_encode c, hiat,
      hfor.symm ▸ hexp⟩, Table.get?_of_mem hrow, congrArg uuidStr hu.symm, rfl⟩

/-- A user registers, logs in, places an order a minute later and looks at it. -/
theorem order_access_owner :
    let mine : Auth.Credentials := ⟨"a@b.c", "pw"⟩
    let B : Auth.Bcrypt := ⟨fun salt password => salt ++ password, fun password hash =>
      hash = "$" ++ password⟩
    let s₀ : State := ⟨.idle ⟨.empty, .empty⟩, .idle ⟨⟨.empty⟩, .empty⟩, 0⟩
    let signedIn : List Label := [.auth (.start (Auth.register B mine)),
      .auth (.begin 0 { id := 0 }), .auth (.step 0), .auth (.step 0),
      .auth (.begin 0 { id := 1, salt := "$" }), .auth (.step 0), .auth (.step 0),
      .auth (.start (Auth.login B mine)), .auth (.begin 1 { id := 0 }), .auth (.step 1),
      .auth (.step 1), .auth (.begin 1 { id := 10, token := "t1" }), .auth (.step 1),
      .auth (.step 1), .tick 60]
    let header := some ("Bearer " ++ Order.plainJwt.encode (Auth.createAccessToken 1 "a@b.c" 0))
    let body : Order.CreateOrderRequest := ⟨5, [⟨6, 2, 10⟩]⟩
    ∃ s s' row, (system Order.plainJwt B {mine} {mine}).Run s₀ signedIn s ∧
      (system Order.plainJwt B {mine} {mine}).Run s
        [.post header body none none, .order (.run 0 ⟨70, 1, 2, 60⟩)] s' ∧
      Order.getOrder Order.plainJwt header s.now 70 s'.order.db.tables =
        .ok (Order.orderResponse row) ∧ row.userId = 1 ∧
      ∃ tr, (system Order.plainJwt B {mine} {mine}).Trace s₀ tr s' ∧
        ∃ x ∈ tr, ∃ req, Posts Order.plainJwt x req ∧ Order.Describes req row := by
  intro mine B s₀ signedIn header body
  let c := Auth.createAccessToken 1 "a@b.c" 0
  let req : Order.Request := ⟨1, body, none, none⟩
  have hrun : ((LTS.runAct (act Order.plainJwt) s₀ signedIn).bind fun s =>
      (LTS.runAct Node.act s.order [.start (Order.createOrder req), .run 0 ⟨70, 1, 2, 60⟩]).map
        fun n => (s.now, s.auth.slots.map fun x => ((Slot.reply? x).bind Auth.Reply.granted).map
          Auth.AuthResponse.accessToken, n.db.tables.orders.rows)) =
      some (60, [none, some c],
        [⟨70, 1, 5, [⟨6, 2, 10⟩], 2000, .pending, none, none, 60, 60⟩]) := by
    decide +kernel
  obtain ⟨s, hs, hrest⟩ := Option.bind_eq_some_iff.1 hrun
  obtain ⟨n, hn, hobs⟩ := Option.map_eq_some_iff.1 hrest
  simp only [Prod.mk.injEq] at hobs
  obtain ⟨hnow, hslots, hrows⟩ := hobs
  -- the user signs in
  have hr : (system Order.plainJwt B {mine} {mine}).Run s₀ signedIn s := by
    refine LTS.run_of_runAct (fun w l hl => ?_) hs
    simp only [signedIn, List.mem_cons, List.not_mem_nil, or_false] at hl
    rcases hl with rfl | rfl | rfl | rfl | rfl | rfl | rfl | rfl | rfl | rfl | rfl | rfl | rfl |
      rfl | rfl
    all_goals first
      | trivial
      | exact ⟨.inl ⟨mine, rfl, by decide, rfl⟩, fun i h => by cases h⟩
      | exact ⟨.inr (.inl ⟨mine, rfl, rfl⟩), fun i h => by cases h⟩
      | exact ⟨⟨Nat.zero_le _, by decide⟩, fun i h => by cases h⟩
      | exact ⟨fun _ _ _ => trivial, fun i h => by cases h⟩
  have hreach : (system Order.plainJwt B {mine} {mine}).Reachable s := ⟨s₀, _, ⟨_, _, rfl⟩, hr⟩
  have hc : s.Issued c := by
    have hmem : some c ∈ [none, some c] := by simp
    rw [← hslots] at hmem
    obtain ⟨x, hx, hgranted⟩ := List.mem_map.1 hmem
    obtain ⟨a, ha, hac⟩ := Option.map_eq_some_iff.1 hgranted
    obtain ⟨reply, hreply, hra⟩ := Option.bind_eq_some_iff.1 ha
    exact ⟨reply, a, Slot.reply?_eq_some.1 hreply ▸ hx, hra, hac⟩
  have hp : Presentable Order.plainJwt s header := by
    intro token c' htoken hverify
    obtain rfl := Option.some.inj ((Order.bearer?_bearer _).symm.trans htoken)
    exact Option.some.inj ((Order.plainJwt.verify_encode c).symm.trans hverify) ▸ hc
  -- and places the order
  have hr' : (system Order.plainJwt B {mine} {mine}).Run s
      [.post header body none none, .order (.run 0 ⟨70, 1, 2, 60⟩)] { s with order := n } := by
    have hreq : Order.requestOf Order.plainJwt header s.now body none none = .ok req := by
      refine Order.requestOf_eq_ok.2 ⟨c, 1, ⟨_, Order.bearer?_bearer _,
        Order.plainJwt.verify_encode c, Nat.zero_le _, ?_⟩, uuidOf?_uuidStr (by decide), rfl⟩
      rw [hnow]
      decide
    obtain ⟨n₁, h₁, hrest⟩ := Option.bind_eq_some_iff.1 hn
    obtain ⟨n₂, h₂, hrest⟩ := Option.bind_eq_some_iff.1 hrest
    obtain rfl := Option.some.inj hrest
    exact .cons ⟨hp, (act_post hreq).trans (congrArg (Option.map _) h₁)⟩
      (.single ⟨trivial, congrArg (Option.map _) h₂⟩)
  obtain ⟨-, -, hshown⟩ := order_access hreach hp hr' 70
  let row : Order.OrderRow := ⟨70, 1, 5, [⟨6, 2, 10⟩], 2000, .pending, none, none, 60, 60⟩
  have hrow : row ∈ n.db.tables.orders.rows := by
    rw [hrows]
    exact List.mem_singleton_self _
  have hlt : s.now < c.iat + 15 * 60 := by
    rw [hnow]
    decide
  obtain ⟨-, hplaced, hget⟩ := hshown row hrow
  obtain ⟨tr, htr, -⟩ := (hr.trans hr').trace
  exact ⟨s, _, _, hr, hr', hget c hc rfl hlt, rfl, tr, htr, hplaced _ _ ⟨_, _, rfl⟩ htr⟩

end Site

end FoodFlow
