import FoodFlow.Auth.Routes
import FoodFlow.LTS.Basic

/-!
# Rotation of refresh tokens

Registrations, logins and refreshes with their transactions interleaved statement by statement.

* `Point` : where an open transaction of the service can be, and what it knows there about the
  tables;
* `refresh_single_use` : **a refresh token is redeemed at most once, and a user has at most as many
  tokens as logins, as long as every rotation finds the row it has selected when it deletes it**;
* `refresh_twice` : two refreshes that select the row before either has deleted it both succeed.
-/

namespace FoodFlow

namespace Auth

/-- The row that a refresh has selected is stored. -/
def Selected (t : Tables) (token : String) (row : Presented) : Prop :=
  ∃ r, t.refreshTokens.get? row.id = some r ∧ r.tokenHash = hashRefreshToken token ∧
    r.userId = row.userId

/-- A rotation that is about to delete the row it has selected finds it. -/
def Finds (t : Tables) (c : Session db Process) : Prop :=
  ∀ token row f, c.prog = rotate token row f → Selected t token row

/-- The row that a login or a refresh inserts. -/
def newToken (userId : UUID) (f : Draw) : RefreshToken :=
  ⟨f.id, userId, hashRefreshToken f.token, f.now + refreshTokenExpire⟩

/-! ### The processes -/

/-- What a process can be between two transactions. -/
inductive Known : Process → Prop
  | register (B : Bcrypt) (body : Credentials) : Known (register B body)
  | insertUser (B : Bcrypt) (body : Credentials) :
      Known (.txn (insertUserTx B body) (registerError body))
  | login (B : Bcrypt) (body : Credentials) : Known (login B body)
  | issue (body : Credentials) (u : UUID) (email : String) :
      Known (.txn (issueTx body u email) (loginError body))
  | refresh (token : String) : Known (refresh token)
  | done (r : Reply) : Known (.done r)

/-- Whether a login of the user `u` has succeeded. -/
def Reply.loginOf (u : UUID) : Reply → Bool
  | .login _ (.ok a) => a.accessToken.sub = u
  | _ => false

/-- Whether the token has been redeemed. -/
def Reply.redeems (token : String) : Reply → Bool
  | .refresh token' (.ok _) => token' = token
  | _ => false

/-- A process that has not succeeded in a login or a refresh. -/
def Unsuccessful (p : Process) : Prop :=
  ∀ r, p = .done r → (∀ u, r.loginOf u = false) ∧ ∀ token, r.redeems token = false

/-- What handles the exceptions of a transaction. -/
def Handler (e : Err → Process) : Prop := ∀ x, (∃ r, e x = .done r) ∧ Unsuccessful (e x)

theorem handler_registerError (body : Credentials) : Handler (registerError body) := by
  intro x
  refine ⟨⟨_, rfl⟩, ?_⟩
  rintro r ⟨⟩
  exact ⟨fun _ => rfl, fun _ => rfl⟩

theorem handler_loginError (body : Credentials) : Handler (loginError body) := by
  intro x
  refine ⟨⟨_, rfl⟩, ?_⟩
  rintro r ⟨⟩
  exact ⟨fun _ => rfl, fun _ => rfl⟩

theorem handler_refreshError (token : String) : Handler (refreshError token) := by
  intro x
  refine ⟨⟨_, rfl⟩, ?_⟩
  rintro r ⟨⟩
  exact ⟨fun _ => rfl, fun _ => rfl⟩

theorem unsuccessful_txn {t : Draw → Tx db Process} {e : Err → Process} :
    Unsuccessful (.txn t e) := by
  rintro r ⟨⟩

/-- What a transaction can have to do before its first write. -/
inductive Early (N : String → Prop) : Tx db Process → Prop
  | findUser (B : Bcrypt) (body : Credentials) (f : Draw) : Early N (findUserTx B body f)
  | insertUser (B : Bcrypt) (body : Credentials) (f : Draw) : Early N (insertUserTx B body f)
  | credentials (B : Bcrypt) (body : Credentials) (f : Draw) : Early N (credentialsTx B body f)
  | issue (body : Credentials) (u : UUID) (email : String) (f : Draw) :
      N (hashRefreshToken f.token) → Early N (issueTx body u email f)
  | refresh (token : String) (f : Draw) :
      N (hashRefreshToken f.token) → Early N (refreshTx token f)
  | rotate (token : String) (row : Presented) (f : Draw) :
      N (hashRefreshToken f.token) → Early N (rotate token row f)
  | expire (row : Presented) : Early N (expire row)
  | finished (p : Process) : Known p → Unsuccessful p → Early N (.pure p)

/-- Where an open transaction can be, when all new tokens have hashes satisfying `N`. -/
inductive Point (N : String → Prop) (t : Tables) (c : Session db Process) : Prop
  /-- It has written nothing. -/
  | early : c.writes = [] → Early N c.prog → Point N t c
  /-- It will be rolled back. -/
  | doomed (x : Err) : c.prog = .throw x → Point N t c
  /-- A user has been inserted. -/
  | registered (r : UserRow) (p : Process) : c.prog = .pure p → Known p → Unsuccessful p →
      c.writes = [.addUser r] → Point N t c
  /-- A login has inserted its token. -/
  | issued (body : Credentials) (u : UUID) (email : String) (f : Draw) :
      c.prog = .pure (loggedIn body u email f) → c.writes = [.addToken (newToken u f)] →
      .token f.id ∈ c.held → t.refreshTokens.get? f.id = none → N (hashRefreshToken f.token) →
      Point N t c
  /-- A refresh has deleted the old token. -/
  | deleted (token : String) (row : Presented) (f : Draw) : c.prog = reissue token row f →
      c.writes = [.delToken row.id] → .token row.id ∈ c.held → Selected t token row →
      N (hashRefreshToken f.token) → Point N t c
  /-- A refresh has inserted the new token. -/
  | rotated (token : String) (row : Presented) (f : Draw) :
      c.prog = .pure (refreshed token row f) →
      c.writes = [.delToken row.id, .addToken (newToken row.userId f)] →
      .token row.id ∈ c.held → .token f.id ∈ c.held → Selected t token row →
      (t.refreshTokens.erase row.id).get? f.id = none → N (hashRefreshToken f.token) → Point N t c

variable {N : String → Prop} {t t' : Tables} {c c' : Session db Process} {p : Process}

/-- An insertion into `refresh_tokens` that is not refused. -/
theorem exec_insertRefreshToken {u : UUID} {token : String} {expiresAt : Time} {id : UUID}
    {r : Unit} {ws : List Write}
    (h : exec (.insertRefreshToken u (hashRefreshToken token) expiresAt id) t = .ok (r, ws)) :
    t.refreshTokens.get? id = none ∧
      ws = [.addToken ⟨id, u, hashRefreshToken token, expiresAt⟩] := by
  simp only [exec, varchar_hashRefreshToken] at h
  split_ifs at h with h₁ h₂
  cases h
  exact ⟨by simpa using h₁, rfl⟩

/-- A user that has been authenticated gets a token in a further transaction. -/
theorem known_authenticate (B : Bcrypt) (body : Credentials) (row : Option UserRow) :
    Known (authenticate B body row) ∧ Unsuccessful (authenticate B body row) := by
  have failed := (handler_loginError body (.http 401 "Invalid email or password")).2
  cases row with
  | none => exact ⟨.done _, failed⟩
  | some row =>
    simp only [authenticate]
    split_ifs
    · exact ⟨.issue _ _ _, unsuccessful_txn⟩
    · exact ⟨.done _, failed⟩

/-- A step of a transaction that has written nothing. -/
theorem Early.go (hw : c.writes = []) (hp : Early N c.prog) (hfinds : Finds t c)
    (hn : c.next t = .go c') : Point N t c' := by
  have hview : c.view t = t := by rw [Session.view, hw, Dbms.applyAll_nil]
  generalize hprog : c.prog = prog at hp
  cases hp with
  | findUser B body f =>
    obtain ⟨existing, ws, hx, hp', hw', -⟩ := Session.go_of_stmt hprog hn
    cases hx
    refine .early (by rw [hw', hw]; rfl) ?_
    rw [hp']
    cases (c.view t).byEmail? body.email with
    | none => exact .finished _ (.insertUser B body) unsuccessful_txn
    | some r => exact .finished _ (.done _) (handler_registerError body _).2
  | insertUser B body f =>
    obtain ⟨row, ws, hx, hp', hw', -⟩ := Session.go_of_stmt hprog hn
    simp only [exec] at hx
    split at hx
    · cases hx
    · cases hx
    · split_ifs at hx
      cases hx
      refine .registered _ _ hp' (.done _) ?_ (by rw [hw', hw]; rfl)
      rintro r ⟨⟩
      exact ⟨fun _ => rfl, fun _ => rfl⟩
  | credentials B body f =>
    obtain ⟨row, ws, hx, hp', hw', -⟩ := Session.go_of_stmt hprog hn
    cases hx
    refine .early (by rw [hw', hw]; rfl) ?_
    rw [hp']
    obtain ⟨hknown, hun⟩ := known_authenticate B body ((c.view t).byEmail? body.email)
    exact .finished _ hknown hun
  | issue body u email f hN =>
    obtain ⟨r, ws, hx, hp', hw', hh⟩ := Session.go_of_stmt hprog hn
    obtain ⟨hfree, rfl⟩ := exec_insertRefreshToken hx
    rw [hview] at hfree
    refine .issued body u email f hp' (by rw [hw', hw]; rfl) ?_ hfree hN
    rw [hh]
    exact List.mem_append_right _ (List.mem_singleton_self _)
  | refresh token f hN =>
    obtain ⟨row, ws, hx, hp', hw', -⟩ := Session.go_of_stmt hprog hn
    cases hx
    have hempty : c'.writes = [] := by rw [hw', hw]; rfl
    generalize ((c.view t).presented (hashRefreshToken token))[f.pick % _]? = row at hp'
    cases row with
    | none => exact .doomed _ hp'
    | some row =>
      have hredeem : c'.prog = if row.expiresAt < f.now then Auth.expire row
          else Auth.rotate token row f := hp'
      split_ifs at hredeem
      · exact .early hempty (hredeem ▸ .expire row)
      · exact .early hempty (hredeem ▸ .rotate token row f hN)
  | rotate token row f hN =>
    -- the `DELETE` finds the row, and locks it
    have hsel := hfinds token row f hprog
    obtain ⟨r, hr, -⟩ := id hsel
    obtain ⟨u, ws, hx, hp', hw', hh⟩ := Session.go_of_stmt hprog hn
    have hsome : (t.refreshTokens.get? row.id).isSome = true := by rw [hr]; rfl
    simp only [exec, hview, hsome, if_true] at hx
    cases hx
    refine .deleted token row f hp' (by rw [hw', hw]; rfl) ?_ hsel hN
    rw [hh, hview]
    refine List.mem_append_right _ ?_
    simp only [needs, hsome, if_true]
    exact List.mem_singleton_self _
  | expire row =>
    obtain ⟨u, ws, hx, hp', hw', hh⟩ := Session.go_of_stmt hprog hn
    exact .doomed _ hp'
  | finished p _ _ =>
    rw [Session.commit_of_pure hprog] at hn
    cases hn

/-- A step of a transaction. -/
theorem Point.go (h : Point N t c) (hfinds : Finds t c) (hn : c.next t = .go c') :
    Point N t c' := by
  cases h with
  | early hw hp => exact hp.go hw hfinds hn
  | doomed x hx =>
    rw [Session.abort_of_throw hx] at hn
    cases hn
  | registered r p hp _ _ _ =>
    rw [Session.commit_of_pure hp] at hn
    cases hn
  | issued body u email f hp _ _ _ _ =>
    rw [Session.commit_of_pure hp] at hn
    cases hn
  | rotated token row f hp _ _ _ _ _ _ =>
    rw [Session.commit_of_pure hp] at hn
    cases hn
  | deleted token row f hp hw hlock hsel hN =>
    -- the `INSERT` sees the table without the row that has been deleted
    obtain ⟨r, ws, hx, hp', hw', hh⟩ := Session.go_of_stmt hp hn
    obtain ⟨hfree, rfl⟩ := exec_insertRefreshToken hx
    refine .rotated token row f hp' (by rw [hw', hw]; rfl) ?_ ?_ hsel ?_ hN
    · rw [hh]
      exact List.mem_append_left _ hlock
    · rw [hh]
      exact List.mem_append_right _ (List.mem_singleton_self _)
    · rw [Session.view, hw] at hfree
      exact hfree

/-- What a commit does to `refresh_tokens`, and what the process has become. -/
inductive Commit (N : String → Prop) (t t' : Tables) (p : Process) : Prop
  | none : t'.refreshTokens = t.refreshTokens → Unsuccessful p → Commit N t t' p
  | login (body : Credentials) (u : UUID) (email : String) (f : Draw) :
      p = loggedIn body u email f → t.refreshTokens.get? f.id = none →
      t'.refreshTokens = t.refreshTokens.insert (newToken u f) → N (hashRefreshToken f.token) →
      Commit N t t' p
  | refresh (token : String) (row : Presented) (f : Draw) :
      p = refreshed token row f → Selected t token row →
      (t.refreshTokens.erase row.id).get? f.id = Option.none →
      t'.refreshTokens = (t.refreshTokens.erase row.id).insert (newToken row.userId f) →
      N (hashRefreshToken f.token) → Commit N t t' p

/-- What a transaction does when it commits; it owns the tokens that it touches. -/
theorem Point.commit (h : Point N t c) (hn : c.next t = .commit p) :
    Known p ∧ Commit N t (c.view t) p ∧ ∀ id, .token id ∉ c.held →
      (c.view t).refreshTokens.get? id = t.refreshTokens.get? id := by
  -- only a program that has returned commits
  have pure_inj : ∀ {p'}, c.prog = .pure p' → p' = p := by
    intro p' hp
    rw [Session.commit_of_pure hp] at hn
    exact Session.Next.commit.inj hn
  cases h with
  | early hw hp =>
    have hview : c.view t = t := by rw [Session.view, hw, Dbms.applyAll_nil]
    generalize hprog : c.prog = prog at hp
    cases hp with
    | finished p' hknown hun =>
      obtain rfl := pure_inj hprog
      exact ⟨hknown, .none (by rw [hview]) hun, fun id _ => by rw [hview]⟩
    | findUser B body f => exact absurd hn (Session.not_commit_of_stmt hprog)
    | insertUser B body f => exact absurd hn (Session.not_commit_of_stmt hprog)
    | credentials B body f => exact absurd hn (Session.not_commit_of_stmt hprog)
    | issue body u email f _ => exact absurd hn (Session.not_commit_of_stmt hprog)
    | refresh token f _ => exact absurd hn (Session.not_commit_of_stmt hprog)
    | rotate token row f _ => exact absurd hn (Session.not_commit_of_stmt hprog)
    | expire row => exact absurd hn (Session.not_commit_of_stmt hprog)
  | doomed x hx =>
    rw [Session.abort_of_throw hx] at hn
    cases hn
  | deleted token row f hp _ _ _ _ => exact absurd hn (Session.not_commit_of_stmt hp)
  | registered r p' hp hknown hun hw =>
    obtain rfl := pure_inj hp
    have hview : (c.view t).refreshTokens = t.refreshTokens := by rw [Session.view, hw]; rfl
    exact ⟨hknown, .none hview hun, fun id _ => by rw [hview]⟩
  | issued body u email f hp hw hlock hfree hN =>
    obtain rfl := pure_inj hp
    have hview : (c.view t).refreshTokens = t.refreshTokens.insert (newToken u f) := by
      rw [Session.view, hw]
      rfl
    refine ⟨.done _, .login body u email f rfl hfree hview hN, fun id hid => ?_⟩
    have hne : f.id ≠ id := by rintro rfl; exact hid hlock
    rw [hview, Table.get?_insert (r := newToken u f) hfree, if_neg (by exact hne)]
  | rotated token row f hp hw hold hnew hsel hfree hN =>
    obtain rfl := pure_inj hp
    have hview : (c.view t).refreshTokens =
        (t.refreshTokens.erase row.id).insert (newToken row.userId f) := by
      rw [Session.view, hw]
      rfl
    refine ⟨.done _, .refresh token row f rfl hsel hfree hview hN, fun id hid => ?_⟩
    have hne : f.id ≠ id := by rintro rfl; exact hid hnew
    have hne' : row.id ≠ id := by rintro rfl; exact hid hold
    rw [hview, Table.get?_insert (r := newToken row.userId f) hfree, if_neg (by exact hne),
      Table.get?_erase, if_neg hne']

theorem Selected.congr {token : String} {row : Presented} (h : Selected t token row)
    (hrow : t'.refreshTokens.get? row.id = t.refreshTokens.get? row.id) :
    Selected t' token row := by
  obtain ⟨r, hr, h⟩ := h
  exact ⟨r, hrow.trans hr, h⟩

/-- A transaction goes on as before when the tokens it owns are as before. -/
theorem Point.keep (h : Point N t c)
    (hkeep : ∀ id, .token id ∈ c.held → t'.refreshTokens.get? id = t.refreshTokens.get? id) :
    Point N t' c := by
  cases h with
  | early hw hp => exact .early hw hp
  | doomed x hx => exact .doomed x hx
  | registered r p hp hknown hun hw => exact .registered r p hp hknown hun hw
  | issued body u email f hp hw hlock hfree hN =>
    exact .issued body u email f hp hw hlock ((hkeep _ hlock).trans hfree) hN
  | deleted token row f hp hw hlock hsel hN =>
    exact .deleted token row f hp hw hlock (hsel.congr (hkeep _ hlock)) hN
  | rotated token row f hp hw hold hnew hsel hfree hN =>
    refine .rotated token row f hp hw hold hnew (hsel.congr (hkeep _ hold)) ?_ hN
    rw [Table.get?_erase] at hfree ⊢
    rw [hkeep _ hnew]
    exact hfree

/-! ### The service -/

/-- The states of the service. -/
abbrev State := World db Draw Empty Reply

/-- Registrations, logins and refreshes with new tokens whose hashes satisfy `N`, none of which is
interrupted. -/
def rules (B : Bcrypt) (N : String → Prop) : World.Rules db Draw Empty Reply where
  start p := (∃ body, p = register B body ∨ p = login B body) ∨ ∃ token, p = refresh token
  draw _ f := N (hashRefreshToken f.token)
  kill := False

/-- The service, from tables satisfying `I₀`. -/
def system (B : Bcrypt) (N : String → Prop) (I₀ : Tables → Prop) :
    LTS State (World.Label db Draw Empty Reply) :=
  World.lts (rules B N) I₀

/-- The runs of the service in which every rotation finds the row that it deletes. -/
def careful (B : Bcrypt) (N : String → Prop) (I₀ : Tables → Prop) :
    LTS State (World.Label db Draw Empty Reply) :=
  (system B N I₀).restrict (World.Stepping Finds)

variable {B : Bcrypt} {I₀ : Tables → Prop} {w w' : State} {l : World.Label db Draw Empty Reply}

theorem Known.early {t : Draw → Tx db Process} {e : Err → Process} (h : Known (.txn t e))
    (f : Draw) (hN : N (hashRefreshToken f.token)) : Early N (t f) ∧ Handler e := by
  generalize hp : Proc.txn t e = p at h
  cases h with
  | register B body =>
    cases hp
    exact ⟨.findUser B body f, handler_registerError body⟩
  | insertUser B body =>
    cases hp
    exact ⟨.insertUser B body f, handler_registerError body⟩
  | login B body =>
    cases hp
    exact ⟨.credentials B body f, handler_loginError body⟩
  | issue body u email =>
    cases hp
    exact ⟨.issue body u email f hN, handler_loginError body⟩
  | refresh token =>
    cases hp
    exact ⟨.refresh token f hN, handler_refreshError token⟩
  | done r => cases hp

/-- Every process of the service is known, and every open transaction at one of its points. -/
theorem invariant (h : (careful B N I₀).Reachable w) : ∀ s, some s ∈ w.slots →
    s.Sat (fun _ => Known) (fun t c e => Point N t c ∧ Handler e) w.db := by
  have hr := World.reachable_of_stepping h
  refine (World.invariant (fun _ => True) (fun _ => Known)
    (fun t c e => Point N t c ∧ Handler e) (fun _ _ => trivial) ?_ ?_ ?_ ?_ ?_ ?_ hr).2
  · rintro d p - (⟨body, rfl | rfl⟩ | ⟨token, rfl⟩)
    · exact .register B body
    · exact .login B body
    · exact .refresh token
  · intro d f t e _ hN hp
    obtain ⟨he, hh⟩ := hp.early f hN
    exact ⟨.early rfl he, hh⟩
  · intro d o
    exact o.elim
  · intro d c c' e _ hK hnext hn
    exact ⟨hK.1.go hnext.2 hn, hK.2⟩
  · intro d c e p _ hK hn
    obtain ⟨hp, -, hframe⟩ := hK.1.commit hn
    -- a commit leaves the rows that other transactions own alone
    refine ⟨trivial, hp, fun _ h => h, fun c' e' hdisj hK' => ⟨hK'.1.keep fun id hid => ?_, hK'.2⟩⟩
    exact hframe id fun hid' => hdisj hid' hid
  · intro d c e x _ hK _
    obtain ⟨r, hr⟩ := (hK.2 x).1
    rw [hr]
    exact .done r

/-- How many processes have ended with a reply that counts. -/
def answered (φ : Reply → Bool) (w : State) : ℕ := w.slots.countP fun
  | some (.idle (.done r)) => φ r
  | _ => false

/-- A kind of reply that processes which have not succeeded do not give. -/
def Success (φ : Reply → Bool) : Prop := ∀ p r, Unsuccessful p → p = .done r → φ r = false

theorem success_loginOf (u : UUID) : Success (Reply.loginOf u) := fun _ r h hp => (h r hp).1 u

theorem success_redeems (token : String) : Success (Reply.redeems token) :=
  fun _ r h hp => (h r hp).2 token

/-- Whether a process has ended with a reply that counts. -/
def counts (φ : Reply → Bool) : Process → ℕ
  | .done r => if φ r then 1 else 0
  | _ => 0

theorem Success.counts_eq_zero {φ : Reply → Bool} (hφ : Success φ) (hp : Unsuccessful p) :
    counts φ p = 0 := by
  cases p with
  | done r => simp [counts, hφ _ r hp rfl]
  | call o k => exact o.elim
  | txn t e => rfl

/-- What a step does to `refresh_tokens` and to the number of successes. -/
theorem step_commit (h : (careful B N I₀).Reachable w) (hst : (careful B N I₀).step w l w') :
    ∃ p, Commit N w.db w'.db p ∧ ∀ φ, Success φ → answered φ w' = answered φ w + counts φ p := by
  have hinv := invariant h
  -- the process of slot `i` ends a transaction, or does not
  have hset : ∀ (i : ℕ) (s : Slot db Draw Empty Reply) (q : Process), w.slots[i]? = some (some s) →
      (∀ r, s ≠ .idle (.done r)) → ∀ (t : Tables) φ,
      answered φ ⟨t, w.slots.set i (some (.idle q)), w.calls⟩ = answered φ w + counts φ q := by
    intro i s q hi hs t φ
    rw [answered, countP_set_of_some hi, answered]
    · cases q <;> rfl
    · cases s with
      | busy c e => rfl
      | idle q =>
        cases q with
        | done r => exact absurd rfl (hs r)
        | call o k => exact o.elim
        | txn t e => rfl
  have hopen : ∀ (w' : State), w'.db = w.db →
      (∀ φ : Reply → Bool, answered φ w' = answered φ w) →
      ∃ p, Commit N w.db w'.db p ∧ ∀ φ, Success φ → answered φ w' = answered φ w + counts φ p := by
    intro w' hdb hcount
    exact ⟨refresh "", .none (by rw [hdb]) unsuccessful_txn, fun φ _ => hcount φ⟩
  cases World.step_cases hst.2 with
  | start hp =>
    refine hopen _ rfl fun φ => ?_
    rcases hp with ⟨body, rfl | rfl⟩ | ⟨token, rfl⟩ <;>
      simp [answered, List.countP_append, register, login, refresh]
  | «begin» _ hi => exact hopen _ rfl fun φ => countP_set_of_some hi rfl
  | @call i o k hi => exact o.elim
  | go hi _ _ _ => exact hopen _ rfl fun φ => countP_set_of_some hi rfl
  | @commit i c p e hi hn =>
    obtain ⟨-, hc, -⟩ := (hinv _ (List.mem_of_getElem? hi)).1.commit hn
    exact ⟨p, hc, fun φ _ => hset i _ p hi (by simp) _ φ⟩
  | @abort i c x e hi hn =>
    obtain ⟨-, hun⟩ := (hinv _ (List.mem_of_getElem? hi)).2 x
    exact ⟨e x, .none rfl hun, fun φ _ => hset i _ (e x) hi (by simp) _ φ⟩
  | kill hk => exact hk.elim

/-- The number of tokens of a user. -/
def tokensOf (t : Tables) (u : UUID) : ℕ := t.refreshTokens.rows.countP fun r => r.userId = u

/-- The number of rows with the hash of a token. -/
def bearing (t : Tables) (token : String) : ℕ :=
  t.refreshTokens.rows.countP fun r => r.tokenHash = hashRefreshToken token

/-- A commit redeems a token only by deleting a row with its hash. -/
theorem Commit.bearing {token : String} (hc : Commit N t t' p)
    (hN : ∀ s, N s → s ≠ hashRefreshToken token) :
    bearing t' token + counts (Reply.redeems token) p ≤ bearing t token := by
  cases hc with
  | none hrows hun =>
    rw [(success_redeems token).counts_eq_zero hun, Auth.bearing, hrows, Auth.bearing]
    omega
  | login body u email f hp hfree hrows hnew =>
    subst hp
    have hne := hN _ hnew
    rw [Auth.bearing, hrows, Table.countP_insert (r := newToken u f) hfree]
    simp [newToken, hne, counts, loggedIn, Reply.redeems, Auth.bearing]
  | refresh token' row f hp hsel hfree hrows hnew =>
    subst hp
    obtain ⟨r, hr, hhash, -⟩ := hsel
    have hne := hN _ hnew
    -- a row with the hash of the token redeemed goes, and none with the hash of `token` comes
    have herase := Table.countP_erase hr fun r => r.tokenHash = hashRefreshToken token
    rw [Auth.bearing, hrows, Table.countP_insert (r := newToken row.userId f) hfree]
    simp only [newToken, hne, decide_false, Bool.false_eq_true, if_false, counts, refreshed,
      Reply.redeems, decide_eq_true_eq, Auth.bearing, hhash] at herase ⊢
    by_cases ht : token' = token
    · simp only [ht, if_true] at herase ⊢
      omega
    · simp only [ht, if_false]
      omega

/-- A commit gives a user a further token only by a login. -/
theorem Commit.tokensOf (hc : Commit N t t' p) (u : UUID) :
    tokensOf t' u ≤ tokensOf t u + counts (Reply.loginOf u) p := by
  cases hc with
  | none hrows hun => rw [Auth.tokensOf, hrows, Auth.tokensOf]; omega
  | login body u' email f hp hfree hrows _ =>
    subst hp
    rw [Auth.tokensOf, hrows, Table.countP_insert (r := newToken u' f) hfree]
    by_cases hu : u' = u <;>
      simp [newToken, counts, loggedIn, Reply.loginOf, createAccessToken, Auth.tokensOf, hu]
  | refresh token row f hp hsel hfree hrows _ =>
    subst hp
    obtain ⟨r, hr, -, huser⟩ := hsel
    -- the row that goes and the one that comes belong to the same user
    have herase := Table.countP_erase hr fun r => r.userId = u
    rw [Auth.tokensOf, hrows, Table.countP_insert (r := newToken row.userId f) hfree]
    by_cases hu : row.userId = u
    · simp only [newToken, huser, hu, decide_true, if_true, Auth.tokensOf] at herase ⊢
      omega
    · simp only [newToken, huser, hu, decide_false, Bool.false_eq_true, if_false,
        Auth.tokensOf] at herase ⊢
      omega

/-- **Refresh tokens are single use as long as every rotation finds the row that it deletes.**
Whatever is stored, if the hash of the token is stored at most once and no new token has the same
hash, of all the refreshes with the token at most one succeeds; and from a state without tokens, a
user never has more of them than successful logins. -/
theorem refresh_single_use (B : Bcrypt) :
    (∀ token w, (careful B (· ≠ hashRefreshToken token) fun t => bearing t token ≤ 1).Reachable w →
      answered (Reply.redeems token) w ≤ 1) ∧
    ∀ u w, (careful B (fun _ => True) fun t => t.refreshTokens = .empty).Reachable w →
      tokensOf w.db u ≤ answered (Reply.loginOf u) w := by
  constructor
  · intro token w h
    -- every success takes one of the rows with the hash, of which there is at most one
    have hmain : (careful B (· ≠ hashRefreshToken token) fun t => bearing t token ≤ 1).Reachable w ∧
        bearing w.db token + answered (Reply.redeems token) w ≤ 1 := by
      refine h.invariant (I := fun w => _ ∧ bearing w.db token + answered _ w ≤ 1) ?_ ?_
      · rintro _ ⟨t, ht, rfl⟩
        exact ⟨.init ⟨t, ht, rfl⟩, by simpa [answered, World.idle] using ht⟩
      · rintro w l w' ⟨hr, hI⟩ hst
        obtain ⟨p, hc, hcount⟩ := step_commit hr hst
        have hb := hc.bearing fun s hs => hs
        rw [hcount _ (success_redeems token)]
        exact ⟨hr.tail hst, by omega⟩
    omega
  · intro u w h
    -- every further token of the user comes with a login
    have hmain : (careful B (fun _ => True) fun t => t.refreshTokens = .empty).Reachable w ∧
        tokensOf w.db u ≤ answered (Reply.loginOf u) w := by
      refine h.invariant (I := fun w => _ ∧ tokensOf w.db u ≤ answered _ w) ?_ ?_
      · rintro _ ⟨t, ht, rfl⟩
        exact ⟨.init ⟨t, ht, rfl⟩, by simp [tokensOf, World.idle, ht, Table.empty]⟩
      · rintro w l w' ⟨hr, hI⟩ hst
        obtain ⟨p, hc, hcount⟩ := step_commit hr hst
        have ht := hc.tokensOf u
        rw [hcount _ (success_loginOf u)]
        exact ⟨hr.tail hst, by omega⟩
    exact hmain.2

/-- The row, the user and the token of a rotation that is about to begin. -/
def rotating : Tx db Process → Option (UUID × UUID × String)
  | .stmt (.deleteRefreshToken id) k =>
    match k () with
    | .stmt (.insertRefreshToken userId _ _ _) k' =>
      match k' () with
      | .pure (.done (.refresh token (.ok _))) => some (id, userId, token)
      | _ => none
    | _ => none
  | _ => none

theorem rotating_rotate (token : String) (row : Presented) (f : Draw) :
    rotating (rotate token row f) = some (row.id, row.userId, token) := rfl

/-- A check that a rotation finds its row. -/
def findsRow (t : Tables) (c : Session db Process) : Bool :=
  match rotating c.prog with
  | none => true
  | some (id, userId, token) =>
    match t.refreshTokens.get? id with
    | none => false
    | some r => r.tokenHash = hashRefreshToken token && r.userId = userId

theorem finds_of_findsRow (h : findsRow t c = true) : Finds t c := by
  intro token row f hp
  rw [findsRow, hp, rotating_rotate] at h
  simp only at h
  split at h
  · cases h
  · rename_i r hr
    rw [Bool.and_eq_true, decide_eq_true_eq, decide_eq_true_eq] at h
    exact ⟨r, hr, h⟩

/-- What may happen in a run of one login and of refreshes with one token. -/
theorem guard_of_start (body : Credentials) (token : String)
    (hs : ∀ p, l = .start p → p = login B body ∨ p = refresh token)
    (hf : ∀ i f, l = .begin i f → N (hashRefreshToken f.token)) (hk : ∀ i, l ≠ .kill i) :
    (rules B N).guard w l := by
  cases l with
  | start p =>
    rcases hs p rfl with rfl | rfl
    · exact .inl ⟨_, .inr rfl⟩
    · exact .inr ⟨_, rfl⟩
  | «begin» i f => exact hf i f rfl
  | step i => exact fun _ _ _ => trivial
  | kill i => exact absurd rfl (hk i)

/-- Two refreshes with one token, the second after the first: it is refused, whether the token has
been there from the beginning or been issued to a login; in the second run the user is left with
one token for the one login. -/
theorem refresh_single_use_replayed :
    let B : Bcrypt := ⟨fun _ password => password, fun password hash => password = hash⟩
    let users : Table UserRow.id := Table.empty.insert ⟨1, "a@b.c", "pw", 0⟩
    let stored : Tables := ⟨users, Table.empty.insert (newToken 1 { id := 10, token := "t1" })⟩
    let logIn : List (World.Label db Draw Empty Reply) :=
      [.start (login B ⟨"a@b.c", "pw"⟩), .begin 0 { id := 0 }, .step 0, .step 0,
        .begin 0 { id := 10, token := "t1" }, .step 0, .step 0]
    let refreshes (i j : ℕ) : List (World.Label db Draw Empty Reply) :=
      [.start (refresh "t1"), .start (refresh "t1"),
        .begin i { id := 11, token := "t2" }, .begin j { id := 12, token := "t3" },
        .step i, .step i, .step i, .step i, .step j, .step j]
    (∃ w, (careful B (· ≠ hashRefreshToken "t1") fun t => bearing t "t1" ≤ 1).Run
        (World.idle stored) (refreshes 0 1) w ∧ answered (Reply.redeems "t1") w = 1) ∧
      ∃ w, (careful B (fun _ => True) fun t => t.refreshTokens = .empty).Run
        (World.idle ⟨users, .empty⟩) (logIn ++ refreshes 1 2) w ∧
        answered (Reply.redeems "t1") w = 1 ∧
        tokensOf w.db 1 ≤ answered (Reply.loginOf 1) w := by
  intro B users stored logIn refreshes
  let act (w : State) (l : World.Label db Draw Empty Reply) : Option State :=
    if World.checks findsRow w l then World.act w l else none
  constructor
  · have hrun : (LTS.runAct act (World.idle stored) (refreshes 0 1)).map
        (fun w => decide (1 ≤ answered (Reply.redeems "t1") w)) = some true := by decide +kernel
    obtain ⟨w, hw, hpos⟩ := Option.map_eq_some_iff.1 hrun
    have hr : (careful B (· ≠ hashRefreshToken "t1") fun t => bearing t "t1" ≤ 1).Run
        (World.idle stored) (refreshes 0 1) w := by
      refine World.run_of_runAct_checks (fun _ _ => finds_of_findsRow) (fun w l hl => ?_) hw
      refine guard_of_start ⟨"a@b.c", "pw"⟩ "t1" ?_ ?_ ?_
      · rintro p rfl
        exact .inr (by simpa [refreshes] using hl)
      · rintro i f rfl
        have hne₂ : hashRefreshToken "t2" ≠ hashRefreshToken "t1" := by decide +kernel
        have hne₃ : hashRefreshToken "t3" ≠ hashRefreshToken "t1" := by decide +kernel
        simp only [refreshes, List.mem_cons, List.not_mem_nil, reduceCtorEq,
          World.Label.begin.injEq, false_or, or_false] at hl
        rcases hl with ⟨-, rfl⟩ | ⟨-, rfl⟩
        · exact hne₂
        · exact hne₃
      · rintro i rfl
        simp [refreshes] at hl
    have hinit : bearing stored "t1" ≤ 1 := by decide +kernel
    exact ⟨w, hr, le_antisymm ((refresh_single_use B).1 "t1" w ⟨_, _, ⟨stored, hinit, rfl⟩, hr⟩)
      (of_decide_eq_true hpos)⟩
  · have hrun : (LTS.runAct act (World.idle ⟨users, .empty⟩) (logIn ++ refreshes 1 2)).map
        (answered (Reply.redeems "t1")) = some 1 := by decide +kernel
    obtain ⟨w, hw, hobs⟩ := Option.map_eq_some_iff.1 hrun
    have hr : (careful B (fun _ => True) fun t => t.refreshTokens = .empty).Run
        (World.idle ⟨users, .empty⟩) (logIn ++ refreshes 1 2) w := by
      refine World.run_of_runAct_checks (fun _ _ => finds_of_findsRow) (fun w l hl => ?_) hw
      refine guard_of_start ⟨"a@b.c", "pw"⟩ "t1" ?_ (fun _ _ _ => trivial) ?_
      · rintro p rfl
        simpa [logIn, refreshes] using hl
      · rintro i rfl
        simp [logIn, refreshes] at hl
    exact ⟨w, hr, hobs, (refresh_single_use B).2 1 w ⟨_, _, ⟨_, rfl, rfl⟩, hr⟩⟩

/-- Two refreshes with one token select its row before either has deleted it: the second `DELETE`
finds nothing, and both succeed.  The user is left with two tokens for one login. -/
theorem refresh_twice :
    let B : Bcrypt := ⟨fun _ password => password, fun password hash => password = hash⟩
    let t : Tables := ⟨Table.empty.insert ⟨1, "a@b.c", "pw", 0⟩, .empty⟩
    let run : List (World.Label db Draw Empty Reply) :=
      [.start (login B ⟨"a@b.c", "pw"⟩), .begin 0 { id := 0 }, .step 0, .step 0,
        .begin 0 { id := 10, token := "t1" }, .step 0, .step 0,
        .start (refresh "t1"), .start (refresh "t1"),
        .begin 1 { id := 11, token := "t2" }, .begin 2 { id := 12, token := "t3" },
        .step 1, .step 2, .step 1, .step 1, .step 1, .step 2, .step 2, .step 2]
    ∃ w, (system B (fun _ => True) fun t => t.refreshTokens = .empty).Run (World.idle t) run w ∧
      answered (Reply.redeems "t1") w = 2 ∧
      tokensOf w.db 1 = 2 ∧ answered (Reply.loginOf 1) w = 1 := by
  intro B t run
  have hrun : (LTS.runAct (World.act (S := db)) (World.idle t) run).map
      (fun w => (answered (Reply.redeems "t1") w, tokensOf w.db 1,
        answered (Reply.loginOf 1) w)) = some (2, 2, 1) := by decide +kernel
  obtain ⟨w, hw, hobs⟩ := Option.map_eq_some_iff.1 hrun
  simp only [Prod.mk.injEq] at hobs
  refine ⟨w, LTS.run_of_runAct ?_ hw, hobs.1, hobs.2.1, hobs.2.2⟩
  intro w l hl
  refine guard_of_start ⟨"a@b.c", "pw"⟩ "t1" ?_ (fun _ _ _ => trivial) ?_
  · rintro p rfl
    simpa [run] using hl
  · rintro i rfl
    simp [run] at hl

end Auth

end FoodFlow
