import FoodFlow.Auth.Lineage

/-!
# Accounts

Registrations, logins and refreshes with their transactions interleaved statement by statement and
interrupted anywhere.  A registration looks for the address first and inserts the user in a second
transaction, so two of them can both find the address free; what keeps addresses apart is the
unique constraint.

* `Vouched` : a user has given the password;
* `Code`, `Stage` : what an open transaction can still do, and what it has done;
* `accounts_sound` : **every address belongs to one user, is registered once, and every access token
  is that of a user whose password has been given in a login.**

An open transaction that has inserted a user owns the address, so nobody else commits it meanwhile.
-/

namespace FoodFlow

namespace Auth

/-- An address that `EmailStr` lets through fits the column. -/
def isEmail (email : String) : Prop := varchar 255 email = some email

instance (email : String) : Decidable (isEmail email) :=
  inferInstanceAs (Decidable (varchar 255 email = some email))

/-- What the service is run with. -/
structure Setting where
  /-- The hashing of passwords. -/
  bcrypt : Bcrypt
  /-- The credentials of the registrations. -/
  regs : Set Credentials
  /-- The credentials of the logins. -/
  logins : Set Credentials
  /-- What transactions may draw. -/
  draws : Set Draw

variable (E : Setting)

/-- The registration that a user comes from. -/
def Registers (body : Credentials) (r : UserRow) : Prop :=
  body.email = r.email ∧ ∃ f ∈ E.draws, r.id = f.id ∧
    varchar 255 (E.bcrypt.hashPassword f.salt body.password) = some r.passwordHash

/-- The user `u` with this address is stored, and somebody has tried to log in with its password. -/
def Vouched (t : Tables) (u : UUID) (email : String) : Prop :=
  ∃ user, t.users.get? u = some user ∧ user.email = email ∧ ∃ body ∈ E.logins,
    body.email = user.email ∧ E.bcrypt.verifyPassword body.password user.passwordHash = true

/-- What an answer promises. -/
structure Truthful (t : Tables) (reply : Reply) : Prop where
  granted : ∀ a, reply.granted = some a → ∃ u email, Vouched E t u email ∧
    ∃ f ∈ E.draws, a.accessToken = createAccessToken u email f.now
  registered : ∀ body a, reply = .register body (.ok a) →
    ∃ r, t.users.get? a.id = some r ∧ r.email = a.email

/-- What a process can be between two transactions. -/
inductive Good (t : Tables) : Process → Prop
  | register (body : Credentials) : body ∈ E.regs → isEmail body.email →
      Good t (register E.bcrypt body)
  | insertUser (body : Credentials) : body ∈ E.regs → isEmail body.email →
      Good t (.txn (insertUserTx E.bcrypt body) (registerError body))
  | login (body : Credentials) : body ∈ E.logins → Good t (login E.bcrypt body)
  | issue (body : Credentials) (u : UUID) (email : String) : Vouched E t u email →
      Good t (.txn (issueTx body u email) (loginError body))
  | refresh (token : String) : Good t (refresh token)
  | done (reply : Reply) : Truthful E t reply → Good t (.done reply)

/-- Whether the address has been registered. -/
def Reply.registers (email : String) : Reply → Bool
  | .register _ (.ok a) => a.email = email
  | _ => false

/-- A process that has not registered an address. -/
def Unregistered (p : Process) : Prop := ∀ reply email, p = .done reply →
  reply.registers email = false

/-- What a transaction can still have to do, when it inserts no user. -/
inductive Code (t : Tables) : Tx db Process → Prop
  | findUser (body : Credentials) (f : Draw) : body ∈ E.regs → isEmail body.email →
      Code t (findUserTx E.bcrypt body f)
  | credentials (body : Credentials) (f : Draw) : body ∈ E.logins →
      Code t (credentialsTx E.bcrypt body f)
  | issue (body : Credentials) (u : UUID) (email : String) (f : Draw) : f ∈ E.draws →
      Vouched E t u email → Code t (issueTx body u email f)
  | refresh (token : String) (f : Draw) : f ∈ E.draws → Code t (refreshTx token f)
  | rotate (token : String) (row : Presented) (f : Draw) : f ∈ E.draws →
      Vouched E t row.userId row.email → Code t (rotate token row f)
  | reissue (token : String) (row : Presented) (f : Draw) : f ∈ E.draws →
      Vouched E t row.userId row.email → Code t (reissue token row f)
  | expire (row : Presented) : Code t (expire row)
  | throw (x : Err) : Code t (.throw x)
  | finished (p : Process) : Good E t p → Unregistered p → Code t (.pure p)

/-- Changes that concern no user, and tokens of users that are vouched for only. -/
def TokenWrites (t : Tables) (ws : List Write) : Prop :=
  ∀ w ∈ ws, (∃ id, w = .delToken id) ∨ ∃ r email, w = .addToken r ∧ Vouched E t r.userId email

/-- Where an open transaction can be. -/
inductive Stage (t : Tables) (c : Session db Process) : Prop
  /-- It inserts no user. -/
  | quiet : TokenWrites E t c.writes → Code E t c.prog → Stage t c
  /-- It is about to insert a user. -/
  | registering (body : Credentials) (f : Draw) : body ∈ E.regs → isEmail body.email →
      f ∈ E.draws → c.prog = insertUserTx E.bcrypt body f → c.writes = [] → Stage t c
  /-- It has inserted a user, and owns its address and its id. -/
  | registered (body : Credentials) (r : UserRow) : body ∈ E.regs → Registers E body r →
      c.prog = .pure (.done (.register body (.ok ⟨r.id, r.email, r.createdAt⟩))) →
      c.writes = [.addUser r] → .user r.id ∈ c.held → .email r.email ∈ c.held →
      t.users.get? r.id = none → t.byEmail? r.email = none → Stage t c

/-- What the tables say of the users. -/
structure Sound (t : Tables) : Prop where
  unique : ∀ r ∈ t.users.rows, ∀ r' ∈ t.users.rows, r.email = r'.email → r = r'
  registered : ∀ r ∈ t.users.rows, ∃ body ∈ E.regs, Registers E body r
  vouched : ∀ r ∈ t.refreshTokens.rows, ∃ email, Vouched E t r.userId email

variable {E} {t t' : Tables} {c c' : Session db Process}
  {p : Process} {u : UUID} {email : String} {ws : List Write} {reply : Reply}

/-! ### Users stay -/

/-- Users are never changed. -/
def Extends (t t' : Tables) : Prop := ∀ u r, t.users.get? u = some r → t'.users.get? u = some r

theorem extends_of_eq (h : t'.users = t.users) : Extends t t' := fun u r hr => by rw [h, hr]

theorem Vouched.mono (h : Extends t t') (hv : Vouched E t u email) :
    Vouched E t' u email := by
  obtain ⟨user, hu, hrest⟩ := hv
  exact ⟨user, h u user hu, hrest⟩

theorem Truthful.mono (h : Extends t t') (hr : Truthful E t reply) :
    Truthful E t' reply where
  granted a ha := by
    obtain ⟨u, email, hv, hf⟩ := hr.granted a ha
    exact ⟨u, email, hv.mono h, hf⟩
  registered body a ha := by
    obtain ⟨r, hget, he⟩ := hr.registered body a ha
    exact ⟨r, h _ r hget, he⟩

theorem Good.mono (h : Extends t t') (hp : Good E t p) : Good E t' p := by
  cases hp with
  | register body hb he => exact .register body hb he
  | insertUser body hb he => exact .insertUser body hb he
  | login body hb => exact .login body hb
  | issue body u email hv => exact .issue body u email (hv.mono h)
  | refresh token => exact .refresh token
  | done reply hr => exact .done reply (hr.mono h)

theorem Code.mono {prog : Tx db Process} (h : Extends t t') (hc : Code E t prog) :
    Code E t' prog := by
  cases hc with
  | findUser body f hb he => exact .findUser body f hb he
  | credentials body f hb => exact .credentials body f hb
  | issue body u email f hf hv => exact .issue body u email f hf (hv.mono h)
  | refresh token f hf => exact .refresh token f hf
  | rotate token row f hf hv => exact .rotate token row f hf (hv.mono h)
  | reissue token row f hf hv => exact .reissue token row f hf (hv.mono h)
  | expire row => exact .expire row
  | throw x => exact .throw x
  | finished p hp hn => exact .finished p (hp.mono h) hn

theorem TokenWrites.mono (h : Extends t t') (hw : TokenWrites E t ws) :
    TokenWrites E t' ws := fun w hm =>
  (hw w hm).imp_right fun ⟨r, email, hr, hv⟩ => ⟨r, email, hr, hv.mono h⟩

/-- A further user leaves the others alone. -/
theorem extends_addUser {r : UserRow} (hid : t.users.get? r.id = none) :
    Extends t (apply (.addUser r) t) := by
  intro u r' hr'
  show (t.users.insert r).get? u = some r'
  rw [Table.get?_insert hid, if_neg, hr']
  rintro rfl
  rw [hid] at hr'
  cases hr'

/-! ### What token writes do -/

theorem tokenWrites_nil : TokenWrites E t [] := fun _ hw => absurd hw List.not_mem_nil

theorem TokenWrites.append {ws' : List Write} (h : TokenWrites E t ws)
    (h' : TokenWrites E t ws') : TokenWrites E t (ws ++ ws') := fun w hw =>
  (List.mem_append.1 hw).elim (h w) (h' w)

/-- The users are as before, and all tokens are those of users that are vouched for. -/
theorem TokenWrites.apply_all (hw : TokenWrites E t ws)
    (hs : ∀ r ∈ t.refreshTokens.rows, ∃ email, Vouched E t r.userId email) :
    (db.applyAll ws t).users = t.users ∧ ∀ r ∈ (db.applyAll ws t).refreshTokens.rows,
      ∃ email, Vouched E t r.userId email := by
  induction ws using List.reverseRecOn with
  | nil => exact ⟨rfl, hs⟩
  | append_singleton ws w ih =>
    obtain ⟨husers, hrows⟩ := ih fun w' hw' => hw w' (List.mem_append_left _ hw')
    rw [Dbms.applyAll_append]
    rcases hw w (List.mem_append_right _ (List.mem_singleton_self _)) with
      ⟨id, rfl⟩ | ⟨r, email, rfl, hv⟩
    · refine ⟨husers, fun r hr => hrows r ?_⟩
      exact (Table.mem_rows_erase.1 hr).1
    · refine ⟨husers, fun r' hr' => ?_⟩
      rcases Table.mem_rows_insert.1 hr' with hr' | ⟨rfl, -⟩
      · exact hrows r' hr'
      · exact ⟨email, hv⟩

theorem Tables.byEmail?_eq_none_iff : t.byEmail? email = none ↔
    ∀ r ∈ t.users.rows, r.email ≠ email := by
  simp [Tables.byEmail?]

/-! ### A step of a transaction -/

theorem granted_error (body : Credentials) (token : String) (x : Err) :
    Truthful E t (.register body (.error x)) ∧ Truthful E t (.login body (.error x)) ∧
      Truthful E t (.refresh token (.error x)) := by
  refine ⟨⟨fun a h => ?_, fun _ a h => ?_⟩, ⟨fun a h => ?_, fun _ a h => ?_⟩,
    ⟨fun a h => ?_, fun _ a h => ?_⟩⟩
  all_goals cases h

/-- What handles the exceptions of a transaction, whatever the tables are. -/
def Handles (E : Setting) (e : Err → Process) : Prop :=
  ∀ x, Unregistered (e x) ∧ ∀ t, Good E t (e x)

theorem handles_registerError (body : Credentials) :
    Handles E (registerError body) := by
  refine fun x => ⟨?_, fun t => .done _ (granted_error body "" x).1⟩
  rintro _ email ⟨⟩
  rfl

theorem handles_loginError (body : Credentials) : Handles E (loginError body) := by
  refine fun x => ⟨?_, fun t => .done _ (granted_error body "" x).2.1⟩
  rintro _ email ⟨⟩
  rfl

theorem handles_refreshError (token : String) : Handles E (refreshError token) := by
  refine fun x => ⟨?_, fun t => .done _ (granted_error ⟨"", ""⟩ token x).2.2⟩
  rintro _ email ⟨⟩
  rfl

theorem unregistered_txn {d : Draw → Tx db Process} {e : Err → Process} :
    Unregistered (.txn d e) := by
  rintro _ _ ⟨⟩

/-- A user whose password has been given may be issued a token. -/
theorem good_authenticate {body : Credentials} (hb : body ∈ E.logins) :
    Good E t (authenticate E.bcrypt body (t.byEmail? body.email)) ∧
      Unregistered (authenticate E.bcrypt body (t.byEmail? body.email)) := by
  have failed := handles_loginError (E := E) body
    (.http 401 "Invalid email or password")
  cases hrow : t.byEmail? body.email with
  | none => exact ⟨failed.2 t, failed.1⟩
  | some row =>
    simp only [authenticate]
    split_ifs with hv
    · have hfind : t.users.rows.find? (fun r => r.email = body.email) = some row := hrow
      have hemail : row.email = body.email := by simpa using List.find?_some hfind
      refine ⟨.issue _ _ _ ⟨row, ?_, rfl, body, hb, hemail.symm, hv⟩, unregistered_txn⟩
      exact Table.get?_of_mem (List.mem_of_find?_eq_some hfind)
    · exact ⟨failed.2 t, failed.1⟩

/-- A token that is granted to a user vouched for. -/
theorem truthful_granted {a : AuthResponse} (hg : reply.granted = some a) {f : Draw}
    (hf : f ∈ E.draws) (hv : Vouched E t u email)
    (ha : a.accessToken = createAccessToken u email f.now) : Truthful E t reply where
  granted a' ha' := by
    obtain rfl := Option.some.inj (hg.symm.trans ha')
    exact ⟨u, email, hv, f, hf, ha⟩
  registered body a' ha' := by
    subst ha'
    cases hg

theorem good_login (body : Credentials) {f : Draw} (hf : f ∈ E.draws)
    (hv : Vouched E t u email) :
    Good E t (loggedIn body u email f) ∧ Unregistered (loggedIn body u email f) := by
  refine ⟨.done _ (truthful_granted rfl hf hv rfl), ?_⟩
  rintro _ email ⟨⟩
  rfl

theorem good_refresh (token : String) {row : Presented} {f : Draw} (hf : f ∈ E.draws)
    (hv : Vouched E t row.userId row.email) :
    Good E t (refreshed token row f) ∧ Unregistered (refreshed token row f) := by
  refine ⟨.done _ (truthful_granted rfl hf hv rfl), ?_⟩
  rintro _ email ⟨⟩
  rfl

/-- The insertion of a token for a user that is vouched for. -/
theorem tokenWrites_insert {token : String} {expiresAt : Time} {id : UUID} {r : Unit} {d : Tables}
    (hv : Vouched E t u email)
    (hx : exec (.insertRefreshToken u (hashRefreshToken token) expiresAt id) d = .ok (r, ws)) :
    TokenWrites E t ws := by
  obtain ⟨-, rfl⟩ := exec_insertRefreshToken hx
  exact fun w hw => .inr ⟨_, email, List.mem_singleton.1 hw, hv⟩

section Steps

variable (hs : Sound E t)
include hs

/-- A step of a transaction that inserts no user. -/
theorem Code.go (hw : TokenWrites E t c.writes) (hc : Code E t c.prog)
    (hn : c.next t = .go c') : Stage E t c' := by
  obtain ⟨husers, hvouched⟩ := hw.apply_all hs.vouched
  generalize hprog : c.prog = prog at hc
  cases hc with
  | findUser body f hb he =>
    obtain ⟨existing, ws, hx, hp', hw', -⟩ := Session.go_of_stmt hprog hn
    cases hx
    refine .quiet (by rw [hw']; exact hw.append tokenWrites_nil) ?_
    rw [hp']
    cases (c.view t).byEmail? body.email with
    | none => exact .finished _ (.insertUser body hb he) unregistered_txn
    | some r =>
      obtain ⟨hun, hgood⟩ := handles_registerError (E := E) body
        (.http 409 "Email already registered")
      exact .finished _ (hgood t) hun
  | credentials body f hb =>
    obtain ⟨row, ws, hx, hp', hw', -⟩ := Session.go_of_stmt hprog hn
    cases hx
    refine .quiet (by rw [hw']; exact hw.append tokenWrites_nil) ?_
    have hfind : (c.view t).byEmail? body.email = t.byEmail? body.email :=
      congrArg (fun users => List.find? _ (Table.rows users)) husers
    rw [hp', hfind]
    obtain ⟨hgood, hun⟩ := good_authenticate (t := t) hb
    exact .finished _ hgood hun
  | issue body u email f hf hv =>
    obtain ⟨r, ws, hx, hp', hw', -⟩ := Session.go_of_stmt hprog hn
    obtain ⟨hgood, hun⟩ := good_login body hf hv
    refine .quiet (by rw [hw']; exact hw.append (tokenWrites_insert hv hx)) ?_
    exact hp' ▸ .finished _ hgood hun
  | refresh token f hf =>
    obtain ⟨row, ws, hx, hp', hw', -⟩ := Session.go_of_stmt hprog hn
    cases hx
    refine .quiet (by rw [hw']; exact hw.append tokenWrites_nil) ?_
    generalize hrow : ((c.view t).presented (hashRefreshToken token))[f.pick % _]? = row at hp'
    cases row with
    | none => exact hp' ▸ .throw _
    | some row =>
      -- the row belongs to a user that is vouched for, under the address that is stored
      obtain ⟨r, hr, -, user, hu, rfl⟩ := mem_presented_iff.1 (List.mem_of_getElem? hrow)
      obtain ⟨email, user', hu', hemail, hbody⟩ := hvouched r hr
      rw [Session.view, husers, hu'] at hu
      obtain rfl := Option.some.inj hu
      have hredeem : c'.prog = if r.expiresAt < f.now then
          Auth.expire ⟨r.id, r.userId, r.expiresAt, user'.email⟩
          else Auth.rotate token ⟨r.id, r.userId, r.expiresAt, user'.email⟩ f := hp'
      rw [hredeem]
      split_ifs
      · exact .expire _
      · exact .rotate token _ f hf ⟨user', hu', rfl, hbody⟩
  | rotate token row f hf hv =>
    obtain ⟨r, ws, hx, hp', hw', -⟩ := Session.go_of_stmt hprog hn
    refine .quiet ?_ (hp' ▸ .reissue token row f hf hv)
    rw [hw']
    cases hx
    refine hw.append fun w hmem => ?_
    split_ifs at hmem
    · exact .inl ⟨row.id, List.mem_singleton.1 hmem⟩
    · cases hmem
  | reissue token row f hf hv =>
    obtain ⟨r, ws, hx, hp', hw', -⟩ := Session.go_of_stmt hprog hn
    obtain ⟨hgood, hun⟩ := good_refresh token hf hv
    refine .quiet (by rw [hw']; exact hw.append (tokenWrites_insert hv hx)) ?_
    exact hp' ▸ .finished _ hgood hun
  | expire row =>
    obtain ⟨r, ws, hx, hp', hw', -⟩ := Session.go_of_stmt hprog hn
    refine .quiet ?_ (hp' ▸ .throw _)
    rw [hw']
    cases hx
    refine hw.append fun w hmem => ?_
    split_ifs at hmem
    · exact .inl ⟨row.id, List.mem_singleton.1 hmem⟩
    · cases hmem
  | throw x =>
    rw [Session.abort_of_throw hprog] at hn
    cases hn
  | finished p _ _ =>
    rw [Session.commit_of_pure hprog] at hn
    cases hn

/-- A step of a transaction. -/
theorem Stage.go (h : Stage E t c) (hn : c.next t = .go c') :
    Stage E t c' := by
  cases h with
  | quiet hw hc => exact hc.go hs hw hn
  | registering body f hb he hf hp hw =>
    obtain ⟨row, ws, hx, hp', hw', hh⟩ := Session.go_of_stmt hp hn
    have hview : c.view t = t := by rw [Session.view, hw, Dbms.applyAll_nil]
    rw [hview] at hx hh
    simp only [exec] at hx
    split at hx
    · cases hx
    · cases hx
    · rename_i email hash hemail hhash
      obtain rfl := Option.some.inj ((he : varchar 255 _ = _).symm.trans hemail)
      split_ifs at hx with hid hfree
      cases hx
      refine .registered body _ hb ⟨rfl, f, hf, rfl, hhash⟩ hp' (by rw [hw', hw]; rfl) ?_ ?_
        (by simpa using hid) (by simpa using hfree)
      · rw [hh]
        exact List.mem_append_right _ List.mem_cons_self
      · rw [hh]
        exact List.mem_append_right _ (List.mem_cons_of_mem _ (List.mem_singleton_self _))
  | registered body r hb hr hp _ _ _ _ _ =>
    rw [Session.commit_of_pure hp] at hn
    cases hn

/-- What a commit has done to the users, and what the process has become. -/
inductive Joined (E : Setting) (t t' : Tables) (c : Session db Process) : Process → Prop
  /-- No user has joined. -/
  | none (q : Process) : t'.users = t.users → Unregistered q → Joined E t t' c q
  | one (body : Credentials) (r : UserRow) : body ∈ E.regs → Registers E body r →
      t.users.get? r.id = none → t.byEmail? r.email = none → .user r.id ∈ c.held →
      .email r.email ∈ c.held → t' = apply (.addUser r) t →
      Joined E t t' c (.done (.register body (.ok ⟨r.id, r.email, r.createdAt⟩)))

/-- What a transaction has done when it commits. -/
theorem Stage.commit (h : Stage E t c) (hn : c.next t = .commit p) :
    Joined E t (c.view t) c p ∧ Extends t (c.view t) ∧ Good E (c.view t) p ∧
      Sound E (c.view t) := by
  have pure_inj : ∀ {p'}, c.prog = .pure p' → p' = p := by
    intro p' hp
    rw [Session.commit_of_pure hp] at hn
    exact Session.Next.commit.inj hn
  cases h with
  | quiet hw hc =>
    obtain ⟨husers, hvouched⟩ := hw.apply_all hs.vouched
    have hext : Extends t (c.view t) := extends_of_eq husers
    have hsound : Sound E (c.view t) := by
      refine ⟨fun r hr r' hr' he => ?_, fun r hr => ?_, fun r hr => ?_⟩
      · rw [Session.view, husers] at hr hr'
        exact hs.unique r hr r' hr' he
      · rw [Session.view, husers] at hr
        exact hs.registered r hr
      · obtain ⟨email, hv⟩ := hvouched r hr
        exact ⟨email, hv.mono hext⟩
    generalize hprog : c.prog = prog at hc
    cases hc with
    | finished p' hp hun =>
      obtain rfl := pure_inj hprog
      exact ⟨.none _ husers hun, hext, hp.mono hext, hsound⟩
    | findUser body f _ _ => exact absurd hn (Session.not_commit_of_stmt hprog)
    | credentials body f _ => exact absurd hn (Session.not_commit_of_stmt hprog)
    | issue body u email f _ _ => exact absurd hn (Session.not_commit_of_stmt hprog)
    | refresh token f _ => exact absurd hn (Session.not_commit_of_stmt hprog)
    | rotate token row f _ _ => exact absurd hn (Session.not_commit_of_stmt hprog)
    | reissue token row f _ _ => exact absurd hn (Session.not_commit_of_stmt hprog)
    | expire row => exact absurd hn (Session.not_commit_of_stmt hprog)
    | throw x =>
      rw [Session.abort_of_throw hprog] at hn
      cases hn
  | registering body f _ _ _ hp _ => exact absurd hn (Session.not_commit_of_stmt hp)
  | registered body r hb hr hp hw hid hemail hnone hfree =>
    obtain rfl := pure_inj hp
    have hview : c.view t = apply (.addUser r) t := by
      rw [Session.view, hw]
      rfl
    have hext : Extends t (apply (.addUser r) t) := extends_addUser hnone
    have hrows : (apply (.addUser r) t).users.rows = t.users.rows ++ [r] := Table.rows_insert hnone
    rw [hview]
    refine ⟨.one body r hb hr hnone hfree hid hemail rfl, hext, .done _ ⟨?_, ?_⟩, ?_, ?_, ?_⟩
    · rintro a ⟨⟩
    · rintro body' a ⟨⟩
      refine ⟨r, ?_, rfl⟩
      show (t.users.insert r).get? r.id = some r
      rw [Table.get?_insert hnone, if_pos rfl]
    · -- the address was free
      have hne := Tables.byEmail?_eq_none_iff.1 hfree
      intro r₁ h₁ r₂ h₂ he
      rw [hrows, List.mem_append, List.mem_singleton] at h₁ h₂
      rcases h₁ with h₁ | rfl <;> rcases h₂ with h₂ | rfl
      · exact hs.unique r₁ h₁ r₂ h₂ he
      · exact absurd he (hne r₁ h₁)
      · exact absurd he.symm (hne r₂ h₂)
      · rfl
    · intro r' hr'
      rw [hrows, List.mem_append, List.mem_singleton] at hr'
      rcases hr' with hr' | rfl
      · exact hs.registered r' hr'
      · exact ⟨body, hb, hr⟩
    · intro r' hr'
      obtain ⟨email, hv⟩ := hs.vouched r' hr'
      exact ⟨email, hv.mono hext⟩

end Steps

/-- A transaction goes on as before when others commit what it does not own. -/
theorem Stage.keep {q : Process} (h : Stage E t c') (hj : Joined E t t' c q)
    (hext : Extends t t') (hdisj : c.held.Disjoint c'.held) : Stage E t' c' := by
  cases h with
  | quiet hw hc => exact .quiet (hw.mono hext) (hc.mono hext)
  | registering body f hb he hf hp hw => exact .registering body f hb he hf hp hw
  | registered body r hb hr hp hw hid hemail hnone hfree =>
    cases hj with
    | none _ husers _ =>
      refine .registered body r hb hr hp hw hid hemail (husers ▸ hnone) ?_
      exact (congrArg (fun users => List.find? _ (Table.rows users)) husers).trans hfree
    | one body' r' _ _ hnone' _ hid' hemail' ht' =>
      -- the other user has another id and another address
      have hne : r'.id ≠ r.id := fun heq => hdisj hid' (heq ▸ hid)
      have hne' : r'.email ≠ r.email := fun heq => hdisj hemail' (heq ▸ hemail)
      subst ht'
      refine .registered body r hb hr hp hw hid hemail ?_ ?_
      · show (t.users.insert r').get? r.id = none
        rw [Table.get?_insert hnone', if_neg hne, hnone]
      · refine Tables.byEmail?_eq_none_iff.2 fun x hx => ?_
        rcases Table.mem_rows_insert.1 hx with hx | ⟨rfl, -⟩
        · exact Tables.byEmail?_eq_none_iff.1 hfree x hx
        · exact hne'

/-! ### The service -/

/-- Registrations and logins with the credentials of the setting, refreshes with anything. -/
def accountRules (E : Setting) : World.Rules db Draw Empty Reply where
  start p := (∃ body ∈ E.regs, isEmail body.email ∧ p = register E.bcrypt body) ∨
    (∃ body ∈ E.logins, p = login E.bcrypt body) ∨ ∃ token, p = refresh token
  draw _ f := f ∈ E.draws

/-- The service, from empty tables. -/
def accounts (E : Setting) : LTS State (World.Label db Draw Empty Reply) :=
  World.lts (accountRules E) (· = ⟨.empty, .empty⟩)

variable {w w' : State} {l : World.Label db Draw Empty Reply}

/-- A transaction that begins. -/
theorem Good.begin {d : Draw → Tx db Process} {e : Err → Process}
    (h : Good E t (.txn d e)) {f : Draw} (hf : f ∈ E.draws) :
    Stage E t (.start (d f)) ∧ Handles E e := by
  generalize hp : Proc.txn d e = p at h
  cases h with
  | register body hb he =>
    cases hp
    exact ⟨.quiet tokenWrites_nil (.findUser body f hb he), handles_registerError body⟩
  | insertUser body hb he =>
    cases hp
    exact ⟨.registering body f hb he hf rfl rfl, handles_registerError body⟩
  | login body hb =>
    cases hp
    exact ⟨.quiet tokenWrites_nil (.credentials body f hb), handles_loginError body⟩
  | issue body u email hv =>
    cases hp
    exact ⟨.quiet tokenWrites_nil (.issue body u email f hf hv), handles_loginError body⟩
  | refresh token =>
    cases hp
    exact ⟨.quiet tokenWrites_nil (.refresh token f hf), handles_refreshError token⟩
  | done reply _ => cases hp

/-- The tables are sound, and every process and open transaction is at one of its points. -/
theorem accounts_invariant (h : (accounts E).Reachable w) :
    Sound E w.db ∧ ∀ s, some s ∈ w.slots → s.Sat (Good E)
      (fun t c e => Stage E t c ∧ Handles E e) w.db := by
  refine World.invariant (Sound E) (Good E)
    (fun t c e => Stage E t c ∧ Handles E e) ?_ ?_ ?_ ?_ ?_ ?_ ?_ h
  · rintro t rfl
    exact ⟨fun r hr => absurd hr List.not_mem_nil, fun r hr => absurd hr List.not_mem_nil,
      fun r hr => absurd hr List.not_mem_nil⟩
  · rintro t p - (⟨body, hb, he, rfl⟩ | ⟨body, hb, rfl⟩ | ⟨token, rfl⟩)
    · exact .register body hb he
    · exact .login body hb
    · exact .refresh token
  · exact fun t f d e _ hf hp => hp.begin hf
  · exact fun t o => o.elim
  · exact fun t c c' e hs hK _ hn => ⟨hK.1.go hs hn, hK.2⟩
  · intro t c e p hs hK hn
    obtain ⟨hj, hext, hp, hs'⟩ := hK.1.commit hs hn
    exact ⟨hs', hp, fun p' hp' => hp'.mono hext,
      fun c' e' hdisj hK' => ⟨hK'.1.keep hj hext hdisj, hK'.2⟩⟩
  · exact fun t c e x _ hK _ => (hK.2 x).2 t

/-- A user is found under its address. -/
theorem Sound.byEmail? {user : UserRow} (hs : Sound E t) (hu : user ∈ t.users.rows)
    (he : email = user.email) : t.byEmail? email = some user := by
  cases hfind : t.byEmail? email with
  | none => exact absurd he.symm (Tables.byEmail?_eq_none_iff.1 hfind user hu)
  | some r =>
    have hfind' : t.users.rows.find? (fun r => r.email = email) = some r := hfind
    have hr : r.email = email := by simpa using List.find?_some hfind'
    rw [hs.unique r (List.mem_of_find?_eq_some hfind') user hu (hr.trans he)]

/-- How many users have an address. -/
def usersWith (t : Tables) (email : String) : ℕ := t.users.rows.countP fun r => r.email = email

theorem Sound.usersWith_le (hs : Sound E t) (email : String) : usersWith t email ≤ 1 := by
  by_cases hex : ∃ r ∈ t.users.rows, r.email = email
  · obtain ⟨r, hr, he⟩ := hex
    -- a user with the address is this one
    have hcount : usersWith t email =
        t.users.rows.countP fun r' => decide (r'.id = r.id) && true := by
      refine List.countP_congr fun r' hr' => ?_
      simp only [decide_eq_true_eq, Bool.and_true]
      refine ⟨fun he' => ?_, fun hid => ?_⟩
      · rw [hs.unique r' hr' r hr (he'.trans he.symm)]
      · have hget : t.users.get? r.id = some r' := hid ▸ Table.get?_of_mem hr'
        rw [Option.some.inj (hget.symm.trans (Table.get?_of_mem hr)), he]
    rw [hcount, Table.countP_key r.id fun _ => true]
    split_ifs <;> decide
  · rw [usersWith, List.countP_eq_zero.2 fun r hr => by simpa using fun he => hex ⟨r, hr, he⟩]
    exact Nat.zero_le _

theorem counts_registers (hp : Unregistered p) (email : String) :
    counts (Reply.registers email) p = 0 := by
  cases p with
  | done reply => exact if_neg (by simp [hp reply email rfl])
  | call o k => exact o.elim
  | txn d e => rfl

/-- A process ends with a registration only when a user joins. -/
theorem step_registers (h : (accounts E).Reachable w)
    (hst : (accounts E).step w l w') (email : String) :
    answered (Reply.registers email) w' + usersWith w.db email ≤
      answered (Reply.registers email) w + usersWith w'.db email := by
  obtain ⟨hs, hslots⟩ := accounts_invariant h
  -- an open transaction ends with `q`
  have ends : ∀ {i c e}, w.slots[i]? = some (some (.busy c e)) → ∀ (q : Process) (t : Tables),
      answered (Reply.registers email) ⟨t, w.slots.set i (some (.idle q)), w.calls⟩ =
        answered (Reply.registers email) w + counts (Reply.registers email) q := by
    intro i c e hi q t
    rw [answered, countP_set_of_some hi rfl, answered]
    cases q <;> rfl
  cases World.step_cases hst with
  | start hp =>
    refine Nat.add_le_add_right (le_of_eq ?_) _
    rcases hp with ⟨body, -, -, rfl⟩ | ⟨body, -, rfl⟩ | ⟨token, rfl⟩ <;>
      simp [answered, List.countP_append, register, login, refresh]
  | «begin» _ hi => exact Nat.add_le_add_right (le_of_eq (countP_set_of_some hi rfl)) _
  | @call i o k hi => exact o.elim
  | go hi _ _ _ => exact Nat.add_le_add_right (le_of_eq (countP_set_of_some hi rfl)) _
  | commit hi hn =>
    obtain ⟨hj, -, -, -⟩ := (hslots _ (List.mem_of_getElem? hi)).1.commit hs hn
    rw [ends hi]
    cases hj with
    | none q husers hun =>
      rw [counts_registers hun, usersWith, usersWith, husers, Nat.add_zero]
    | one body r hb hr hnone hfree _ _ ht' =>
      have hcount := Table.countP_insert (r := r) hnone fun r => r.email = email
      rw [ht', usersWith, usersWith, apply, hcount]
      simp only [counts, Reply.registers, decide_eq_true_eq]
      omega
  | abort hi hn =>
    rw [ends hi, counts_registers ((hslots _ (List.mem_of_getElem? hi)).2 _).1, Nat.add_zero]
  | @kill i _ =>
    refine Nat.add_le_add_right ?_ _
    cases hi : w.slots[i]? with
    | none =>
      rw [answered, List.set_eq_of_length_le (List.getElem?_eq_none_iff.1 hi)]
      exact Nat.le_refl _
    | some s =>
      rw [answered, answered]
      exact le_of_add_le_left (le_of_eq (countP_set_add _ hi))

/-- **Accounts are sound.**  In every reachable state, whatever has been interleaved and killed: no
two users have the same address, and of all registrations of an address at most one has succeeded;
every user comes from a registration, with its address and with a hash of its password; and every
access token that a login or a refresh has handed out is that of a user, under the address of that
user, whose password has been given in a login. -/
theorem accounts_sound (h : (accounts E).Reachable w) :
    (∀ r ∈ w.db.users.rows, ∀ r' ∈ w.db.users.rows, r.email = r'.email → r = r') ∧
    (∀ email, answered (Reply.registers email) w ≤ 1) ∧
    (∀ r ∈ w.db.users.rows, ∃ body ∈ E.regs, body.email = r.email ∧ ∃ salt,
      varchar 255 (E.bcrypt.hashPassword salt body.password) = some r.passwordHash) ∧
    ∀ reply a, some (.idle (.done reply)) ∈ w.slots → reply.granted = some a →
      ∃ user ∈ w.db.users.rows,
        (∃ f ∈ E.draws, a.accessToken = createAccessToken user.id user.email f.now) ∧
        ∃ body ∈ E.logins, Authenticates E.bcrypt w.db body user := by
  obtain ⟨hs, hslots⟩ := accounts_invariant h
  refine ⟨hs.unique, fun email => ?_, fun r hr => ?_, fun reply a hm ha => ?_⟩
  · -- every registration has brought a user
    have hmain : (accounts E).Reachable w ∧
        answered (Reply.registers email) w ≤ usersWith w.db email := by
      refine h.invariant (I := fun w => _ ∧ answered _ w ≤ usersWith w.db email) ?_ ?_
      · rintro _ ⟨t, ht, rfl⟩
        exact ⟨.init ⟨t, ht, rfl⟩, Nat.zero_le _⟩
      · rintro w l w' ⟨hr, hI⟩ hst
        have hstep := step_registers hr hst email
        exact ⟨hr.tail hst, by omega⟩
    exact hmain.2.trans (hs.usersWith_le email)
  · obtain ⟨body, hb, he, f, -, -, hhash⟩ := hs.registered r hr
    exact ⟨body, hb, he, f.salt, hhash⟩
  · have hgood : Good E w.db (.done reply) := hslots _ hm
    cases hgood with
    | done _ htrue =>
      obtain ⟨u, email, ⟨user, hu, rfl, body, hb, hbe, hv⟩, hf⟩ := htrue.granted a ha
      obtain rfl : user.id = u := Table.key_of_get? hu
      exact ⟨user, Table.mem_of_get? hu, hf, body, hb, hs.byEmail? (Table.mem_of_get? hu) hbe, hv⟩

/-- Two registrations find the address free; the one that inserts first is the user that then logs
in. -/
theorem accounts_sound_race :
    let mine : Credentials := ⟨"a@b.c", "pw"⟩
    let theirs : Credentials := ⟨"a@b.c", "other"⟩
    let E : Setting := ⟨⟨fun salt password => salt ++ password, fun password hash =>
      hash = "$" ++ password⟩, {mine, theirs}, {mine}, Set.univ⟩
    let run : List (World.Label db Draw Empty Reply) :=
      [.start (register E.bcrypt mine), .start (register E.bcrypt theirs), .begin 0 { id := 0 },
        .step 0, .begin 1 { id := 0 }, .step 1, .step 1, .step 0, .begin 0 { id := 1, salt := "$" },
        .begin 1 { id := 2, salt := "$" }, .step 0, .step 0, .step 1, .start (login E.bcrypt mine),
        .begin 2 { id := 0 }, .step 2, .step 2, .begin 2 { id := 10, token := "t1", now := 5 },
        .step 2, .step 2]
    ∃ w, (accounts E).Run (World.idle ⟨.empty, .empty⟩) run w ∧
      answered (Reply.registers "a@b.c") w = 1 ∧ answered (Reply.loginOf 1) w = 1 ∧
      ∀ reply a, some (.idle (.done reply)) ∈ w.slots → reply.granted = some a →
        ∃ user ∈ w.db.users.rows,
          (∃ f ∈ E.draws, a.accessToken = createAccessToken user.id user.email f.now) ∧
          ∃ body ∈ E.logins, Authenticates E.bcrypt w.db body user := by
  intro mine theirs E run
  have hrun : (LTS.runAct (World.act (S := db)) (World.idle ⟨.empty, .empty⟩) run).map
      (fun w => (decide (0 < answered (Reply.registers "a@b.c") w),
        answered (Reply.loginOf 1) w)) = some (true, 1) := by decide +kernel
  obtain ⟨w, hw, hobs⟩ := Option.map_eq_some_iff.1 hrun
  obtain ⟨hpos, hlogin⟩ := Prod.mk.inj hobs
  have hr : (accounts E).Run (World.idle ⟨.empty, .empty⟩) run w := by
    refine LTS.run_of_runAct (fun w l hl => ?_) hw
    cases l with
    | start p =>
      simp only [run, List.mem_cons, List.not_mem_nil, or_false, reduceCtorEq, false_or,
        World.Label.start.injEq] at hl
      rcases hl with rfl | rfl | rfl
      · exact .inl ⟨mine, .inl rfl, by decide, rfl⟩
      · exact .inl ⟨theirs, .inr rfl, by decide, rfl⟩
      · exact .inr (.inl ⟨mine, rfl, rfl⟩)
    | «begin» i f => exact Set.mem_univ f
    | step i => exact fun _ _ _ => trivial
    | kill i => trivial
  obtain ⟨-, hone, -, hgranted⟩ := accounts_sound ⟨_, run, ⟨_, rfl, rfl⟩, hr⟩
  exact ⟨w, hr, le_antisymm (hone _) (of_decide_eq_true hpos), hlogin, hgranted⟩

end Auth

end FoodFlow
