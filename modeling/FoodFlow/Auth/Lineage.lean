import FoodFlow.Auth.Rotation
import FoodFlow.Sql.Node
import Mathlib.Data.Set.Function

/-!
# Session lineage

Registrations, logins and refreshes made one at a time, with the clock advancing in between.  Which
refresh tokens are worth something is said by the requests answered so far, and it is what
`refresh_tokens` holds:

* `Issued`, `Exchanged`, `Chain` : what the answers say of a token;
* `Tracked` : the rows are those of the tokens issued and not exchanged yet;
* `session_lineage` : **a refresh succeeds just when its token has been issued, has not been
  exchanged and is at most seven days old; it is then a session of the user whose login started the
  chain of exchanges.**

SHA-256 is taken to be injective on the set `T` of the tokens that occur.
-/

namespace FoodFlow

namespace Auth

/-! ### One request -/

/-- The user that logs in with the credentials. -/
def Authenticates (B : Bcrypt) (t : Tables) (body : Credentials) (user : UserRow) : Prop :=
  t.byEmail? body.email = some user ∧ B.verifyPassword body.password user.passwordHash = true

/-- The tokens that an answer hands out. -/
def Reply.granted : Reply → Option AuthResponse
  | .login _ (.ok a) => some a
  | .refresh _ (.ok a) => some a
  | _ => none

/-- What a request, a refresh being one with a token of `T`, does to the tables when it is served
alone with draws allowed by `Q`. -/
inductive Served (B : Bcrypt) (T : Set String) (Q : Tables → Draw → Prop) (t : Tables) :
    Tables → Reply → Prop
  /-- No token has been issued. -/
  | quiet {t' reply} : reply.granted = none → t'.refreshTokens = t.refreshTokens →
      (∀ body user, Authenticates B t body user → Authenticates B t' body user) →
      Served B T Q t t' reply
  | login (body : Credentials) (user : UserRow) (f : Draw) : Q t f →
      Authenticates B t body user → t.refreshTokens.get? f.id = none →
      Served B T Q t { t with refreshTokens := t.refreshTokens.insert (newToken user.id f) }
        (.login body (.ok ⟨createAccessToken user.id user.email f.now, f.token, "bearer"⟩))
  | refresh (token : String) (row : Presented) (f : Draw) : token ∈ T → Q t f →
      row ∈ t.presented (hashRefreshToken token) → f.now ≤ row.expiresAt →
      (t.refreshTokens.erase row.id).get? f.id = none →
      Served B T Q t
        { t with refreshTokens := (t.refreshTokens.erase row.id).insert (newToken row.userId f) }
        (.refresh token (.ok ⟨createAccessToken row.userId row.email f.now, f.token, "bearer"⟩))

variable {B : Bcrypt} {T : Set String} {Q : Tables → Draw → Prop} {t t' : Tables} {reply : Reply}
  {os : List Empty} {body : Credentials} {user : UserRow} {token : String} {f : Draw}

/-- An authenticated user is stored. -/
theorem Authenticates.get? (h : Authenticates B t body user) : t.users.get? user.id = some user :=
  Table.get?_of_mem (List.mem_of_find?_eq_some h.1)

theorem Authenticates.unique {user' : UserRow} (h : Authenticates B t body user)
    (h' : Authenticates B t body user') : user' = user :=
  Option.some.inj (h'.1.symm.trans h.1)

/-- A further user takes nothing from those that are there. -/
theorem Authenticates.insert (h : Authenticates B t body user) (r : UserRow) :
    Authenticates B { t with users := t.users.insert r } body user := by
  refine ⟨?_, h.2⟩
  cases hr : t.users.get? r.id with
  | some r' => simpa [Tables.byEmail?, Table.insert_of_get? hr] using h.1
  | none =>
    have hfind : t.users.rows.find? (fun r => r.email = body.email) = some user := h.1
    simp [Tables.byEmail?, Table.rows_insert hr, List.find?_append, hfind]

section Eval

variable {α : Type} {saved : List Tables}

theorem eval_exec (q : Stmt) (k : q.Res → Tx db α) :
    ((@Tx.exec db q).bind k).eval t saved = match exec q t with
      | .error e => .failed e
      | .ok (r, ws) => (k r).eval (db.applyAll ws t) saved := by
  cases h : exec q t with
  | error e => exact Tx.eval_stmt_error (S := db) h k saved
  | ok v => exact Tx.eval_stmt_ok (S := db) h k saved

theorem eval_selectUserId (email : String) (k : Option UUID → Tx db α) :
    ((selectUserId email).bind k).eval t saved =
      (k ((t.byEmail? email).map UserRow.id)).eval t saved :=
  rfl

theorem eval_selectUser (email : String) (k : Option UserRow → Tx db α) :
    ((selectUser email).bind k).eval t saved = (k (t.byEmail? email)).eval t saved :=
  rfl

theorem eval_selectRefreshToken (tokenHash : String) (pick : ℕ) (k : Option Presented → Tx db α) :
    ((selectRefreshToken tokenHash pick).bind k).eval t saved =
      (k (t.presented tokenHash)[pick % (t.presented tokenHash).length]?).eval t saved :=
  rfl

theorem eval_insertUser (email passwordHash : String) (id : UUID) (now : Time)
    (k : UserRow → Tx db α) :
    (∃ e, ((insertUser email passwordHash id now).bind k).eval t saved = .failed e) ∨
      ∃ r, ((insertUser email passwordHash id now).bind k).eval t saved =
        (k r).eval { t with users := t.users.insert r } saved := by
  have he : ((insertUser email passwordHash id now).bind k).eval t saved = _ := eval_exec _ _
  rw [he]
  simp only [exec]
  cases varchar 255 email with
  | none => exact .inl ⟨_, rfl⟩
  | some email =>
    cases varchar 255 passwordHash with
    | none => exact .inl ⟨_, rfl⟩
    | some passwordHash =>
      simp only
      split_ifs
      · exact .inl ⟨_, rfl⟩
      · exact .inl ⟨_, rfl⟩
      · exact .inr ⟨_, rfl⟩

/-- The insertion of a token under a fresh identifier, for a user that is stored. -/
theorem eval_insertRefreshToken {u : UUID} (token : String) (expiresAt : Time) {id : UUID}
    (hfree : t.refreshTokens.get? id = none) (hu : t.users.get? u = some user)
    (k : Unit → Tx db α) :
    ((insertRefreshToken u (hashRefreshToken token) expiresAt id).bind k).eval t saved =
      (k ()).eval { t with refreshTokens :=
        t.refreshTokens.insert ⟨id, u, hashRefreshToken token, expiresAt⟩ } saved := by
  have he : ((insertRefreshToken u (hashRefreshToken token) expiresAt id).bind k).eval t saved
    = _ := eval_exec _ _
  rw [he]
  simp only [exec, varchar_hashRefreshToken, hfree, hu]
  rfl

theorem eval_deleteRefreshToken {id : UUID} {r : RefreshToken}
    (hr : t.refreshTokens.get? id = some r) (k : Unit → Tx db α) :
    ((deleteRefreshToken id).bind k).eval t saved =
      (k ()).eval { t with refreshTokens := t.refreshTokens.erase id } saved := by
  have he : ((deleteRefreshToken id).bind k).eval t saved = _ := eval_exec _ _
  rw [he]
  simp only [exec, hr]
  rfl

end Eval

/-- Served alone, a registration issues no token. -/
theorem register_served (h : Proc.Finishes Q t (register B body) t' reply os) :
    Served B T Q t t' reply := by
  obtain ⟨f, -, ⟨p, t₁, hrun, h⟩ | ⟨x, -, h⟩⟩ := h.of_txn
  · rw [Tx.run, findUserTx, Tx.bind_def, eval_selectUserId] at hrun
    cases hb : t.byEmail? body.email with
    | some user =>
      rw [hb] at hrun
      cases hrun
      obtain ⟨rfl, rfl, -⟩ := h.of_done
      exact .quiet rfl rfl fun _ _ h => h
    | none =>
      rw [hb] at hrun
      cases hrun
      obtain ⟨f, -, ⟨p, t₁, hrun, h⟩ | ⟨x, -, h⟩⟩ := h.of_txn
      · rw [Tx.run, insertUserTx, Tx.bind_def] at hrun
        obtain ⟨e, he⟩ | ⟨r, he⟩ := eval_insertUser body.email (B.hashPassword f.salt body.password)
          f.id f.now _
        · rw [he] at hrun
          cases hrun
        · rw [he] at hrun
          cases hrun
          obtain ⟨rfl, rfl, -⟩ := h.of_done
          exact .quiet rfl rfl fun _ _ h => h.insert r
      · obtain ⟨rfl, rfl, -⟩ := h.of_done
        exact .quiet rfl rfl fun _ _ h => h
  · obtain ⟨rfl, rfl, -⟩ := h.of_done
    exact .quiet rfl rfl fun _ _ h => h

/-- Served alone, a login issues at most one token, to the user of the credentials. -/
theorem login_served (hQ : ∀ t f, Q t f → t.refreshTokens.get? f.id = none)
    (h : Proc.Finishes Q t (login B body) t' reply os) : Served B T Q t t' reply := by
  have failed : ∀ {d d' e reply os}, Proc.Finishes Q d (loginError body e) d' reply os →
      Served B T Q d d' reply := by
    intro d d' e reply os h
    obtain ⟨rfl, rfl, -⟩ := h.of_done
    exact .quiet rfl rfl fun _ _ h => h
  obtain ⟨f, -, ⟨p, t₁, hrun, h⟩ | ⟨x, -, h⟩⟩ := h.of_txn
  · rw [Tx.run, credentialsTx, Tx.bind_def, eval_selectUser] at hrun
    cases hrun
    cases hb : t.byEmail? body.email with
    | none =>
      rw [hb] at h
      exact failed h
    | some user =>
      rw [hb] at h
      simp only [authenticate] at h
      split_ifs at h with hverify
      · have hauth : Authenticates B t body user := ⟨hb, hverify⟩
        obtain ⟨f, hf, ⟨p, t₁, hrun, h⟩ | ⟨x, -, h⟩⟩ := h.of_txn
        · rw [Tx.run, issueTx, Tx.bind_def,
            eval_insertRefreshToken _ _ (hQ t f hf) hauth.get?] at hrun
          cases hrun
          obtain ⟨rfl, rfl, -⟩ := h.of_done
          exact .login body user f hf hauth (hQ t f hf)
        · exact failed h
      · exact failed h
  · exact failed h

/-- What the transaction of a refresh does, alone. -/
theorem run_refreshTx (token : String) (hfree : t.refreshTokens.get? f.id = none) :
    (∃ row ∈ t.presented (hashRefreshToken token), f.now ≤ row.expiresAt ∧
      (refreshTx token f).run t = .ok (refreshed token row f,
        { t with refreshTokens :=
          (t.refreshTokens.erase row.id).insert (newToken row.userId f) })) ∨
    ∃ x, (refreshTx token f).run t = .error x ∧ (t.presented (hashRefreshToken token) = [] ∨
      ∃ row ∈ t.presented (hashRefreshToken token), row.expiresAt < f.now) := by
  rw [Tx.run, refreshTx, Tx.bind_def, eval_selectRefreshToken]
  generalize hrows : t.presented (hashRefreshToken token) = rows
  cases hrow : rows[f.pick % rows.length]? with
  | none =>
    refine .inr ⟨_, rfl, .inl ?_⟩
    -- the index is in range unless there is no row
    by_contra hne
    have hlen : f.pick % rows.length < rows.length :=
      Nat.mod_lt _ (List.length_pos_of_ne_nil hne)
    rw [List.getElem?_eq_none_iff] at hrow
    omega
  | some row =>
    have hmem := List.mem_of_getElem? hrow
    obtain ⟨r, hr, -, u, hu, rfl⟩ := mem_presented_iff.1 (hrows ▸ hmem)
    have hget := Table.get?_of_mem hr
    simp only [redeem]
    split_ifs with hexp
    · refine .inr ⟨.http 401 "Refresh token expired", ?_, .inr ⟨_, hmem, hexp⟩⟩
      rw [expire, Tx.bind_def, eval_deleteRefreshToken hget]
      rfl
    · refine .inl ⟨_, hmem, not_lt.1 hexp, ?_⟩
      have hfree' : (t.refreshTokens.erase r.id).get? f.id = none := by
        rw [Table.get?_erase, hfree, ite_self]
      rw [rotate, Tx.bind_def, eval_deleteRefreshToken hget, reissue, Tx.bind_def]
      exact congrArg Tx.Outcome.toExcept
        (eval_insertRefreshToken (t := { t with refreshTokens := t.refreshTokens.erase r.id })
          _ _ hfree' hu _)

/-- Served alone, a refresh that is not refused exchanges the token. -/
theorem refresh_served (ht : token ∈ T) (hQ : ∀ t f, Q t f → t.refreshTokens.get? f.id = none)
    (h : Proc.Finishes Q t (refresh token) t' reply os) : Served B T Q t t' reply := by
  obtain ⟨f, hf, h⟩ := h.of_txn
  have hfree := hQ t f hf
  obtain ⟨row, hrow, hle, hrun⟩ | ⟨x, hrun, -⟩ := run_refreshTx token hfree
  · rw [hrun] at h
    obtain ⟨p, t₁, hp, h⟩ | ⟨x, ⟨⟩, -⟩ := h
    cases hp
    obtain ⟨rfl, rfl, -⟩ := h.of_done
    refine .refresh token row f ht hf hrow hle ?_
    rw [Table.get?_erase, hfree, ite_self]
  · rw [hrun] at h
    obtain ⟨p, t₁, ⟨⟩, -⟩ | ⟨x, -, h⟩ := h
    obtain ⟨rfl, rfl, -⟩ := h.of_done
    exact .quiet rfl rfl fun _ _ h => h

/-! ### What the answers say of a token -/

/-- A request that has been answered, and when. -/
structure Answer where
  reply : Reply
  time : Time

/-- A login or a refresh has issued the token at the time `time`. -/
def Issued (log : List Answer) (token : String) (time : Time) : Prop :=
  ∃ x ∈ log, ∃ a, x.reply.granted = some a ∧ a.refreshToken = token ∧ x.time = time

/-- A refresh has exchanged the token. -/
def Exchanged (log : List Answer) (token : String) : Prop :=
  ∃ x ∈ log, x.reply.redeems token = true

/-- A chain of exchanges that a login with the credentials has started leads to the token. -/
inductive Chain (log : List Answer) (body : Credentials) : String → Prop
  | login {a time} : ⟨.login body (.ok a), time⟩ ∈ log → Chain log body a.refreshToken
  | exchange {token a time} : Chain log body token → ⟨.refresh token (.ok a), time⟩ ∈ log →
      Chain log body a.refreshToken

variable {log log' : List Answer} {x : Answer} {time : Time}

theorem Reply.redeems_iff : reply.redeems token = true ↔ ∃ a, reply = .refresh token (.ok a) := by
  cases reply with
  | register body result => simp [Reply.redeems]
  | login body result => simp [Reply.redeems]
  | refresh token' result => cases result <;> simp [Reply.redeems]

theorem issued_append :
    Issued (log ++ [x]) token time ↔ Issued log token time ∨
      ∃ a, x.reply.granted = some a ∧ a.refreshToken = token ∧ x.time = time := by
  simp [Issued, or_and_right, exists_or]

theorem exchanged_append :
    Exchanged (log ++ [x]) token ↔ Exchanged log token ∨ x.reply.redeems token = true := by
  simp [Exchanged, or_and_right, exists_or]

theorem Chain.mono (hsub : log ⊆ log') (h : Chain log body token) : Chain log' body token := by
  induction h with
  | login hx => exact .login (hsub hx)
  | exchange _ hx ih => exact .exchange ih (hsub hx)

theorem Chain.issued (h : Chain log body token) : ∃ time, Issued log token time := by
  cases h with
  | login hx => exact ⟨_, _, hx, _, rfl, rfl, rfl⟩
  | exchange _ hx => exact ⟨_, _, hx, _, rfl, rfl, rfl⟩

/-- Where a chain leads after one more answer, which does not issue a token again and exchanges
one that has been issued. -/
theorem Chain.of_append (hex : ∀ token, Exchanged log token → ∃ time, Issued log token time)
    (hnew : ∀ a, x.reply.granted = some a → ∀ time, ¬ Issued log a.refreshToken time)
    (hold : ∀ token, x.reply.redeems token = true → ∃ time, Issued log token time)
    (h : Chain (log ++ [x]) body token) : Chain log body token ∨
      ∃ a, x.reply.granted = some a ∧ a.refreshToken = token ∧ (x.reply = .login body (.ok a) ∨
        ∃ token', x.reply = .refresh token' (.ok a) ∧ Chain log body token') := by
  induction h with
  | login hx =>
    rcases List.mem_append.1 hx with hx | hx
    · exact .inl (.login hx)
    · obtain rfl := List.mem_singleton.1 hx
      exact .inr ⟨_, rfl, rfl, .inl rfl⟩
  | @exchange token a time hchain hx ih =>
    -- the token exchanged has been issued before, so it is not the one that the answer issues
    have hissued : ∃ time, Issued log token time := by
      rcases List.mem_append.1 hx with hx | hx
      · exact hex _ ⟨_, hx, Reply.redeems_iff.2 ⟨a, rfl⟩⟩
      · obtain rfl := List.mem_singleton.1 hx
        exact hold _ (Reply.redeems_iff.2 ⟨a, rfl⟩)
    have hfrom : Chain log body token := by
      refine ih.resolve_right ?_
      rintro ⟨a', ha', rfl, -⟩
      obtain ⟨time, hi⟩ := hissued
      exact hnew a' ha' time hi
    rcases List.mem_append.1 hx with hx | hx
    · exact .inl (.exchange hfrom hx)
    · obtain rfl := List.mem_singleton.1 hx
      exact .inr ⟨_, rfl, rfl, .inr ⟨_, rfl, hfrom⟩⟩

/-! ### Requests one at a time -/

/-- The requests of the clients. -/
inductive Request where
  | register (body : Credentials)
  | login (body : Credentials)
  | refresh (token : String)

def Request.process (B : Bcrypt) : Request → Process
  | .register body => Auth.register B body
  | .login body => Auth.login B body
  | .refresh token => Auth.refresh token

/-- The tables, the time, and the requests answered so far. -/
structure Site where
  tables : Tables
  now : Time
  log : List Answer

/-- What happens: time passes, or a request is served. -/
inductive Event where
  | advance (n : ℕ)
  | request (q : Request)

/-- What a request may draw: the present time, a token that has not been issued yet, and a fresh
identifier. -/
def Draws (T : Set String) (s : Site) (t : Tables) (f : Draw) : Prop :=
  f.now = s.now ∧ f.token ∈ T ∧ (∀ time, ¬ Issued s.log f.token time) ∧
    t.refreshTokens.get? f.id = none

/-- The service, with requests served one at a time; `T` holds the tokens that occur. -/
def requests (B : Bcrypt) (T : Set String) : LTS Site Event where
  init s := s.tables.refreshTokens = .empty ∧ s.log = []
  step s l s' := match l with
    | .advance n => s' = { s with now := s.now + n }
    | .request q => (∀ token, q = .refresh token → token ∈ T) ∧ ∃ reply,
        Proc.Finishes (Draws T s) s.tables (q.process B) s'.tables reply [] ∧
        s'.now = s.now ∧ s'.log = s.log ++ [⟨reply, s.now⟩]

/-- The rows of `refresh_tokens` are those of the tokens issued and not exchanged. -/
structure Tracked (B : Bcrypt) (T : Set String) (s : Site) : Prop where
  issued : ∀ token time, Issued s.log token time → token ∈ T
  exchanged : ∀ token, Exchanged s.log token → ∃ time, Issued s.log token time
  /-- A token has one origin. -/
  chain : ∀ token body body', Chain s.log body token → Chain s.log body' token → body' = body
  stored : ∀ token time, Issued s.log token time → ¬ Exchanged s.log token →
    ∃ r ∈ s.tables.refreshTokens.rows, r.tokenHash = hashRefreshToken token ∧
      r.expiresAt = time + refreshTokenExpire
  row : ∀ r ∈ s.tables.refreshTokens.rows, ∃ token time body user,
    Issued s.log token time ∧ ¬ Exchanged s.log token ∧ Chain s.log body token ∧
    Authenticates B s.tables body user ∧
    r.userId = user.id ∧ r.tokenHash = hashRefreshToken token ∧
    r.expiresAt = time + refreshTokenExpire
  unique : ∀ r ∈ s.tables.refreshTokens.rows, ∀ r' ∈ s.tables.refreshTokens.rows,
    r.tokenHash = r'.tokenHash → r' = r

variable {s s' : Site}

/-- What is tracked of the row with the hash of a token. -/
theorem Tracked.of_hash (hT : Set.InjOn hashRefreshToken T) (h : Tracked B T s) (ht : token ∈ T)
    {r : RefreshToken} (hr : r ∈ s.tables.refreshTokens.rows)
    (hhash : r.tokenHash = hashRefreshToken token) : ∃ time body user,
      Issued s.log token time ∧ ¬ Exchanged s.log token ∧ Chain s.log body token ∧
      Authenticates B s.tables body user ∧ r.userId = user.id ∧
      r.expiresAt = time + refreshTokenExpire := by
  obtain ⟨token', time, body, user, hissued, hlive, hchain, hauth, huser, hhash', hexp⟩ :=
    h.row r hr
  obtain rfl := hT ht (h.issued _ _ hissued) (hhash.symm.trans hhash')
  exact ⟨time, body, user, hissued, hlive, hchain, hauth, huser, hexp⟩

/-- An answer that issues no token changes nothing of what is tracked. -/
theorem Tracked.quiet (h : Tracked B T s) (hlog : s'.log = s.log ++ [x])
    (hx : x.reply.granted = none)
    (hrows : s'.tables.refreshTokens = s.tables.refreshTokens)
    (husers : ∀ body user, Authenticates B s.tables body user →
      Authenticates B s'.tables body user) : Tracked B T s' := by
  have hredeems : ∀ token, ¬ x.reply.redeems token = true := by
    intro token hr
    obtain ⟨a, ha⟩ := Reply.redeems_iff.1 hr
    rw [ha] at hx
    cases hx
  have hi : ∀ {token time}, Issued s'.log token time ↔ Issued s.log token time := by
    intro token time
    rw [hlog, issued_append, hx]
    simp
  have he : ∀ {token}, Exchanged s'.log token ↔ Exchanged s.log token := by
    intro token
    rw [hlog, exchanged_append]
    simp [hredeems token]
  have hc : ∀ {body token}, Chain s'.log body token ↔ Chain s.log body token := by
    intro body token
    refine ⟨fun hc => ?_, fun hc => hc.mono (by rw [hlog]; exact List.subset_append_left _ _)⟩
    rw [hlog] at hc
    refine (hc.of_append h.exchanged (by simp [hx]) (by simp [hredeems])).resolve_right ?_
    simp [hx]
  constructor
  · simpa only [hi] using h.issued
  · simpa only [hi, he] using h.exchanged
  · simpa only [hc] using h.chain
  · simpa only [hi, he, hrows] using h.stored
  · intro r hr
    rw [hrows] at hr
    obtain ⟨token, time, body, user, h₁, h₂, h₃, h₄, h₅⟩ := h.row r hr
    exact ⟨token, time, body, user, hi.2 h₁, fun h => h₂ (he.1 h), hc.2 h₃, husers _ _ h₄, h₅⟩
  · simpa only [hrows] using h.unique

/-- The login at the start of a chain is unique, also once a further token has been issued. -/
theorem Tracked.chain_append (h : Tracked B T s) {a : AuthResponse}
    (hx : x.reply.granted = some a) (hfresh : ∀ time, ¬ Issued s.log a.refreshToken time)
    (hspent : ∀ token, x.reply.redeems token = true → ∃ time, Issued s.log token time)
    {b b' : Credentials} (hb : Chain (s.log ++ [x]) b token) (hb' : Chain (s.log ++ [x]) b' token) :
    b' = b := by
  have hold : ∀ {b token}, Chain s.log b token → a.refreshToken ≠ token := by
    rintro b _ hc rfl
    exact hc.issued.elim hfresh
  -- a chain is an old one, or ends with this answer
  have hof : ∀ {b}, Chain (s.log ++ [x]) b token → Chain s.log b token ∨ a.refreshToken = token ∧
      (x.reply = .login b (.ok a) ∨
        ∃ token', x.reply = .refresh token' (.ok a) ∧ Chain s.log b token') := by
    intro b hb
    obtain hb | ⟨a', ha', hb⟩ := hb.of_append h.exchanged (by simpa [hx] using hfresh) hspent
    · exact .inl hb
    · obtain rfl := Option.some.inj (hx.symm.trans ha')
      exact .inr hb
  obtain hc | ⟨heq, hc⟩ := hof hb
  · obtain hc' | ⟨heq, -⟩ := hof hb'
    · exact h.chain token b b' hc hc'
    · exact absurd heq (hold hc)
  · obtain hc' | ⟨-, hc'⟩ := hof hb'
    · exact absurd heq (hold hc')
    · obtain hc | ⟨token₁, hc, hc₁⟩ := hc
      · rw [hc] at hc'
        obtain hc' | ⟨_, hc', -⟩ := hc'
        · cases hc'
          rfl
        · cases hc'
      · rw [hc] at hc'
        obtain hc' | ⟨token₂, hc', hc₂⟩ := hc'
        · cases hc'
        · cases hc'
          exact h.chain _ b b' hc₁ hc₂

/-- An answer that issues a token, and may have exchanged another one. -/
theorem Tracked.grant (hT : Set.InjOn hashRefreshToken T) (h : Tracked B T s)
    (hlog : s'.log = s.log ++ [x]) {a : AuthResponse} (hx : x.reply.granted = some a)
    (hin : a.refreshToken ∈ T) (hfresh : ∀ time, ¬ Issued s.log a.refreshToken time)
    (hspent : ∀ token, x.reply.redeems token = true → ∃ time, Issued s.log token time)
    {n : RefreshToken} (hhash : n.tokenHash = hashRefreshToken a.refreshToken)
    (hexp : n.expiresAt = x.time + refreshTokenExpire)
    (hrows : ∀ r, r ∈ s'.tables.refreshTokens.rows ↔ (r ∈ s.tables.refreshTokens.rows ∧
      ∀ token, x.reply.redeems token = true → r.tokenHash ≠ hashRefreshToken token) ∨ r = n)
    (husers : s'.tables.users = s.tables.users)
    (hchain : Chain s'.log body a.refreshToken)
    (hauth : Authenticates B s.tables body user) (huser : n.userId = user.id) :
    Tracked B T s' := by
  have hi : ∀ {token time}, Issued s'.log token time ↔
      Issued s.log token time ∨ a.refreshToken = token ∧ x.time = time := by
    intro token time
    rw [hlog, issued_append, hx]
    simp
  have he : ∀ {token}, Exchanged s'.log token ↔
      Exchanged s.log token ∨ x.reply.redeems token = true := by
    intro token
    rw [hlog, exchanged_append]
  have husers : ∀ {body user}, Authenticates B s.tables body user →
      Authenticates B s'.tables body user := by
    intro body user hauth
    rwa [Authenticates, Tables.byEmail?, husers]
  have hsub : s.log ⊆ s'.log := by
    rw [hlog]
    exact List.subset_append_left _ _
  -- the new token has not been exchanged before, nor is it now
  have hlive : ¬ Exchanged s'.log a.refreshToken := by
    rintro hex
    obtain hex | hex := he.1 hex
    · exact (h.exchanged _ hex).elim hfresh
    · exact (hspent _ hex).elim hfresh
  have hne : ∀ r ∈ s.tables.refreshTokens.rows, r.tokenHash ≠ hashRefreshToken a.refreshToken := by
    intro r hr hr'
    obtain ⟨token, time, _, _, hissued, -, -, -, -, hhash, -⟩ := h.row r hr
    obtain rfl := hT (h.issued _ _ hissued) hin (hhash.symm.trans hr')
    exact hfresh time hissued
  constructor
  · rintro token time hissued
    obtain hissued | ⟨rfl, -⟩ := hi.1 hissued
    · exact h.issued token time hissued
    · exact hin
  · rintro token hex
    obtain ⟨time, hissued⟩ := (he.1 hex).elim (h.exchanged token) (hspent token)
    exact ⟨time, hi.2 (.inl hissued)⟩
  · intro token b b' hb hb'
    rw [hlog] at hb hb'
    exact h.chain_append hx hfresh hspent hb hb'
  · rintro token time hissued hex
    obtain hissued | ⟨rfl, rfl⟩ := hi.1 hissued
    · obtain ⟨r, hr, hhash, hexp⟩ := h.stored token time hissued fun hex' => hex (he.2 (.inl hex'))
      refine ⟨r, (hrows r).2 (.inl ⟨hr, fun token' hred heq => ?_⟩), hhash, hexp⟩
      -- the row is not that of the token that is exchanged
      obtain ⟨time', hissued'⟩ := hspent token' hred
      obtain rfl := hT (h.issued _ _ hissued) (h.issued _ _ hissued') (hhash.symm.trans heq)
      exact hex (he.2 (.inr hred))
    · exact ⟨n, (hrows n).2 (.inr rfl), hhash, hexp⟩
  · intro r hr
    obtain ⟨hr, hkept⟩ | rfl := (hrows r).1 hr
    · obtain ⟨token, time, body, user, hissued, hex, hchain, hauth, hr'⟩ := h.row r hr
      refine ⟨token, time, body, user, hi.2 (.inl hissued), fun hex' => ?_, hchain.mono hsub,
        husers hauth, hr'⟩
      exact (he.1 hex').elim hex fun hred => hkept token hred hr'.2.1
    · exact ⟨_, x.time, body, user, hi.2 (.inr ⟨rfl, rfl⟩), hlive, hchain, husers hauth, huser,
        hhash, hexp⟩
  · intro r hr r' hr' heq
    obtain ⟨hr, -⟩ | rfl := (hrows r).1 hr
    · obtain ⟨hr', -⟩ | rfl := (hrows r').1 hr'
      · exact h.unique r hr r' hr' heq
      · exact absurd (heq.trans hhash) (hne r hr)
    · obtain ⟨hr', -⟩ | rfl := (hrows r').1 hr'
      · exact absurd (heq.symm.trans hhash) (hne r' hr')
      · rfl

/-- A request is served, and its answer recorded. -/
theorem request_served {q : Request} (hst : (requests B T).step s (.request q) s') :
    ∃ reply, Served B T (Draws T s) s.tables s'.tables reply ∧ s'.now = s.now ∧
      s'.log = s.log ++ [⟨reply, s.now⟩] := by
  obtain ⟨hin, reply, hfin, hnow, hlog⟩ := hst
  have hfree : ∀ t f, Draws T s t f → t.refreshTokens.get? f.id = none := fun t f hf => hf.2.2.2
  refine ⟨reply, ?_, hnow, hlog⟩
  cases q with
  | register body => exact register_served hfin
  | login body => exact login_served hfree hfin
  | refresh token => exact refresh_served (hin token rfl) hfree hfin

/-- The tokens that an answer hands out have not been issued before. -/
theorem Served.fresh (h : Served B T (Draws T s) t t' reply) {a : AuthResponse}
    (ha : reply.granted = some a) : ∀ time, ¬ Issued s.log a.refreshToken time := by
  cases h with
  | quiet hgranted _ _ =>
    rw [hgranted] at ha
    cases ha
  | login body user f hf _ _ =>
    obtain rfl := Option.some.inj ha
    exact hf.2.2.1
  | refresh token row f _ hf _ _ _ =>
    obtain rfl := Option.some.inj ha
    exact hf.2.2.1

/-- What is tracked stays so. -/
theorem Tracked.step {l : Event} (hT : Set.InjOn hashRefreshToken T) (h : Tracked B T s)
    (hst : (requests B T).step s l s') : Tracked B T s' := by
  cases l with
  | advance n =>
    obtain rfl : s' = _ := hst
    exact ⟨h.issued, h.exchanged, h.chain, h.stored, h.row, h.unique⟩
  | request q =>
    obtain ⟨reply, hserved, -, hlog⟩ := request_served hst
    generalize ht' : s'.tables = t' at hserved
    cases hserved with
    | quiet hgranted hrows husers =>
      subst ht'
      exact h.quiet hlog hgranted hrows husers
    | login body user f hf hauth hfree =>
      obtain ⟨hnow, hin, hnew, -⟩ := hf
      refine h.grant (n := newToken user.id f) hT hlog rfl hin hnew ?_ rfl ?_ ?_ ?_ ?_ hauth rfl
      · rintro token ⟨⟩
      · exact congrArg (· + refreshTokenExpire) hnow
      · intro r
        rw [ht', Table.mem_rows_insert]
        simp [Reply.redeems, newToken, hfree]
      · rw [ht']
      · rw [hlog]
        exact .login (List.mem_append_right _ (List.mem_singleton_self _))
    | refresh token row f ht hf hrow hle hfree =>
      obtain ⟨hnow, hin, hnew, -⟩ := hf
      obtain ⟨r, hr, hhash, u, -, rfl⟩ := mem_presented_iff.1 hrow
      obtain ⟨time, body, user, hissued, -, hchain, hauth, huser, -⟩ := h.of_hash hT ht hr hhash
      refine h.grant (n := newToken r.userId f) hT hlog rfl hin hnew ?_ rfl ?_ ?_ ?_ ?_ hauth huser
      · rintro token' hred
        obtain rfl : token = token' := of_decide_eq_true hred
        exact ⟨time, hissued⟩
      · exact congrArg (· + refreshTokenExpire) hnow
      · -- the row of the token is the only one with its hash
        intro x
        have hx : x ∈ s.tables.refreshTokens.rows →
            (x.id ≠ r.id ↔ x.tokenHash ≠ hashRefreshToken token) := by
          intro hx
          refine not_congr ⟨fun hid => ?_, fun hh => ?_⟩
          · rw [List.inj_on_of_nodup_map s.tables.refreshTokens.nodup hx hr hid, hhash]
          · rw [h.unique r hr x hx (hhash.trans hh.symm)]
        rw [ht', Table.mem_rows_insert, Table.mem_rows_erase]
        refine or_congr (and_congr_right fun hx' => (hx hx').trans ?_) (and_iff_left hfree)
        simp [Reply.redeems]
      · rw [ht']
      · rw [hlog]
        exact .exchange (hchain.mono (List.subset_append_left _ _))
          (List.mem_append_right _ (List.mem_singleton_self _))

theorem requests_tracked (hT : Set.InjOn hashRefreshToken T) (h : (requests B T).Reachable s) :
    Tracked B T s := by
  refine h.invariant ?_ fun s l s' hI hst => hI.step hT hst
  rintro s ⟨hrows, hlog⟩
  have hissued : ∀ {token time}, ¬ Issued s.log token time := by
    intro token time
    simp [hlog, Issued]
  have hnorow : ∀ {r}, r ∉ s.tables.refreshTokens.rows := by
    intro r
    simp [hrows, Table.empty]
  constructor
  · exact fun _ _ h => absurd h hissued
  · rintro token ⟨x, hx, -⟩
    simp [hlog] at hx
  · exact fun _ _ _ h => h.issued.elim fun _ h => absurd h hissued
  · exact fun _ _ h => absurd h hissued
  · exact fun _ h => absurd h hnorow
  · exact fun _ h => absurd h hnorow

/-- The token has been issued, has not been exchanged and is at most seven days old. -/
def Live (s : Site) (token : String) : Prop :=
  ∃ time, Issued s.log token time ∧ ¬ Exchanged s.log token ∧ s.now ≤ time + refreshTokenExpire

theorem Live.not_exchanged (h : Live s token) : ¬ Exchanged s.log token := by
  obtain ⟨_, -, hex, -⟩ := h
  exact hex

/-- A token that has been issued before, and that the request does not exchange, is worth as much as
before. -/
theorem live_request {q : Request} (hst : (requests B T).step s (.request q) s') {time₀ : Time}
    (hi : Issued s.log token time₀) (hex : Exchanged s'.log token → Exchanged s.log token) :
    Live s' token ↔ Live s token := by
  obtain ⟨reply, hserved, hnow, hlog⟩ := request_served hst
  have hissued (time : Time) : Issued s'.log token time ↔ Issued s.log token time := by
    rw [hlog, issued_append, or_iff_left]
    rintro ⟨a, ha, rfl, -⟩
    exact hserved.fresh ha _ hi
  have hexchanged : Exchanged s'.log token ↔ Exchanged s.log token := by
    refine ⟨hex, fun h => ?_⟩
    rw [hlog]
    exact exchanged_append.2 (.inl h)
  simp only [Live, hissued, hexchanged, hnow]

/-- What has been answered stays so. -/
theorem requests_log {l : Event} (hst : (requests B T).step s l s') : s.log ⊆ s'.log := by
  cases l with
  | advance n =>
    obtain rfl : s' = _ := hst
    exact List.Subset.refl _
  | request q =>
    obtain ⟨_, -, -, hlog⟩ := request_served hst
    rw [hlog]
    exact List.subset_append_left _ _

theorem Issued.mono (hsub : log ⊆ log') (h : Issued log token time) : Issued log' token time := by
  obtain ⟨x, hx, h⟩ := h
  exact ⟨x, hsub hx, h⟩

theorem Exchanged.mono (hsub : log ⊆ log') (h : Exchanged log token) : Exchanged log' token := by
  obtain ⟨x, hx, h⟩ := h
  exact ⟨x, hsub hx, h⟩

/-- A refresh is answered. -/
theorem exists_refresh (ht : token ∈ T) (hf : Draws T s s.tables f) :
    ∃ s', (requests B T).step s (.request (.refresh token)) s' := by
  obtain ⟨row, -, -, hrun⟩ | ⟨x, hrun, -⟩ := run_refreshTx token hf.2.2.2
  · exact ⟨⟨_, s.now, s.log ++ [⟨_, s.now⟩]⟩, by rintro _ ⟨⟩; exact ht, _,
      .commit hf hrun .done, rfl, rfl⟩
  · exact ⟨⟨_, s.now, s.log ++ [⟨_, s.now⟩]⟩, by rintro _ ⟨⟩; exact ht, _,
      .abort hf hrun .done, rfl, rfl⟩

/-- What the transaction of a refresh does, for a live token and for any other. -/
theorem Tracked.run_refreshTx (hT : Set.InjOn hashRefreshToken T) (h : Tracked B T s)
    (ht : token ∈ T) (hnow : f.now = s.now) (hfree : s.tables.refreshTokens.get? f.id = none) :
    (∃ r ∈ s.tables.refreshTokens.rows, ∃ u, r.tokenHash = hashRefreshToken token ∧ Live s token ∧
      (refreshTx token f).run s.tables = .ok (refreshed token ⟨r.id, r.userId, r.expiresAt, u⟩ f,
        { s.tables with refreshTokens :=
          (s.tables.refreshTokens.erase r.id).insert (newToken r.userId f) })) ∨
    ∃ x, ¬ Live s token ∧ (refreshTx token f).run s.tables = .error x := by
  obtain ⟨row, hrow, hle, hrun⟩ | ⟨x, hrun, hx⟩ := Auth.run_refreshTx token hfree
  · obtain ⟨r, hr, hhash, u, -, rfl⟩ := mem_presented_iff.1 hrow
    obtain ⟨time, _, _, hissued, hlive, -, -, -, hexp⟩ := h.of_hash hT ht hr hhash
    refine .inl ⟨r, hr, u.email, hhash, ⟨time, hissued, hlive, ?_⟩, hrun⟩
    rw [← hnow, ← hexp]
    exact hle
  · refine .inr ⟨x, ?_, hrun⟩
    rintro ⟨time, hissued, hlive, hle⟩
    obtain ⟨r, hr, hhash, hexp⟩ := h.stored token time hissued hlive
    obtain ⟨_, _, user, -, -, -, hauth, huser, -⟩ := h.of_hash hT ht hr hhash
    obtain hx | ⟨row, hrow, hlt⟩ := hx
    · -- the row of the token is found, with its user
      have hu : s.tables.users.get? r.userId = some user := by rw [huser, hauth.get?]
      have hmem := mem_presented_iff.2 ⟨r, hr, hhash, user, hu, rfl⟩
      rw [hx] at hmem
      cases hmem
    · -- the row found is that of the token, which has not expired
      obtain ⟨r', hr', hhash', u, -, rfl⟩ := mem_presented_iff.1 hrow
      obtain rfl := h.unique r hr r' hr' (hhash.trans hhash'.symm)
      exact absurd (hexp ▸ hnow ▸ hle) (not_le.2 hlt)

/-- What a refresh does: it exchanges a live token, and changes nothing with any other. -/
theorem Tracked.refresh_cases (hT : Set.InjOn hashRefreshToken T) (h : Tracked B T s)
    (ht : token ∈ T) (hst : (requests B T).step s (.request (.refresh token)) s') :
    (∃ f r u, Draws T s s.tables f ∧ r ∈ s.tables.refreshTokens.rows ∧
      r.tokenHash = hashRefreshToken token ∧ Live s token ∧
      s'.tables.refreshTokens = (s.tables.refreshTokens.erase r.id).insert (newToken r.userId f) ∧
      s'.log = s.log ++ [⟨.refresh token
        (.ok ⟨createAccessToken r.userId u f.now, f.token, "bearer"⟩), s.now⟩]) ∨
    ∃ e, ¬ Live s token ∧ s'.tables = s.tables ∧
      s'.log = s.log ++ [⟨.refresh token (.error e), s.now⟩] := by
  obtain ⟨-, reply, hfin, -, hlog⟩ := hst
  obtain ⟨f, hf, hfin⟩ := Proc.Finishes.of_txn hfin
  obtain ⟨r, hr, u, hhash, hlive, hrun⟩ | ⟨x, hdead, hrun⟩ :=
    h.run_refreshTx hT ht hf.1 hf.2.2.2
  · rw [hrun] at hfin
    obtain ⟨p, t', hp, hfin⟩ | ⟨x, ⟨⟩, -⟩ := hfin
    cases hp
    obtain ⟨ht', rfl, -⟩ := hfin.of_done
    exact .inl ⟨f, r, u, hf, hr, hhash, hlive, by rw [ht'], hlog⟩
  · rw [hrun] at hfin
    obtain ⟨p, t', ⟨⟩, -⟩ | ⟨x, hx', hfin⟩ := hfin
    cases hx'
    obtain ⟨ht', rfl, -⟩ := hfin.of_done
    exact .inr ⟨_, hdead, ht', hlog⟩

/-- The service would exchange the token now. -/
def Accepts (t : Tables) (now : Time) (token : String) : Prop :=
  ∀ f, f.now = now → t.refreshTokens.get? f.id = none →
    ∃ res, (refreshTx token f).run t = .ok res

/-- What the service would exchange are the live tokens. -/
theorem Tracked.accepts_iff (hT : Set.InjOn hashRefreshToken T) (h : Tracked B T s)
    (ht : token ∈ T) : Accepts s.tables s.now token ↔ Live s token := by
  constructor
  · intro hacc
    obtain ⟨id, hid⟩ := s.tables.refreshTokens.exists_get?_eq_none
    obtain ⟨res, hres⟩ := hacc { id := id, now := s.now } rfl hid
    obtain ⟨_, -, _, -, hlive, -⟩ | ⟨x, -, hrun⟩ :=
      h.run_refreshTx (f := { id := id, now := s.now }) hT ht rfl hid
    · exact hlive
    · rw [hres] at hrun
      cases hrun
  · intro hlive f hnow hfree
    obtain ⟨_, -, _, -, -, hrun⟩ | ⟨x, hdead, -⟩ := h.run_refreshTx hT ht hnow hfree
    · exact ⟨_, hrun⟩
    · exact absurd hlive hdead

/-- **Session lineage.**  In every run of registrations, logins and refreshes made one at a time, a
refresh with a token is answered, and succeeds just when the token has been issued, has not been
exchanged and is at most seven days old.  On success the access token is for the user whose login
started the chain of exchanges that leads to the token, the row of the token is removed and one row
for the same user added; on failure all rows stay. -/
theorem session_lineage (hT : Set.InjOn hashRefreshToken T) (h : (requests B T).Reachable s)
    (ht : token ∈ T) :
    (∀ f, Draws T s s.tables f → ∃ s', (requests B T).step s (.request (.refresh token)) s') ∧
    ∀ s', (requests B T).step s (.request (.refresh token)) s' →
      ∃ result, s'.log = s.log ++ [⟨.refresh token result, s.now⟩] ∧
        ((∃ a, result = .ok a) ↔ ∃ time, Issued s.log token time ∧ ¬ Exchanged s.log token ∧
          s.now ≤ time + refreshTokenExpire) ∧
        (∀ a, result = .ok a → ∃ body user r r',
          (∀ b, Chain s.log b token ↔ b = body) ∧ Authenticates B s.tables body user ∧
          a.accessToken.sub = user.id ∧
          (∀ x, x = r ↔ x ∈ s.tables.refreshTokens.rows ∧
            x.tokenHash = hashRefreshToken token) ∧ r.userId = user.id ∧
          r' ∉ s.tables.refreshTokens.rows ∧ r'.tokenHash = hashRefreshToken a.refreshToken ∧
          r'.userId = user.id ∧
          ∀ x, x ∈ s'.tables.refreshTokens.rows ↔
            (x ∈ s.tables.refreshTokens.rows ∧ x ≠ r) ∨ x = r') ∧
        ∀ e, result = .error e → s'.tables = s.tables := by
  have hI := requests_tracked hT h
  refine ⟨fun f hf => exists_refresh ht hf, fun s' hst => ?_⟩
  obtain ⟨f, r, u, ⟨-, -, -, hfree⟩, hr, hhash, hlive, ht', hlog⟩ | ⟨e, hdead, ht', hlog⟩ :=
    hI.refresh_cases hT ht hst
  · obtain ⟨_, body, user, -, -, hchain, hauth, huser, -⟩ := hI.of_hash hT ht hr hhash
    refine ⟨_, hlog, ⟨fun _ => hlive, fun _ => ⟨_, rfl⟩⟩, ?_, ?_⟩
    · rintro a ⟨⟩
      have hfree' : (s.tables.refreshTokens.erase r.id).get? f.id = none := by
        rw [Table.get?_erase, hfree, ite_self]
      refine ⟨body, user, r, newToken r.userId f, fun b => ⟨hI.chain _ _ _ hchain, ?_⟩, hauth,
        huser, fun x => ⟨?_, ?_⟩, huser, fun hnr => ?_, rfl, huser, fun x => ?_⟩
      · rintro rfl
        exact hchain
      · rintro rfl
        exact ⟨hr, hhash⟩
      · rintro ⟨hx, hxh⟩
        exact hI.unique r hr x hx (hhash.trans hxh.symm)
      · exact s.tables.refreshTokens.get?_eq_none.1 hfree _ hnr rfl
      · rw [ht', Table.mem_rows_insert, Table.mem_rows_erase]
        refine or_congr (and_congr_right fun hx => not_congr ⟨fun hid => ?_, ?_⟩)
          (and_iff_left hfree')
        · exact List.inj_on_of_nodup_map s.tables.refreshTokens.nodup hx hr hid
        · rintro rfl
          rfl
    · rintro e ⟨⟩
  · refine ⟨_, hlog, ⟨?_, fun hlive => absurd hlive hdead⟩, ?_, fun e _ => ht'⟩
    · rintro ⟨a, ⟨⟩⟩
    · rintro a ⟨⟩

/-- A `bcrypt` that keeps passwords as they are. -/
def plain : Bcrypt := ⟨fun _ password => password, fun password hash => password = hash⟩

/-- A user has logged in, and "t1" has been issued. -/
def firstLogin : Site where
  tables := ⟨Table.empty.insert ⟨1, "a@b.c", "pw", 0⟩,
    Table.empty.insert (newToken 1 { id := 10, token := "t1" })⟩
  now := 0
  log := [⟨.login ⟨"a@b.c", "pw"⟩ (.ok ⟨createAccessToken 1 "a@b.c" 0, "t1", "bearer"⟩), 0⟩]

theorem firstLogin_reachable (ht : "t1" ∈ T) : (requests plain T).Reachable firstLogin := by
  let s₀ : Site := ⟨⟨firstLogin.tables.users, .empty⟩, 0, []⟩
  have hauth : Authenticates plain s₀.tables ⟨"a@b.c", "pw"⟩ ⟨1, "a@b.c", "pw", 0⟩ := ⟨rfl, rfl⟩
  have hdraw : ∀ t, t.refreshTokens.get? 10 = none →
      Draws T s₀ t { id := 10, token := "t1" } :=
    fun t hfree => ⟨rfl, ht, by rintro time ⟨x, ⟨⟩, -⟩, hfree⟩
  have hlogin : (requests plain T).step s₀ (.request (.login ⟨"a@b.c", "pw"⟩)) firstLogin := by
    refine ⟨by rintro _ ⟨⟩, _, .commit (hdraw _ rfl) rfl (.commit (hdraw _ rfl) ?_ .done), rfl, rfl⟩
    exact congrArg Tx.Outcome.toExcept (eval_insertRefreshToken "t1" _ rfl hauth.get? _)
  have h₀ : (requests plain T).Reachable s₀ := .init ⟨rfl, rfl⟩
  exact h₀.tail hlogin

/-- A login issues "t1"; seven days later to the second a refresh with it still succeeds. -/
theorem session_lineage_deadline :
    let B : Bcrypt := ⟨fun _ password => password, fun password hash => password = hash⟩
    let body : Credentials := ⟨"a@b.c", "pw"⟩
    let users : Table UserRow.id := Table.empty.insert ⟨1, "a@b.c", "pw", 0⟩
    let s : Site := ⟨⟨users, Table.empty.insert (newToken 1 { id := 10, token := "t1" })⟩, 604800,
      [⟨.login body (.ok ⟨createAccessToken 1 "a@b.c" 0, "t1", "bearer"⟩), 0⟩]⟩
    ∃ s' a, (requests B {"t1", "t2"}).step s (.request (.refresh "t1")) s' ∧
      s'.log = s.log ++ [⟨.refresh "t1" (.ok a), 604800⟩] ∧ a.accessToken.sub = 1 := by
  intro B body users s
  let T : Set String := {"t1", "t2"}
  have hne : hashRefreshToken "t1" ≠ hashRefreshToken "t2" := by decide +kernel
  have hT : Set.InjOn hashRefreshToken T := by
    rintro _ (rfl | rfl) _ (rfl | rfl) h
    · rfl
    · exact absurd h hne
    · exact absurd h hne.symm
    · rfl
  have hauth : Authenticates B s.tables body ⟨1, "a@b.c", "pw", 0⟩ := ⟨rfl, rfl⟩
  have hr : (requests B T).Reachable s := by
    have hadvance : (requests B T).step firstLogin (.advance 604800) s :=
      congrArg (Site.mk s.tables · s.log) (Nat.zero_add _).symm
    exact (firstLogin_reachable (.inl rfl)).tail hadvance
  have ht : "t1" ∈ T := .inl rfl
  obtain ⟨hex, hall⟩ := session_lineage hT hr ht
  have hnew : ∀ time, ¬ Issued s.log "t2" time := by
    rintro time ⟨x, hx, a, ha, htoken, -⟩
    obtain rfl := List.mem_singleton.1 hx
    obtain rfl := Option.some.inj ha
    exact absurd htoken (by decide)
  obtain ⟨s', hst⟩ := hex { id := 11, token := "t2", now := 604800 } ⟨rfl, .inr rfl, hnew, rfl⟩
  obtain ⟨result, hlog, hiff, hok, -⟩ := hall s' hst
  have hissued : Issued s.log "t1" 0 := ⟨_, List.mem_singleton_self _, _, rfl, rfl, rfl⟩
  have hlive : ¬ Exchanged s.log "t1" := by
    rintro ⟨x, hx, hred⟩
    obtain rfl := List.mem_singleton.1 hx
    cases hred
  have hdeadline : 604800 ≤ 0 + refreshTokenExpire := by decide
  obtain ⟨a, rfl⟩ := hiff.2 ⟨0, hissued, hlive, hdeadline⟩
  obtain ⟨body', user, r, r', hchain, hauth', hsub, -⟩ := hok a rfl
  refine ⟨s', a, hst, hlog, ?_⟩
  obtain rfl := (hchain body).1 (.login (List.mem_singleton_self _))
  rw [hsub, hauth.unique hauth']

end Auth

end FoodFlow
