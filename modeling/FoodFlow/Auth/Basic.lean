import FoodFlow.Sql.Table
import FoodFlow.Sql.Types
import FoodFlow.Sql.ReadCommitted
import FoodFlow.Shared.Events
import FoodFlow.Crypto.Sha256

/-!
# The database of the auth service

The tables `users` and `refresh_tokens`, the statements on them, and the functions of `auth.py`.
A refresh token is stored as its hash, under no unique constraint.
-/

namespace FoodFlow

namespace Auth

/-- A row of `users`. -/
structure UserRow where
  id : UUID
  email : String
  passwordHash : String
  createdAt : Time
  deriving DecidableEq, Repr

/-- A row of `refresh_tokens`. -/
structure RefreshToken where
  id : UUID
  userId : UUID
  tokenHash : String
  expiresAt : Time
  deriving DecidableEq, Repr

/-- The tables of the service. -/
structure Tables where
  users : Table UserRow.id
  refreshTokens : Table RefreshToken.id

/-- The exceptions of the service. -/
inductive Err where
  | sql (e : SqlError)
  /-- `HTTPException` -/
  | http (statusCode : ℕ) (detail : String)
  deriving DecidableEq, Repr

/-! ### The functions of `auth.py` -/

/-- `bcrypt`, for a salt. -/
structure Bcrypt where
  hashPassword : String → String → String
  verifyPassword : String → String → Bool

/-- `hash_refresh_token`. -/
@[irreducible]
def hashRefreshToken (token : String) : String :=
  Sha256.hexdigest ((token.toList.flatMap String.utf8EncodeChar).map UInt8.toNat)

/-- The claims of an access token, which are signed. -/
structure AccessToken where
  sub : UUID
  email : String
  exp : Time
  iat : Time
  type : String := "access"
  deriving DecidableEq, Repr

/-- `create_access_token`: valid for 15 minutes. -/
def createAccessToken (userId : UUID) (email : String) (now : Time) : AccessToken where
  sub := userId
  email := email
  exp := now + 15 * 60
  iat := now

/-- `REFRESH_TOKEN_EXPIRE_DAYS`, in seconds. -/
def refreshTokenExpire : Time := 7 * 24 * 60 * 60

/-! ### Statements -/

/-- A refresh token that has been looked up, with the address of its user. -/
structure Presented where
  id : UUID
  userId : UUID
  expiresAt : Time
  email : String
  deriving DecidableEq, Repr

/-- The statements on the tables of the service. -/
inductive Stmt where
  /-- `SELECT id FROM users WHERE email = $1` -/
  | selectUserId (email : String)
  /-- `INSERT INTO users (email, password_hash) VALUES ($1, $2) RETURNING id, email, created_at`,
  the default of `id` being drawn. -/
  | insertUser (email passwordHash : String) (id : UUID) (now : Time)
  /-- `SELECT id, email, password_hash FROM users WHERE email = $1` -/
  | selectUser (email : String)
  /-- `INSERT INTO refresh_tokens (user_id, token_hash, expires_at) VALUES ($1, $2, $3)`, the
  default of `id` being drawn. -/
  | insertRefreshToken (userId : UUID) (tokenHash : String) (expiresAt : Time) (id : UUID)
  /-- `SELECT rt.id, rt.user_id, rt.expires_at, u.email FROM refresh_tokens rt JOIN users u ON u.id
  = rt.user_id WHERE rt.token_hash = $1`, the first row; `pick` tells which of several rows comes
  first. -/
  | selectRefreshToken (tokenHash : String) (pick : ℕ)
  /-- `DELETE FROM refresh_tokens WHERE id = $1` -/
  | deleteRefreshToken (id : UUID)

/-- What the statements return.  The number of rows that the `DELETE` reports is not used. -/
def Stmt.Res : Stmt → Type
  | .selectUserId _ => Option UUID
  | .insertUser .. => UserRow
  | .selectUser _ => Option UserRow
  | .insertRefreshToken .. => Unit
  | .selectRefreshToken .. => Option Presented
  | .deleteRefreshToken _ => Unit

/-- Changes of the tables. -/
inductive Write where
  | addUser (r : UserRow)
  | addToken (r : RefreshToken)
  | delToken (id : UUID)

/-- Values of the unique columns, and the rows of `refresh_tokens` by their primary key. -/
inductive Lock where
  | user (id : UUID)
  | email (email : String)
  | token (id : UUID)
  deriving DecidableEq

/-- The user with a given address. -/
def Tables.byEmail? (t : Tables) (email : String) : Option UserRow :=
  t.users.rows.find? fun r => r.email = email

/-- The rows of the join of the two tables for a hash. -/
def Tables.presented (t : Tables) (tokenHash : String) : List Presented :=
  t.refreshTokens.rows.filterMap fun r =>
    if r.tokenHash = tokenHash then
      (t.users.get? r.userId).map fun u => ⟨r.id, r.userId, r.expiresAt, u.email⟩
    else none

/-- The effect of a statement. -/
def exec : (q : Stmt) → Tables → Except Err (q.Res × List Write)
  | .selectUserId email, t => .ok ((t.byEmail? email).map UserRow.id, [])
  | .insertUser email passwordHash id now, t =>
    match varchar 255 email, varchar 255 passwordHash with
    | none, _ => .error (.sql (.dataError "email"))
    | _, none => .error (.sql (.dataError "password_hash"))
    | some email, some passwordHash =>
      if (t.users.get? id).isSome then .error (.sql (.uniqueViolation "users_pkey"))
      else if (t.byEmail? email).isSome then .error (.sql (.uniqueViolation "users_email_key"))
      else .ok (⟨id, email, passwordHash, now⟩, [.addUser ⟨id, email, passwordHash, now⟩])
  | .selectUser email, t => .ok (t.byEmail? email, [])
  | .insertRefreshToken userId tokenHash expiresAt id, t =>
    match varchar 255 tokenHash with
    | none => .error (.sql (.dataError "token_hash"))
    | some tokenHash =>
      if (t.refreshTokens.get? id).isSome then
        .error (.sql (.uniqueViolation "refresh_tokens_pkey"))
      else if (t.users.get? userId).isNone then
        .error (.sql (.foreignKeyViolation "refresh_tokens_user_id_fkey"))
      else .ok ((), [.addToken ⟨id, userId, tokenHash, expiresAt⟩])
  | .selectRefreshToken tokenHash pick, t =>
    .ok ((t.presented tokenHash)[pick % (t.presented tokenHash).length]?, [])
  | .deleteRefreshToken id, t =>
    .ok ((), if (t.refreshTokens.get? id).isSome then [.delToken id] else [])

/-- The effect of a change. -/
def apply : Write → Tables → Tables
  | .addUser r, t => { t with users := t.users.insert r }
  | .addToken r, t => { t with refreshTokens := t.refreshTokens.insert r }
  | .delToken id, t => { t with refreshTokens := t.refreshTokens.erase id }

/-- What a statement has to own: the values it puts into unique columns, and the row it deletes. -/
def needs : Stmt → Tables → List Lock
  | .insertUser email _ id _, _ => [.user id, .email email]
  | .insertRefreshToken _ _ _ id, _ => [.token id]
  | .deleteRefreshToken id, t => if (t.refreshTokens.get? id).isSome then [.token id] else []
  | _, _ => []

/-- The auth database. -/
abbrev db : Dbms where
  Db := Tables
  Stmt := Stmt
  Res := Stmt.Res
  Write := Write
  Lock := Lock
  Err := Err
  exec := exec
  apply := apply
  needs := needs

/-! ### Statements as programs -/

def selectUserId (email : String) : Tx db (Option UUID) :=
  @Tx.exec db (.selectUserId email)

def insertUser (email passwordHash : String) (id : UUID) (now : Time) : Tx db UserRow :=
  @Tx.exec db (.insertUser email passwordHash id now)

def selectUser (email : String) : Tx db (Option UserRow) := @Tx.exec db (.selectUser email)

def insertRefreshToken (userId : UUID) (tokenHash : String) (expiresAt : Time) (id : UUID) :
    Tx db Unit :=
  @Tx.exec db (.insertRefreshToken userId tokenHash expiresAt id)

def selectRefreshToken (tokenHash : String) (pick : ℕ) : Tx db (Option Presented) :=
  @Tx.exec db (.selectRefreshToken tokenHash pick)

def deleteRefreshToken (id : UUID) : Tx db Unit := @Tx.exec db (.deleteRefreshToken id)

variable {t : Tables} {token : String} {pick : ℕ}

/-- The hash of a token can be stored as it is. -/
theorem varchar_hashRefreshToken :
    varchar 255 (hashRefreshToken token) = some (hashRefreshToken token) := by
  have hlen : (hashRefreshToken token).toList.length = 64 := by
    rw [hashRefreshToken]
    exact Sha256.length_hexdigest _
  have htext : isText (hashRefreshToken token) = true := by
    rw [hashRefreshToken]
    exact decide_eq_true (Sha256.nul_not_mem_hexdigest _)
  have hle : (hashRefreshToken token).toList.length ≤ 255 := by omega
  simp [varchar, htext, hle]

/-- The rows of the join are those of `refresh_tokens` with the hash whose user is stored. -/
theorem mem_presented_iff {tokenHash : String} {row : Presented} :
    row ∈ t.presented tokenHash ↔ ∃ r ∈ t.refreshTokens.rows, r.tokenHash = tokenHash ∧
      ∃ u, t.users.get? r.userId = some u ∧ ⟨r.id, r.userId, r.expiresAt, u.email⟩ = row := by
  refine List.mem_filterMap.trans (exists_congr fun r => and_congr_right fun _ => ?_)
  split_ifs with hh
  · simp [hh, Option.map_eq_some_iff]
  · simp [hh]

end Auth

end FoodFlow
