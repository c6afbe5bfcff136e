import FoodFlow.Auth.Basic

/-!
# The routes of the auth service

`POST /register`, `POST /login` and `POST /refresh` as processes.  Statements outside an explicit
transaction are transactions of their own; the refresh is one transaction, so an exception raised
in it undoes its `DELETE`.
-/

namespace FoodFlow

namespace Auth

/-- The body of `POST /register` and of `POST /login`. -/
structure Credentials where
  email : String
  password : String
  deriving DecidableEq, Repr

/-- `UserResponse` -/
structure UserResponse where
  id : UUID
  email : String
  createdAt : Time
  deriving DecidableEq, Repr

/-- `AuthResponse` -/
structure AuthResponse where
  accessToken : AccessToken
  refreshToken : String
  tokenType : String := "bearer"
  deriving DecidableEq, Repr

/-- What a request ends with. -/
inductive Reply where
  | register (body : Credentials) (result : Except Err UserResponse)
  | login (body : Credentials) (result : Except Err AuthResponse)
  | refresh (refreshToken : String) (result : Except Err AuthResponse)

/-- What a transaction draws from outside: a UUID for the row it inserts, `secrets.token_urlsafe`,
the salt of `bcrypt`, the time, and which of several rows a `SELECT` returns first. -/
structure Draw where
  id : UUID
  token : String := ""
  salt : String := ""
  now : Time := 0
  pick : ℕ := 0

/-- The processes of the service. -/
abbrev Process := Proc db Draw Empty Reply

/-! ### Registering -/

section Register

variable (B : Bcrypt) (body : Credentials)

/-- A registration that ends with an exception. -/
def registerError (e : Err) : Process := .done (.register body (.error e))

/-- The `INSERT` of `register`. -/
def insertUserTx (f : Draw) : Tx db Process := do
  let row ← insertUser body.email (B.hashPassword f.salt body.password) f.id f.now
  pure (.done (.register body (.ok ⟨row.id, row.email, row.createdAt⟩)))

/-- The `SELECT` of `register`, and what follows it. -/
def findUserTx (_ : Draw) : Tx db Process := do
  let existing ← selectUserId body.email
  match existing with
  | some _ => pure (registerError body (.http 409 "Email already registered"))
  | none => pure (.txn (insertUserTx B body) (registerError body))

/-- `register`. -/
def register : Process := .txn (findUserTx B body) (registerError body)

end Register

/-! ### Logging in -/

section Login

variable (B : Bcrypt) (body : Credentials)

/-- A login that ends with an exception. -/
def loginError (e : Err) : Process := .done (.login body (.error e))

/-- The answer to a login. -/
def loggedIn (userId : UUID) (email : String) (f : Draw) : Process :=
  .done (.login body (.ok ⟨createAccessToken userId email f.now, f.token, "bearer"⟩))

/-- The `INSERT` of `login`. -/
def issueTx (userId : UUID) (email : String) (f : Draw) : Tx db Process := do
  insertRefreshToken userId (hashRefreshToken f.token) (f.now + refreshTokenExpire) f.id
  pure (loggedIn body userId email f)

/-- What follows the `SELECT` of `login`. -/
def authenticate : Option UserRow → Process
  | none => loginError body (.http 401 "Invalid email or password")
  | some row =>
    if B.verifyPassword body.password row.passwordHash then
      .txn (issueTx body row.id row.email) (loginError body)
    else loginError body (.http 401 "Invalid email or password")

/-- The `SELECT` of `login`. -/
def credentialsTx (_ : Draw) : Tx db Process := do
  let row ← selectUser body.email
  pure (authenticate B body row)

/-- `login`. -/
def login : Process := .txn (credentialsTx B body) (loginError body)

end Login

/-! ### Refreshing -/

section Refresh

variable (token : String)

/-- A refresh that ends with an exception. -/
def refreshError (e : Err) : Process := .done (.refresh token (.error e))

/-- The answer to a refresh. -/
def refreshed (row : Presented) (f : Draw) : Process :=
  .done (.refresh token (.ok ⟨createAccessToken row.userId row.email f.now, f.token, "bearer"⟩))

/-- The `INSERT` of `refresh`. -/
def reissue (row : Presented) (f : Draw) : Tx db Process := do
  insertRefreshToken row.userId (hashRefreshToken f.token) (f.now + refreshTokenExpire) f.id
  pure (refreshed token row f)

/-- The rotation: the old token is deleted, a new one inserted.  That the `DELETE` finds the row is
not checked. -/
def rotate (row : Presented) (f : Draw) : Tx db Process := do
  deleteRefreshToken row.id
  reissue token row f

/-- What is done with an expired token. -/
def expire (row : Presented) : Tx db Process := do
  deleteRefreshToken row.id
  .throw (Err.http 401 "Refresh token expired")

/-- What follows the `SELECT` of `refresh`. -/
def redeem (f : Draw) : Option Presented → Tx db Process
  | none => .throw (Err.http 401 "Invalid refresh token")
  | some row => if row.expiresAt < f.now then expire row else rotate token row f

/-- The transaction of `refresh`. -/
def refreshTx (f : Draw) : Tx db Process := do
  let row ← selectRefreshToken (hashRefreshToken token) f.pick
  redeem token f row

/-- `refresh`. -/
def refresh : Process := .txn (refreshTx token) (refreshError token)

end Refresh

end Auth

end FoodFlow
