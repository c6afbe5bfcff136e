import FoodFlow.Order.Routes
import FoodFlow.Auth.Basic
import FoodFlow.Shared.Http

/-!
# Who may see an order

`get_current_user` and `GET /orders/{id}`: the access token of the auth service is read from the
header `Authorization`, and an order is shown to the user that the token names only.

* `Jwt` : what `jwt.encode` and `jwt.decode` do with the secret that the two services share;
* `getCurrentUser`, `getOrder`, `requestOf` : the dependency and the two routes that use it;
* `getOrder_eq_ok` : **an order is shown just when the token is good at the time it is looked at and
  names the user of the order.**
-/

namespace FoodFlow

namespace Order

/-- `jwt.encode` with the secret, and the part of `jwt.decode` that does not look at the clock: the
claims of a token with the right signature. -/
structure Jwt where
  encode : Auth.AccessToken → String
  verify : String → Option Auth.AccessToken
  verify_encode : ∀ c, verify (encode c) = some c

/-- `ExpiredSignatureError`, and the other subclasses of `InvalidTokenError`. -/
inductive TokenError where
  | expired
  | invalid
  deriving DecidableEq, Repr

/-- The user that a token names: `{"user_id", "email"}`. -/
structure User where
  userId : String
  email : String
  deriving DecidableEq, Repr

/-- `OrderResponse` -/
structure OrderResponse where
  id : String
  userId : String
  restaurantId : String
  items : List Item
  totalAmount : ℚ
  status : Status
  createdAt : Time
  updatedAt : Time
  deriving DecidableEq, Repr

variable (J : Jwt)

/-- `jwt.decode`: a token issued in the future is refused, one that has expired too. -/
def Jwt.decode (token : String) (now : Time) : Except TokenError Auth.AccessToken :=
  match J.verify token with
  | none => .error .invalid
  | some c =>
    if now < c.iat then .error .invalid
    else if c.exp ≤ now then .error .expired
    else .ok c

/-- `authorization.split(" ", 1)[1]`, of a header that starts with `Bearer ` -/
def bearer? : Option String → Option String
  | none => none
  | some authorization =>
    if "Bearer ".toList.isPrefixOf authorization.toList then
      some (String.ofList ((authorization.toList.dropWhile (· ≠ ' ')).drop 1))
    else none

/-- `get_current_user` -/
def getCurrentUser (authorization : Option String) (now : Time) : Except HttpError User :=
  match bearer? authorization with
  | none => .error ⟨401, "Missing or invalid authorization header"⟩
  | some token =>
    match J.decode token now with
    | .ok c => .ok ⟨uuidStr c.sub, c.email⟩
    | .error .expired => .error ⟨401, "Token expired"⟩
    | .error .invalid => .error ⟨401, "Invalid token"⟩

/-- The answer with the contents of a row. -/
def orderResponse (r : OrderRow) : OrderResponse where
  id := uuidStr r.id
  userId := uuidStr r.userId
  restaurantId := uuidStr r.restaurantId
  items := r.items
  totalAmount := (r.totalAmount : ℚ) / 100
  status := r.status
  createdAt := r.createdAt
  updatedAt := r.updatedAt

/-- `get_order`: the token is looked at at the time `now`, the tables are those of the `SELECT`. -/
def getOrder (authorization : Option String) (now : Time) (orderId : UUID) (t : Tables) :
    Except HttpError OrderResponse :=
  match getCurrentUser J authorization now with
  | .error e => .error e
  | .ok user =>
    match t.orders.get? orderId with
    | none => .error ⟨404, "Order not found"⟩
    | some row =>
      if uuidStr row.userId ≠ user.userId then .error ⟨403, "Access denied"⟩
      else .ok (orderResponse row)

/-- What the dependency makes of a request `POST /orders`: `uuid.UUID(user["user_id"])` raises a
`ValueError` for what is no UUID. -/
def requestOf (authorization : Option String) (now : Time) (body : CreateOrderRequest)
    (xPaymentSimulate idempotencyKey : Option String) : Except HttpError Request :=
  match getCurrentUser J authorization now with
  | .error e => .error e
  | .ok user =>
    match uuidOf? user.userId with
    | none => .error ⟨500, "Internal Server Error"⟩
    | some userId => .ok ⟨userId, body, xPaymentSimulate, idempotencyKey⟩

/-- The token in the header is good at the time `now`, and has these claims. -/
def Presents (authorization : Option String) (now : Time) (c : Auth.AccessToken) : Prop :=
  ∃ token, bearer? authorization = some token ∧ J.verify token = some c ∧ c.iat ≤ now ∧
    now < c.exp

variable {J} {authorization : Option String} {now : Time} {c : Auth.AccessToken} {t : Tables}
  {o : UUID}

/-- The token of a header that bears it. -/
theorem bearer?_bearer (token : String) : bearer? (some ("Bearer " ++ token)) = some token := by
  have hlist : ("Bearer " ++ token).toList = "Bearer ".toList ++ token.toList :=
    String.toList_append
  have hprefix : "Bearer ".toList.isPrefixOf ("Bearer ".toList ++ token.toList) = true :=
    List.isPrefixOf_iff_prefix.2 (List.prefix_append _ _)
  have hdrop : (("Bearer ".toList ++ token.toList).dropWhile (· ≠ ' ')).drop 1 = token.toList := rfl
  simp only [bearer?, hlist, hprefix, if_true, hdrop, String.ofList_toList]

theorem decode_eq_ok {token : String} : J.decode token now = .ok c ↔
    J.verify token = some c ∧ c.iat ≤ now ∧ now < c.exp := by
  unfold Jwt.decode
  cases J.verify token with
  | none => simp
  | some c' =>
    by_cases hiat : now < c'.iat
    · simp only [hiat, if_true, reduceCtorEq, Option.some.injEq, false_iff]
      rintro ⟨rfl, h, -⟩
      exact absurd hiat (Nat.not_lt.2 h)
    · by_cases hexp : c'.exp ≤ now
      · simp only [hiat, hexp, if_true, if_false, reduceCtorEq, Option.some.injEq, false_iff]
        rintro ⟨rfl, -, h⟩
        exact absurd hexp (Nat.not_le.2 h)
      · simp only [hiat, hexp, if_false, Except.ok.injEq, Option.some.injEq]
        refine ⟨?_, And.left⟩
        rintro rfl
        exact ⟨rfl, Nat.not_lt.1 hiat, Nat.not_le.1 hexp⟩

/-- What the dependency returns. -/
theorem getCurrentUser_eq_ok {user : User} : getCurrentUser J authorization now = .ok user ↔
    ∃ c, Presents J authorization now c ∧ user = ⟨uuidStr c.sub, c.email⟩ := by
  constructor
  · intro h
    unfold getCurrentUser at h
    split at h
    · cases h
    · rename_i token htoken
      split at h
      · rename_i c hc
        exact ⟨c, ⟨token, htoken, decode_eq_ok.1 hc⟩, (Except.ok.inj h).symm⟩
      · cases h
      · cases h
  · rintro ⟨c, ⟨token, htoken, hc⟩, rfl⟩
    simp only [getCurrentUser, htoken, decode_eq_ok.2 hc]

/-- **To whom an order is shown.** -/
theorem getOrder_eq_ok {response : OrderResponse} :
    getOrder J authorization now o t = .ok response ↔ ∃ c row, Presents J authorization now c ∧
      t.orders.get? o = some row ∧ uuidStr row.userId = uuidStr c.sub ∧
      response = orderResponse row := by
  constructor
  · intro h
    unfold getOrder at h
    split at h
    · cases h
    · rename_i user huser
      obtain ⟨c, hc, rfl⟩ := getCurrentUser_eq_ok.1 huser
      split at h
      · cases h
      · rename_i row hrow
        split_ifs at h with hne
        exact ⟨c, row, hc, hrow, not_not.1 hne, (Except.ok.inj h).symm⟩
  · rintro ⟨c, row, hc, hrow, heq, rfl⟩
    simp only [getOrder, getCurrentUser_eq_ok.2 ⟨c, hc, rfl⟩, hrow, heq, ne_eq, not_true_eq_false,
      if_false]

/-- The request is made for the user that the token names. -/
theorem requestOf_eq_ok {body : CreateOrderRequest} {sim key : Option String} {req : Request} :
    requestOf J authorization now body sim key = .ok req ↔ ∃ c u, Presents J authorization now c ∧
      uuidOf? (uuidStr c.sub) = some u ∧ req = ⟨u, body, sim, key⟩ := by
  constructor
  · intro h
    unfold requestOf at h
    split at h
    · cases h
    · rename_i user huser
      obtain ⟨c, hc, rfl⟩ := getCurrentUser_eq_ok.1 huser
      split at h
      · cases h
      · rename_i u hu
        exact ⟨c, u, hc, hu, (Except.ok.inj h).symm⟩
  · rintro ⟨c, u, hc, hu, rfl⟩
    simp only [requestOf, getCurrentUser_eq_ok.2 ⟨c, hc, rfl⟩, hu]

/-! ### Tokens to try it with -/

/-- A number in unary, before other text. -/
def unary (n : ℕ) (rest : List Char) : List Char := List.replicate n '1' ++ '0' :: rest

/-- Reading a number in unary. -/
def readUnary (text : List Char) : ℕ × List Char :=
  ((text.takeWhile (· = '1')).length, (text.dropWhile (· = '1')).drop 1)

theorem readUnary_unary (n : ℕ) (rest : List Char) : readUnary (unary n rest) = (n, rest) := by
  rw [readUnary, unary, List.takeWhile_append_of_pos, List.dropWhile_append_of_pos]
  · simp
  all_goals
    intro c hc
    simp [List.eq_of_mem_replicate hc]

/-- Tokens that are their claims in plain text: one that the auth service has not signed is
accepted too. -/
def plainJwt : Jwt where
  encode c := String.ofList (unary c.sub (unary c.exp (unary c.iat
    (unary c.email.toList.length (c.email.toList ++ c.type.toList)))))
  verify token :=
    let (sub, text) := readUnary token.toList
    let (exp, text) := readUnary text
    let (iat, text) := readUnary text
    let (n, text) := readUnary text
    some ⟨sub, String.ofList (text.take n), exp, iat, String.ofList (text.drop n)⟩
  verify_encode c := by simp [readUnary_unary]

end Order

end FoodFlow
