import FoodFlow.Saga.Answers

/-!
# The orders on display

`fetchOrders` of `Dashboard.jsx` asks the order service for every order whose id is in
`localStorage`, and shows the answers when the last of them has come.  It is called every three
seconds and after an order has been placed, whether the call before is over or not, while the saga
goes on.

* `Tracker` : the orders on display, and the calls of `fetchOrders`;
* `site` : the dashboard and the services;
* `About` : an order on display is one of the order service, of now or of before;
* `display_ages` : **what a call shows is newer than what was there when it began**;
* `display_goes_back` : of two calls at the same time, the one that began first can end last, so
  that an order that has been shown as confirmed is shown as `PENDING` again.
-/

namespace FoodFlow

namespace Frontend

namespace Polling

open FoodFlow.Order (Jwt OrderResponse OrderRow getOrder orderResponse)

/-- What a request has been answered with. -/
inductive Response where
  | awaited
  /-- `res.ok`, with the body. -/
  | ok (order : OrderResponse)
  | notOk
  deriving DecidableEq

/-- A call of `fetchOrders`: its requests, each for one order. -/
abbrev Poll := List (UUID × Response)

/-- The state of the component that has to do with its orders. -/
structure Tracker where
  /-- The ids in `localStorage`. -/
  storedOrders : List UUID := []
  orders : List OrderResponse := []
  /-- The calls of `fetchOrders` made so far, `none` when over. -/
  polls : List (Option Poll) := []

namespace Tracker

variable (d : Tracker)

/-- `fetchOrders`, up to its requests. -/
def fetchOrders : Tracker :=
  if d.storedOrders.length = 0 then { d with orders := [], polls := d.polls ++ [none] }
  else { d with polls := d.polls ++ [some (d.storedOrders.map fun id => (id, .awaited))] }

/-- The `j`-th request of a call is answered; `answer` tells how an order is. -/
def respond (i j : ℕ) (answer : UUID → Response) : Option Tracker := do
  let poll ← d.polls[i]?.join
  let (id, response) ← poll[j]?
  if response = .awaited then
    some { d with polls := d.polls.set i (some (poll.set j (id, answer id))) }
  else none

/-- A request rejects, and so does `Promise.all`. -/
def reject (i : ℕ) : Option Tracker := do
  let _ ← d.polls[i]?.join
  some { d with polls := d.polls.set i none }

/-- The order that a request brings. -/
def fetched : UUID × Response → Option OrderResponse
  | (_, .ok order) => some order
  | _ => none

/-- The end of `fetchOrders`, when all requests have been answered. -/
def settle (i : ℕ) : Option Tracker := do
  let poll ← d.polls[i]?.join
  if ∀ x ∈ poll, x.2 ≠ .awaited then
    some { d with orders := poll.filterMap fetched, polls := d.polls.set i none }
  else none

/-- `storedOrders.push(data.id)` -/
def placed (orderId : UUID) : Tracker := { d with storedOrders := d.storedOrders ++ [orderId] }

/-- The component is mounted anew; what its calls bring is lost. -/
def mount : Tracker := { d with orders := [], polls := d.polls.map fun _ => none }

end Tracker

/-- The services and the dashboard. -/
structure State where
  services : Saga.State
  dashboard : Tracker

/-- What can happen. -/
inductive Label where
  | services (l : Saga.Label)
  /-- `POST /orders` has been answered with an id. -/
  | placed (orderId : UUID)
  | fetchOrders
  /-- A request comes to the order service, which looks at the header at the time `now`. -/
  | answer (i j : ℕ) (authorization : Option String) (now : Time)
  /-- It is answered with an error by something before the service. -/
  | refuse (i j : ℕ)
  | reject (i : ℕ)
  | settle (i : ℕ)
  | mount

/-- How the order service answers. -/
def responseOf (J : Jwt) (authorization : Option String) (now : Time) (t : Order.Tables)
    (orderId : UUID) : Response :=
  match getOrder J authorization now orderId t with
  | .ok order => .ok order
  | .error _ => .notOk

/-- Performing a label. -/
def act (J : Jwt) (dflt : String) (s : State) : Label → Option State
  | .services l => (s.services.act dflt l).map fun n => { s with services := n }
  | .placed orderId => some { s with dashboard := s.dashboard.placed orderId }
  | .fetchOrders => some { s with dashboard := s.dashboard.fetchOrders }
  | .answer i j authorization now =>
    (s.dashboard.respond i j (responseOf J authorization now s.services.order.db.tables)).map
      fun d => { s with dashboard := d }
  | .refuse i j => (s.dashboard.respond i j fun _ => .notOk).map fun d => { s with dashboard := d }
  | .reject i => (s.dashboard.reject i).map fun d => { s with dashboard := d }
  | .settle i => (s.dashboard.settle i).map fun d => { s with dashboard := d }
  | .mount => some { s with dashboard := s.dashboard.mount }

/-- What is stored are UUIDs. -/
def guard (_ : State) : Label → Prop
  | .placed orderId => isUUID orderId
  | _ => True

/-- The dashboard, with some orders in `localStorage` already, and the services. -/
def site (J : Jwt) (dflt : String) : LTS State Label :=
  .ofAct (fun s => (Saga.system dflt).init s.services ∧
      ∃ stored : List UUID, (∀ o ∈ stored, isUUID o) ∧ s.dashboard = { storedOrders := stored })
    guard (act J dflt)

/-- The order shown is one of the service, of now or of before. -/
def About (t : Order.Tables) (orderId : UUID) (a : OrderResponse) : Prop :=
  ∃ row, t.orders.get? orderId = some row ∧ a.Ages (orderResponse row)

variable {J : Jwt} {dflt : String} {s s' s₁ s₂ s₃ : State} {l : Label} {ls : List Label} {o : UUID}
  {a a' a'' : OrderResponse} {t t' : Order.Tables} {d d' : Tracker} {i j : ℕ} {poll : Poll}

/-! ### Orders get older -/

theorem orderResponse_ages {r r' : OrderRow} (h : r.Ages r') :
    (orderResponse r).Ages (orderResponse r') := by
  rcases h with rfl | ⟨hp, status, updatedAt, rfl⟩
  · exact .inl rfl
  · exact .inr ⟨hp, status, updatedAt, rfl⟩

theorem response_ages_trans (h : a.Ages a') (h' : a'.Ages a'') : a.Ages a'' := by
  rcases h with rfl | ⟨hp, status, updatedAt, rfl⟩
  · exact h'
  · rcases h' with rfl | ⟨-, status', updatedAt', rfl⟩
    · exact .inr ⟨hp, status, updatedAt, rfl⟩
    · exact .inr ⟨hp, status', updatedAt', rfl⟩

/-- The orders of `t` are still there, and have aged. -/
def Older (t t' : Order.Tables) : Prop :=
  ∀ o row, t.orders.get? o = some row → ∃ row', t'.orders.get? o = some row' ∧ row.Ages row'

theorem older_refl : Older t t := fun _ row hrow => ⟨row, hrow, .inl rfl⟩

theorem Older.trans {t'' : Order.Tables} (h : Older t t') (h' : Older t' t'') : Older t t'' := by
  intro o row hrow
  obtain ⟨row', hrow', hages⟩ := h o row hrow
  obtain ⟨row'', hrow'', hages'⟩ := h' o row' hrow'
  exact ⟨row'', hrow'', Saga.ages_trans hages hages'⟩

theorem About.older (h : About t o a) (ht : Older t t') : About t' o a := by
  obtain ⟨row, hrow, ha⟩ := h
  obtain ⟨row', hrow', hages⟩ := ht o row hrow
  exact ⟨row', hrow', response_ages_trans ha (orderResponse_ages hages)⟩

theorem About.id_eq (h : About t o a) : a.id = uuidStr o := by
  obtain ⟨row, hrow, ha⟩ := h
  have hid : row.id = o := Table.key_of_get? hrow
  have hrowId : (orderResponse row).id = uuidStr row.id := rfl
  rcases ha with heq | ⟨-, _, _, heq⟩
  · rw [← heq, hrowId, hid]
  · rw [← hid, ← hrowId, heq]

/-- What the service answers. -/
theorem about_of_responseOf {authorization : Option String} {now : Time}
    (h : responseOf J authorization now t o = .ok a) :
    ∃ row, t.orders.get? o = some row ∧ a = orderResponse row := by
  unfold responseOf at h
  split at h
  · rename_i order hget
    obtain ⟨-, row, -, hrow, -, rfl⟩ := Order.getOrder_eq_ok.1 hget
    exact ⟨row, hrow, (Response.ok.inj h).symm⟩
  · cases h

/-! ### The calls -/

/-- What a step does to the calls of `fetchOrders`. -/
inductive Change (s : State) : State → Prop
  /-- The services go on. -/
  | services {n : Saga.State} : Older s.services.order.db.tables n.order.db.tables →
      Change s { s with services := n }
  | placed {orderId : UUID} : isUUID orderId →
      Change s { s with dashboard := s.dashboard.placed orderId }
  | fetchOrders : Change s { s with dashboard := s.dashboard.fetchOrders }
  /-- A request gets an answer, which is that of the service or an error. -/
  | responds {i j : ℕ} {poll : Poll} {id : UUID} {response : Response} : s.dashboard.polls[i]? =
      some (some poll) → poll[j]? = some (id, .awaited) → (∀ a, response = .ok a → ∃ row,
        s.services.order.db.tables.orders.get? id = some row ∧ a = orderResponse row) →
      Change s { s with dashboard := { s.dashboard with
        polls := s.dashboard.polls.set i (some (poll.set j (id, response))) } }
  | rejects {i : ℕ} : Change s { s with dashboard := { s.dashboard with
      polls := s.dashboard.polls.set i none } }
  | settles {i : ℕ} {poll : Poll} : s.dashboard.polls[i]? = some (some poll) →
      Change s { s with dashboard := { s.dashboard with
        orders := poll.filterMap Tracker.fetched, polls := s.dashboard.polls.set i none } }
  | mounts : Change s { s with dashboard := s.dashboard.mount }

theorem respond_eq_some {answer : UUID → Response} (h : d.respond i j answer = some d') :
    ∃ poll id, d.polls[i]? = some (some poll) ∧ poll[j]? = some (id, .awaited) ∧
      d' = { d with polls := d.polls.set i (some (poll.set j (id, answer id))) } := by
  obtain ⟨poll, hpoll, h⟩ := Option.bind_eq_some_iff.1 h
  obtain ⟨⟨id, response⟩, hj, h⟩ := Option.bind_eq_some_iff.1 h
  dsimp only at h
  split_ifs at h with haw
  obtain rfl := haw
  exact ⟨poll, id, Option.join_eq_some_iff.1 hpoll, hj, (Option.some.inj h).symm⟩

theorem settle_eq_some (h : d.settle i = some d') : ∃ poll, d.polls[i]? = some (some poll) ∧
    (∀ x ∈ poll, x.2 ≠ .awaited) ∧
      d' = { d with orders := poll.filterMap Tracker.fetched, polls := d.polls.set i none } := by
  obtain ⟨poll, hpoll, h⟩ := Option.bind_eq_some_iff.1 h
  split_ifs at h with hall
  exact ⟨poll, Option.join_eq_some_iff.1 hpoll, hall, (Option.some.inj h).symm⟩

theorem step_change (hp : Saga.Procs dflt s.services) (hst : (site J dflt).step s l s') :
    Change s s' := by
  obtain ⟨hg, ha⟩ := hst
  cases l with
  | services l =>
    obtain ⟨n, hn, rfl⟩ := Option.map_eq_some_iff.1 ha
    have hst : (Saga.system dflt).step s.services l n := ⟨trivial, hn⟩
    exact .services fun o row hrow => Saga.order_ages hp (.single hst) hrow
  | placed orderId =>
    obtain rfl := Option.some.inj ha
    exact .placed hg
  | fetchOrders =>
    obtain rfl := Option.some.inj ha
    exact .fetchOrders
  | answer i j authorization now =>
    obtain ⟨d, hd, rfl⟩ := Option.map_eq_some_iff.1 ha
    obtain ⟨poll, id, hpoll, hj, rfl⟩ := respond_eq_some hd
    exact .responds hpoll hj fun a h => about_of_responseOf h
  | refuse i j =>
    obtain ⟨d, hd, rfl⟩ := Option.map_eq_some_iff.1 ha
    obtain ⟨poll, id, hpoll, hj, rfl⟩ := respond_eq_some hd
    exact .responds hpoll hj fun a h => by cases h
  | reject i =>
    obtain ⟨d, hd, rfl⟩ := Option.map_eq_some_iff.1 ha
    obtain ⟨-, -, h⟩ := Option.bind_eq_some_iff.1 hd
    obtain rfl := Option.some.inj h
    exact .rejects
  | settle i =>
    obtain ⟨d, hd, rfl⟩ := Option.map_eq_some_iff.1 ha
    obtain ⟨poll, hpoll, -, rfl⟩ := settle_eq_some hd
    exact .settles hpoll
  | mount =>
    obtain rfl := Option.some.inj ha
    exact .mounts

/-! ### What is on display -/

/-- What the calls have brought so far, and what is on display, comes from the service. -/
structure Truthful (s : State) : Prop where
  stored : ∀ o ∈ s.dashboard.storedOrders, isUUID o
  polls : ∀ poll, some poll ∈ s.dashboard.polls → ∀ x ∈ poll, isUUID x.1 ∧
    ∀ a, x.2 = .ok a → About s.services.order.db.tables x.1 a
  orders : ∀ a ∈ s.dashboard.orders, ∃ o, isUUID o ∧ About s.services.order.db.tables o a

theorem Truthful.change (h : Truthful s) (hc : Change s s') : Truthful s' := by
  obtain ⟨hstored, hpolls, horders⟩ := h
  -- a call that is not new has been there before, or has got an answer
  have set_none {i : ℕ} : ∀ poll, some poll ∈ s.dashboard.polls.set i none →
      ∀ x ∈ poll, isUUID x.1 ∧ ∀ a, x.2 = .ok a → About s.services.order.db.tables x.1 a := by
    intro poll hm
    rcases List.mem_or_eq_of_mem_set hm with hm | hm
    · exact hpolls poll hm
    · cases hm
  cases hc with
  | services hold =>
    refine ⟨hstored, fun poll hm x hx => ?_, fun a ha => ?_⟩
    · obtain ⟨hid, hab⟩ := hpolls poll hm x hx
      exact ⟨hid, fun a ha => (hab a ha).older hold⟩
    · obtain ⟨o, ho, hab⟩ := horders a ha
      exact ⟨o, ho, hab.older hold⟩
  | placed ho =>
    exact ⟨List.forall_mem_append.2 ⟨hstored, List.forall_mem_singleton.2 ho⟩, hpolls, horders⟩
  | fetchOrders =>
    simp only [Tracker.fetchOrders]
    split_ifs
    · refine ⟨hstored, fun poll hm => ?_, fun a ha => by cases ha⟩
      rcases List.mem_append.1 hm with hm | hm
      · exact hpolls poll hm
      · simp at hm
    · refine ⟨hstored, fun poll hm x hx => ?_, horders⟩
      rcases List.mem_append.1 hm with hm | hm
      · exact hpolls poll hm x hx
      · obtain rfl := Option.some.inj (List.mem_singleton.1 hm)
        obtain ⟨o, ho, rfl⟩ := List.mem_map.1 hx
        exact ⟨hstored o ho, fun a ha => by cases ha⟩
  | responds hi hj hresponse =>
    refine ⟨hstored, fun poll' hm x hx => ?_, horders⟩
    rcases List.mem_or_eq_of_mem_set hm with hm | hm
    · exact hpolls poll' hm x hx
    · obtain rfl := Option.some.inj hm
      have hpoll := hpolls _ (List.mem_of_getElem? hi)
      rcases List.mem_or_eq_of_mem_set hx with hx | rfl
      · exact hpoll x hx
      · refine ⟨(hpoll _ (List.mem_of_getElem? hj)).1, fun a ha => ?_⟩
        obtain ⟨row, hrow, rfl⟩ := hresponse a ha
        exact ⟨row, hrow, .inl rfl⟩
  | rejects => exact ⟨hstored, set_none, horders⟩
  | settles hi =>
    refine ⟨hstored, set_none, fun a ha => ?_⟩
    obtain ⟨⟨o, response⟩, hx, hf⟩ := List.mem_filterMap.1 ha
    obtain ⟨ho, hab⟩ := hpolls _ (List.mem_of_getElem? hi) _ hx
    cases response with
    | ok order =>
      obtain rfl := Option.some.inj hf
      exact ⟨o, ho, hab _ rfl⟩
    | awaited => cases hf
    | notOk => cases hf
  | mounts =>
    refine ⟨hstored, fun poll hm => ?_, fun a ha => by cases ha⟩
    obtain ⟨_, -, hx⟩ := List.mem_map.1 hm
    cases hx

/-- The services that a dashboard asks run as they do by themselves. -/
theorem services_reachable (h : (site J dflt).Reachable s) :
    (Saga.system dflt).Reachable s.services := by
  refine h.invariant (I := fun s => (Saga.system dflt).Reachable s.services) ?_ ?_
  · rintro s ⟨h₀, -⟩
    exact .init h₀
  · rintro s l s' hr ⟨-, ha⟩
    cases l with
    | services l =>
      obtain ⟨n, hn, rfl⟩ := Option.map_eq_some_iff.1 ha
      exact hr.tail ⟨trivial, hn⟩
    | placed orderId =>
      obtain rfl := Option.some.inj ha
      exact hr
    | fetchOrders =>
      obtain rfl := Option.some.inj ha
      exact hr
    | mount =>
      obtain rfl := Option.some.inj ha
      exact hr
    | answer | refuse | reject | settle =>
      obtain ⟨d, -, rfl⟩ := Option.map_eq_some_iff.1 ha
      exact hr

theorem procs (h : (site J dflt).Reachable s) : Saga.Procs dflt s.services := by
  obtain ⟨n₀, ls, ⟨t₀, ht₀, rfl⟩, hr⟩ := services_reachable h
  exact (Saga.run_consistent ht₀ hr).2

theorem truthful (h : (site J dflt).Reachable s) : Truthful s := by
  have hmain : (site J dflt).Reachable s ∧ Truthful s := by
    refine h.invariant (I := fun s => (site J dflt).Reachable s ∧ Truthful s) ?_ ?_
    · rintro s ⟨h₀, stored, hstored, hd⟩
      refine ⟨.init ⟨h₀, stored, hstored, hd⟩, ?_, ?_, ?_⟩
      · rwa [hd]
      · rw [hd]
        exact fun poll hm => by cases hm
      · rw [hd]
        exact fun a ha => by cases ha
    · rintro s l s' ⟨hr, ht⟩ hst
      exact ⟨hr.tail hst, ht.change (step_change (procs hr) hst)⟩
  exact hmain.2

/-- What a call has brought that began when the tables were `t`: it is not older than they are. -/
structure Since (t : Order.Tables) (stored : List UUID) (k : ℕ) (s : State) : Prop where
  tables : Older t s.services.order.db.tables
  begun : k < s.dashboard.polls.length
  fresh : ∀ poll, s.dashboard.polls[k]? = some (some poll) → poll.map Prod.fst = stored ∧
    ∀ x ∈ poll, ∀ a, x.2 = .ok a → ∀ row, t.orders.get? x.1 = some row →
      (orderResponse row).Ages a

variable {k : ℕ} {stored : List UUID}

/-- A call that has begun with the tables as they are. -/
theorem since_fetchOrders : Since s.services.order.db.tables s.dashboard.storedOrders
    s.dashboard.polls.length { s with dashboard := s.dashboard.fetchOrders } := by
  refine ⟨older_refl, ?_, fun poll hpoll => ?_⟩
  · simp only [Tracker.fetchOrders]
    split_ifs <;> simp
  · simp only [Tracker.fetchOrders] at hpoll
    split_ifs at hpoll
    · simp at hpoll
    · obtain rfl : s.dashboard.storedOrders.map (fun id => (id, Response.awaited)) = poll := by
        simpa using hpoll
      refine ⟨List.map_map.trans (List.map_id _), fun x hx a ha => ?_⟩
      obtain ⟨o, -, rfl⟩ := List.mem_map.1 hx
      cases ha

theorem Since.change (h : Since t stored k s) (hc : Change s s') : Since t stored k s' := by
  obtain ⟨htables, hbegun, hfresh⟩ := h
  have set_none {i : ℕ} : ∀ poll, (s.dashboard.polls.set i none)[k]? = some (some poll) →
      s.dashboard.polls[k]? = some (some poll) := by
    intro poll hpoll
    rw [List.getElem?_set] at hpoll
    split_ifs at hpoll with hik hlt
    · cases hpoll
    · exact hpoll
  cases hc with
  | services hold => exact ⟨htables.trans hold, hbegun, hfresh⟩
  | placed _ => exact ⟨htables, hbegun, hfresh⟩
  | fetchOrders =>
    simp only [Tracker.fetchOrders]
    split_ifs
    all_goals
      refine ⟨htables, ?_, fun poll hpoll => hfresh poll ?_⟩
      · rw [List.length_append]
        exact Nat.lt_add_right _ hbegun
      · rwa [List.getElem?_append_left hbegun] at hpoll
  | @responds i j poll id response hi hj hresponse =>
    refine ⟨htables, by rwa [List.length_set], fun poll' hpoll' => ?_⟩
    by_cases hik : i = k
    · subst hik
      rw [List.getElem?_set_self hbegun] at hpoll'
      obtain rfl := Option.some.inj (Option.some.inj hpoll')
      obtain ⟨hids, hold⟩ := hfresh poll hi
      refine ⟨?_, fun x hx a ha row hrow => ?_⟩
      · -- the request is for the same order as before
        rw [← hids, List.map_set]
        obtain ⟨hlt, hget⟩ := List.getElem?_eq_some_iff.1 ((List.getElem?_map ..).trans
          (congrArg (Option.map Prod.fst) hj))
        rw [← hget]
        exact List.set_getElem_self hlt
      · rcases List.mem_or_eq_of_mem_set hx with hx | rfl
        · exact hold x hx a ha row hrow
        · obtain ⟨row', hrow', rfl⟩ := hresponse a ha
          obtain ⟨row'', hrow'', hages⟩ := htables id row hrow
          obtain rfl := Option.some.inj (hrow'.symm.trans hrow'')
          exact orderResponse_ages hages
    · rw [List.getElem?_set_ne hik] at hpoll'
      exact hfresh poll' hpoll'
  | rejects =>
    refine ⟨htables, by rwa [List.length_set], fun poll hpoll => hfresh poll (set_none poll hpoll)⟩
  | settles _ =>
    refine ⟨htables, by rwa [List.length_set], fun poll hpoll => hfresh poll (set_none poll hpoll)⟩
  | mounts =>
    refine ⟨htables, by rwa [Tracker.mount, List.length_map], fun poll hpoll => ?_⟩
    simp only [Tracker.mount, List.getElem?_map, Option.map_eq_some_iff] at hpoll
    obtain ⟨_, -, hx⟩ := hpoll
    cases hx

/-- What a run keeps. -/
theorem run_change {I : State → Prop} (hs : (site J dflt).Reachable s)
    (hr : (site J dflt).Run s ls s') (h₀ : I s)
    (hI : ∀ s s', I s → Change s s' → I s') : I s' := by
  have hmain : (site J dflt).Reachable s' ∧ I s' := by
    refine hr.invariant (I := fun s => (site J dflt).Reachable s ∧ I s) ⟨hs, h₀⟩ ?_
    rintro s l s' ⟨hreach, hI₁⟩ hst
    exact ⟨hreach.tail hst, hI _ _ hI₁ (step_change (procs hreach) hst)⟩
  exact hmain.2

theorem sublist_filterMap {α β γ : Type} {f : α → Option β} {g : β → γ} {h : α → γ} {l : List α}
    (hf : ∀ x ∈ l, ∀ y, f x = some y → g y = h x) :
    ((l.filterMap f).map g).Sublist (l.map h) := by
  induction l with
  | nil => exact .slnil
  | cons x l ih =>
    obtain ⟨hx, hl⟩ := List.forall_mem_cons.1 hf
    rw [List.filterMap_cons, List.map_cons]
    cases hfx : f x with
    | none => exact (ih hl).cons _
    | some y =>
      rw [List.map_cons, hx y hfx]
      exact (ih hl).cons_cons _

/-! ### Runs of calls -/

section Calls

variable {n n' : Saga.State} {services : List Saga.Label} {authorization : Option String}
  {now : Time} {c : Auth.AccessToken} {row row' : OrderRow}

theorem run_services (h : (Saga.system dflt).Run n services n') :
    (site J dflt).Run ⟨n, d⟩ (services.map .services) ⟨n', d⟩ := by
  induction h with
  | refl => exact .refl
  | snoc _ hst ih =>
    rw [List.map_append]
    exact ih.snoc ⟨trivial, congrArg (Option.map _) hst.2⟩

/-- A call for one order begins. -/
theorem step_fetchOrders (hstored : d.storedOrders = [o]) : (site J dflt).step ⟨n, d⟩ .fetchOrders
    ⟨n, { d with polls := d.polls ++ [some [(o, .awaited)]] }⟩ := by
  refine ⟨trivial, ?_⟩
  simp [act, Tracker.fetchOrders, hstored]

/-- Its request is answered. -/
theorem step_answer (hi : d.polls[i]? = some (some [(o, .awaited)]))
    (hget : getOrder J authorization now o n.order.db.tables = .ok a) :
    (site J dflt).step ⟨n, d⟩ (.answer i 0 authorization now)
      ⟨n, { d with polls := d.polls.set i (some [(o, .ok a)]) }⟩ := by
  have hresponse : responseOf J authorization now n.order.db.tables o = .ok a := by
    simp [responseOf, hget]
  refine ⟨trivial, ?_⟩
  simp [act, Tracker.respond, hi, hresponse]

/-- A call ends. -/
theorem step_settle (hi : d.polls[i]? = some (some [(o, .ok a)])) :
    (site J dflt).step ⟨n, d⟩ (.settle i)
      ⟨n, { d with orders := [a], polls := d.polls.set i none }⟩ := by
  refine ⟨trivial, ?_⟩
  simp [act, Tracker.settle, hi, Tracker.fetched]

theorem getOrder_row (hc : Order.Presents J authorization now c)
    (hu : uuidStr c.sub = uuidStr row.userId) (hrow : t.orders.get? o = some row) :
    getOrder J authorization now o t = .ok (orderResponse row) :=
  Order.getOrder_eq_ok.2 ⟨c, row, hc, hrow, hu.symm, rfl⟩

/-- An order that is `PENDING`, and whose payment fails then. -/
def seventy : OrderRow :=
  ⟨70, 1, 5, [⟨0x11111111111111111111111111111111, 2, 10⟩], 2000, .pending, some "failure", none, 0,
    0⟩

def seventyFailed : OrderRow := { seventy with status := .paymentFailed, updatedAt := 3 }

theorem exists_failed : ∃ n services n', (Saga.system "success").Reachable n ∧
    (Saga.system "success").Run n services n' ∧
    n.order.db.tables.orders.get? 70 = some seventy ∧
    n'.order.db.tables.orders.get? 70 = some seventyFailed := by
  let req : Order.Request :=
    ⟨1, ⟨5, [⟨0x11111111111111111111111111111111, 2, 10⟩]⟩, some "failure", none⟩
  let before : List Saga.Label := [.request req, .run .order 0 ⟨70, 1, 2, 0⟩]
  let after : List Saga.Label := [.relay .order 2 (some 0),
    .deliver .restaurant ⟨1, .orderPlaced, 0, Order.eventPayload req 70⟩,
    .run .restaurant 0 ⟨0, 11, 12, 0⟩, .relay .restaurant 12 none,
    .deliver .payment ⟨11, .stockReserved, 0, Order.eventPayload req 70⟩,
    .run .payment 0 ⟨71, 21, 22, 0⟩, .run .payment 0 ⟨0, 23, 24, 0⟩,
    .run .payment 0 ⟨0, 41, 42, 1⟩, .relay .payment 42 (some 2),
    .deliver .order ⟨41, .paymentFailed, 1, { orderId := some 70 }⟩,
    .run .order 1 ⟨0, 51, 52, 3⟩]
  have hrun : ((Saga.State.start Saga.seeded).runs "success" before).bind (fun n =>
      (n.runs "success" after).map fun n' =>
        (n.order.db.tables.orders.get? 70, n'.order.db.tables.orders.get? 70)) =
      some (some seventy, some seventyFailed) := by
    decide +kernel
  obtain ⟨n, hn, hrest⟩ := Option.bind_eq_some_iff.1 hrun
  obtain ⟨n', hn', hobs⟩ := Option.map_eq_some_iff.1 hrest
  obtain ⟨hrow, hrow'⟩ := Prod.mk.inj hobs
  exact ⟨n, after, n', ⟨_, before, ⟨Saga.seeded, Saga.migrated_seeded, rfl⟩, Saga.run_of_runs hn⟩,
    Saga.run_of_runs hn', hrow, hrow'⟩

theorem exists_header : ∃ authorization now c, Order.Presents Order.plainJwt authorization now c ∧
    c.sub = 1 :=
  ⟨some ("Bearer " ++ Order.plainJwt.encode (Auth.createAccessToken 1 "a@b.c" 0)), 4,
    Auth.createAccessToken 1 "a@b.c" 0,
    ⟨_, Order.bearer?_bearer _, Order.plainJwt.verify_encode _, Nat.zero_le 4,
      show 4 < 0 + 15 * 60 by decide⟩, rfl⟩

end Calls

/-! ### What the calls show -/

/-- **What a call of `fetchOrders` shows.**  A call begins in the state `s`, and ends after any run
of the services and of other calls.  Then each order on display is one of those stored when it
began, none more often than it is stored, so none twice if no id is stored twice; it is not older
than it was then in the database, nor than it was on display then; and what is on display is true
still, unless it says `PENDING`. -/
theorem display_ages (hs : (site J dflt).Reachable s)
    (hbegin : (site J dflt).step s .fetchOrders s₁) (hr : (site J dflt).Run s₁ ls s₂)
    (hend : (site J dflt).step s₂ (.settle s.dashboard.polls.length) s₃) :
    (s₃.dashboard.orders.map OrderResponse.id).Sublist (s.dashboard.storedOrders.map uuidStr) ∧
    (s.dashboard.storedOrders.Nodup → (s₃.dashboard.orders.map OrderResponse.id).Nodup) ∧
    ∀ a ∈ s₃.dashboard.orders, ∃ o ∈ s.dashboard.storedOrders, a.id = uuidStr o ∧
      (∀ row, s.services.order.db.tables.orders.get? o = some row → (orderResponse row).Ages a) ∧
      (∀ a₀ ∈ s.dashboard.orders, a₀.id = a.id → a₀.Ages a) ∧
      ∃ row, s₃.services.order.db.tables.orders.get? o = some row ∧ a.Ages (orderResponse row) := by
  have hs₁ := hs.tail hbegin
  obtain rfl := Option.some.inj hbegin.2
  have ht := truthful hs
  have ht₂ := truthful (hs₁.trans hr)
  have hsince := run_change hs₁ hr since_fetchOrders fun _ _ h hc => h.change hc
  obtain ⟨d, hd, rfl⟩ := Option.map_eq_some_iff.1 hend.2
  obtain ⟨poll, hpoll, -, rfl⟩ := settle_eq_some hd
  obtain ⟨hids, hfresh⟩ := hsince.fresh poll hpoll
  have hbrought := ht₂.polls poll (List.mem_of_getElem? hpoll)
  have fetched {x : UUID × Response} {a : OrderResponse} (h : Tracker.fetched x = some a) :
      x.2 = .ok a := by
    obtain ⟨o, response⟩ := x
    cases response with
    | ok order => exact congrArg Response.ok (Option.some.inj h)
    | awaited => cases h
    | notOk => cases h
  have hsub : ((poll.filterMap Tracker.fetched).map OrderResponse.id).Sublist
      (s.dashboard.storedOrders.map uuidStr) := by
    have hmap : s.dashboard.storedOrders.map uuidStr = poll.map (fun x => uuidStr x.1) := by
      rw [← hids, List.map_map]
      rfl
    rw [hmap]
    exact sublist_filterMap fun x hx a ha => ((hbrought x hx).2 a (fetched ha)).id_eq
  refine ⟨hsub, fun hnodup => ?_, ?_⟩
  · refine hsub.nodup (List.Nodup.map_on (fun o ho o' ho' heq => ?_) hnodup)
    exact (uuidStr_inj (ht.stored o ho) (ht.stored o' ho')).1 heq
  · intro a ha
    obtain ⟨x, hx, hxa⟩ := List.mem_filterMap.1 ha
    obtain ⟨hid, hab⟩ := hbrought x hx
    have habout : About s₂.services.order.db.tables x.1 a := hab a (fetched hxa)
    have hnew := hfresh x hx a (fetched hxa)
    refine ⟨x.1, ?_, habout.id_eq, hnew, fun a₀ ha₀ heq => ?_, habout⟩
    · rw [← hids]
      exact List.mem_map_of_mem hx
    · -- it was one of the orders of the database
      obtain ⟨o₀, ho₀, hab₀⟩ := ht.orders a₀ ha₀
      have ho : o₀ = x.1 := by
        refine (uuidStr_inj ho₀ hid).1 ?_
        rw [← hab₀.id_eq, heq, habout.id_eq]
      obtain ⟨row, hrow, hages⟩ := hab₀
      exact response_ages_trans hages (hnew row (ho ▸ hrow))

/-- An order is on display as `PENDING` when a call begins; its payment fails before the call asks
for it. -/
theorem display_ages_failed : ∃ s s₁ ls s₂ s₃, (site Order.plainJwt "success").Reachable s ∧
    (site Order.plainJwt "success").step s .fetchOrders s₁ ∧
    (site Order.plainJwt "success").Run s₁ ls s₂ ∧
    (site Order.plainJwt "success").step s₂ (.settle s.dashboard.polls.length) s₃ ∧
    s.dashboard.orders = [orderResponse seventy] ∧
    (s₃.dashboard.orders.map OrderResponse.id).Nodup ∧
    ∃ a ∈ s₃.dashboard.orders, a.status = .paymentFailed ∧ (orderResponse seventy).Ages a := by
  obtain ⟨n, services, n', ⟨n₀, ls₀, h₀, hr₀⟩, hr, hrow, hrow'⟩ := exists_failed
  obtain ⟨authorization, now, c, hc, hu⟩ := exists_header
  have hget : getOrder Order.plainJwt authorization now 70 n.order.db.tables =
      .ok (orderResponse seventy) := getOrder_row hc (congrArg uuidStr hu) hrow
  have hget' : getOrder Order.plainJwt authorization now 70 n'.order.db.tables =
      .ok (orderResponse seventyFailed) := getOrder_row hc (congrArg uuidStr hu) hrow'
  let showing (orders : List OrderResponse) (polls : List (Option Poll)) : Tracker :=
    { storedOrders := [70], orders, polls }
  let awaited : Option Poll := some [(70, .awaited)]
  let A := site Order.plainJwt "success"
  -- a first call has ended before
  have h₁ : A.Run ⟨n₀, {}⟩ _ ⟨n, {}⟩ := run_services hr₀
  have h₂ : A.step ⟨n, {}⟩ (.placed 70) ⟨n, showing [] []⟩ :=
    ⟨show isUUID 70 by decide, rfl⟩
  have h₃ : A.step ⟨n, showing [] []⟩ _ ⟨n, showing [] [awaited]⟩ := step_fetchOrders rfl
  have h₄ : A.step ⟨n, showing [] [awaited]⟩ (.answer 0 0 authorization now)
      ⟨n, showing [] [some [(70, .ok (orderResponse seventy))]]⟩ := step_answer rfl hget
  have h₅ : A.step ⟨n, showing [] [some [(70, .ok (orderResponse seventy))]]⟩ (.settle 0)
      ⟨n, showing [orderResponse seventy] [none]⟩ := step_settle rfl
  have hreach : A.Reachable ⟨n, showing [orderResponse seventy] [none]⟩ :=
    ⟨_, _, ⟨h₀, [], List.forall_mem_nil _, rfl⟩, (((h₁.snoc h₂).snoc h₃).snoc h₄).snoc h₅⟩
  -- the second one
  have h₆ : A.step ⟨n, showing [orderResponse seventy] [none]⟩ .fetchOrders
      ⟨n, showing [orderResponse seventy] [none, awaited]⟩ := step_fetchOrders rfl
  have h₇ : A.Run ⟨n, showing [orderResponse seventy] [none, awaited]⟩ _
      ⟨n', showing [orderResponse seventy] [none, awaited]⟩ := run_services hr
  have h₈ : A.step ⟨n', showing [orderResponse seventy] [none, awaited]⟩
      (.answer 1 0 authorization now) ⟨n', showing [orderResponse seventy]
        [none, some [(70, .ok (orderResponse seventyFailed))]]⟩ := step_answer rfl hget'
  have h₉ : A.step ⟨n', showing [orderResponse seventy]
      [none, some [(70, .ok (orderResponse seventyFailed))]]⟩ (.settle 1)
      ⟨n', showing [orderResponse seventyFailed] [none, none]⟩ := step_settle rfl
  obtain ⟨-, hnodup, hshown⟩ := display_ages hreach h₆ (h₇.snoc h₈) h₉
  obtain ⟨-, -, -, -, hages, -⟩ := hshown _ (List.mem_singleton_self _)
  exact ⟨_, _, _, _, _, hreach, h₆, h₇.snoc h₈, h₉, rfl, hnodup (List.nodup_singleton 70), _,
    List.mem_singleton_self _, rfl, hages _ (List.mem_singleton_self _) rfl⟩

section Overlap

variable {n n' : Saga.State} {services : List Saga.Label} {authorization : Option String}
  {now : Time} {c : Auth.AccessToken} {row row' : OrderRow}

/-- **What has been shown may be taken back.**  Two calls are made at the same time, for an order
that is `row` when the first of them asks, and `row'` when the second does.  When the first of them
ends last, the order is shown as `row'` and then as `row` again, while the service has `row'`. -/
theorem display_goes_back (hn : (Saga.system dflt).Reachable n)
    (hr : (Saga.system dflt).Run n services n') (ho : isUUID o)
    (hrow : n.order.db.tables.orders.get? o = some row)
    (hrow' : n'.order.db.tables.orders.get? o = some row')
    (hc : Order.Presents J authorization now c) (hu : uuidStr c.sub = uuidStr row.userId) :
    ∃ s s', (site J dflt).Reachable s ∧ (site J dflt).step s (.settle 0) s' ∧ s'.services = n' ∧
      s.dashboard.orders = [orderResponse row'] ∧ s'.dashboard.orders = [orderResponse row] := by
  obtain ⟨n₀, ls₀, h₀, hr₀⟩ := hn
  have hu' : uuidStr c.sub = uuidStr row'.userId := by
    obtain ⟨t₀, ht₀, rfl⟩ := h₀
    obtain ⟨row'', hrow'', hages⟩ := Saga.order_ages (Saga.run_consistent ht₀ hr₀).2 hr hrow
    obtain rfl := Option.some.inj (hrow'.symm.trans hrow'')
    rcases hages with rfl | ⟨-, _, _, rfl⟩ <;> exact hu
  let asking (polls : List (Option Poll)) : Tracker := { storedOrders := [o], polls := polls }
  let awaited : Option Poll := some [(o, .awaited)]
  let first : Option Poll := some [(o, .ok (orderResponse row))]
  let second : Option Poll := some [(o, .ok (orderResponse row'))]
  -- the order is placed, and the first call asks for it
  have h₁ : (site J dflt).Run ⟨n₀, {}⟩ _ ⟨n, {}⟩ := run_services hr₀
  have h₂ : (site J dflt).step ⟨n, {}⟩ (.placed o) ⟨n, asking []⟩ := ⟨ho, rfl⟩
  have h₃ : (site J dflt).step ⟨n, asking []⟩ _ ⟨n, asking [awaited]⟩ := step_fetchOrders rfl
  have h₄ : (site J dflt).step ⟨n, asking [awaited]⟩ (.answer 0 0 _ _) ⟨n, asking [first]⟩ :=
    step_answer rfl (getOrder_row hc hu hrow)
  -- the services go on, and the second call asks and ends
  have h₅ : (site J dflt).Run ⟨n, asking [first]⟩ _ ⟨n', asking [first]⟩ := run_services hr
  have h₆ : (site J dflt).step ⟨n', asking [first]⟩ _ ⟨n', asking [first, awaited]⟩ :=
    step_fetchOrders rfl
  have h₇ : (site J dflt).step ⟨n', asking [first, awaited]⟩ (.answer 1 0 _ _)
      ⟨n', asking [first, second]⟩ := step_answer rfl (getOrder_row hc hu' hrow')
  have h₈ : (site J dflt).step ⟨n', asking [first, second]⟩ (.settle 1)
      ⟨n', { asking [first, none] with orders := [orderResponse row'] }⟩ := step_settle rfl
  have hrun := (((((h₁.snoc h₂).snoc h₃).snoc h₄).trans h₅).snoc h₆).snoc h₇ |>.snoc h₈
  exact ⟨_, _, ⟨_, _, ⟨h₀, [], List.forall_mem_nil _, rfl⟩, hrun⟩, step_settle rfl, rfl, rfl, rfl⟩

/-- An order whose payment has failed is shown as such, and then as `PENDING` again. -/
theorem display_goes_back_failed : ∃ s s', (site Order.plainJwt "success").Reachable s ∧
    (site Order.plainJwt "success").step s (.settle 0) s' ∧
    s'.services.order.db.tables.orders.get? 70 = some seventyFailed ∧
    s.dashboard.orders = [orderResponse seventyFailed] ∧
    s'.dashboard.orders = [orderResponse seventy] := by
  obtain ⟨n, services, n', hn, hr, hrow, hrow'⟩ := exists_failed
  obtain ⟨authorization, now, c, hc, hu⟩ := exists_header
  obtain ⟨s, s', hs, hst, hservices, horders, horders'⟩ :=
    display_goes_back hn hr (by decide) hrow hrow' hc (congrArg uuidStr hu)
  exact ⟨s, s', hs, hst, hservices ▸ hrow', horders, horders'⟩

end Overlap

end Polling

end Frontend

end FoodFlow
