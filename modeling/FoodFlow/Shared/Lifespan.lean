import FoodFlow.Shared.Drain

/-!
# The life of the relay

`run_outbox_relay`: the loop around `_poll_and_publish`, while the requests and the consumer of the
service go on writing, up to the final call after `shutdown_event` has been set.  The process can be
killed at any point and started again.

* `Worker`, `Relay.worker` : the loop, with its calls as in `FoodFlow.Shared.Drain`;
* `Worker.Attended` : the transaction there is belongs to the call there is;
* `Worker.Flushes` : what has been committed by some time is not passed over by the final call;
* `Worker.measure` : what is left to do once `shutdown_event` is set;
* `Relay.shutdown_flushes` : **what has been committed before the final call is published when the
  relay stops, and left to itself it stops.**
-/

namespace FoodFlow

namespace Relay

/-- Where `run_outbox_relay` is. -/
inductive Stage where
  /-- The process does not run. -/
  | down
  /-- In a call of `_poll_and_publish`, or after it. -/
  | polling
  /-- `asyncio.wait_for(shutdown_event.wait(), timeout=poll_interval)` -/
  | waiting
  /-- `asyncio.sleep(poll_interval)` -/
  | sleeping
  /-- In the final call of `_poll_and_publish`, or after it. -/
  | flushing
  | stopped
  deriving DecidableEq, Repr

/-- The relay of a service, with its outbox and the last call of `_poll_and_publish`. -/
structure Worker where
  relay : State
  call : Call
  stage : Stage
  /-- `shutdown_event.is_set()` -/
  shutdown : Bool

/-- A label of those that write into the outbox. -/
def Label.isWrite : Label → Bool
  | .connect | .insert _ _ | .commit _ | .rollback _ => true
  | _ => false

/-- What can happen. -/
inductive Event where
  /-- The process starts, and with it the relay. -/
  | start
  | kill
  /-- `shutdown_event.set()` -/
  | shutdown
  /-- A request or the consumer writes. -/
  | write (l : Label)
  /-- The call of `_poll_and_publish` goes on. -/
  | call (l : Label)
  /-- The send of the call raises, or its transaction fails. -/
  | abort
  /-- The loop goes on, after a call or a pause. -/
  | next
  deriving DecidableEq, Repr

/-- The `SELECT` of the transaction is under way. -/
def Phase.selects : Phase → Bool
  | selecting _ _ => true
  | _ => false

theorem Phase.ne_selecting {p : Phase} {now : Time} {candidates : List OutboxRow}
    (h : p.selects = false) : p ≠ .selecting now candidates := by
  rintro rfl
  cases h

/-- A call of `_poll_and_publish` is awaited, or has just ended. -/
def Stage.calls : Stage → Bool
  | polling => true
  | flushing => true
  | _ => false

/-- How many stages there are still, once `shutdown_event` is set. -/
def Stage.left : Stage → ℕ
  | polling => 3
  | waiting => 2
  | sleeping => 2
  | flushing => 1
  | _ => 0

namespace Worker

/-- `while not shutdown_event.is_set()`: the next call, or the final one. -/
def loop (s : Worker) : Worker :=
  { s with call := .running 0, stage := if s.shutdown then .flushing else .polling }

/-- An empty outbox, and no process. -/
def empty : Worker := ⟨⟨.empty, [], [.idle], [], []⟩, .raised, .down, false⟩

/-- Performing an event. -/
def act (s : Worker) : Event → Option Worker
  | .start =>
    if s.stage = .down ∨ s.stage = .stopped then some ⟨s.relay, .running 0, .polling, false⟩
    else none
  | .kill =>
    (s.relay.act (.abort 0)).map fun relay => { s with relay, call := .raised, stage := .down }
  | .shutdown => if s.stage = .down then none else some { s with shutdown := true }
  | .write l => if l.isWrite then (s.relay.act l).map fun relay => { s with relay } else none
  | .call l =>
    if s.stage.calls then
      (Calls.act (fun _ => false) ⟨s.relay, [s.call]⟩ l).map fun c =>
        { s with relay := c.relay, call := c.calls.headD s.call }
    else none
  | .abort =>
    if s.stage.calls ∧ s.call.isRunning then
      (s.relay.act (.abort 0)).map fun relay => { s with relay, call := .raised }
    else none
  | .next =>
    match s.stage, s.call with
    | .polling, .returned 0 => some { s with stage := .waiting }
    | .polling, .returned (_ + 1) => some s.loop
    | .polling, .raised => some { s with stage := .sleeping }
    | .waiting, _ => some s.loop
    | .sleeping, _ => some s.loop
    | .flushing, .returned _ => some { s with stage := .stopped }
    | .flushing, .raised => some { s with stage := .stopped }
    | _, _ => none

end Worker

/-- The relay of a service, from an empty outbox on. -/
def worker : LTS Worker Event :=
  .ofAct (· = .empty) (fun _ _ => True) Worker.act

namespace Worker

variable {s s' : Worker} {e : Event} {p : Phase}

/-! ### The relay as one of the instances on the outbox -/

/-- The states of the relay are those of a relay instance. -/
theorem relay_reachable (h : worker.Reachable s) : lts.Reachable s.relay := by
  refine h.invariant (I := fun s => lts.Reachable s.relay) ?_ ?_
  · rintro _ rfl
    exact (LTS.Reachable.init rfl).tail (l := .launch) ⟨trivial, rfl⟩
  · rintro s e s' hI ⟨-, ha⟩
    cases e with
    | start =>
      simp only [act] at ha
      split_ifs at ha
      obtain rfl := Option.some.inj ha
      exact hI
    | kill =>
      obtain ⟨relay, hact, rfl⟩ := Option.map_eq_some_iff.1 ha
      exact hI.tail (l := .abort 0) ⟨trivial, hact⟩
    | shutdown =>
      simp only [act] at ha
      split_ifs at ha
      obtain rfl := Option.some.inj ha
      exact hI
    | write l =>
      simp only [act] at ha
      split_ifs at ha
      obtain ⟨relay, hact, rfl⟩ := Option.map_eq_some_iff.1 ha
      exact hI.tail ⟨trivial, hact⟩
    | call l =>
      simp only [act] at ha
      split_ifs at ha
      obtain ⟨c, hact, rfl⟩ := Option.map_eq_some_iff.1 ha
      have hcall : (draining fun _ => false).step ⟨s.relay, [s.call]⟩ l c := ⟨trivial, hact⟩
      obtain ⟨i, n, -, hst⟩ := Calls.step_cases hcall
      obtain ⟨l', hst⟩ := hst.relay
      exact hI.tail hst
    | abort =>
      simp only [act] at ha
      split_ifs at ha
      obtain ⟨relay, hact, rfl⟩ := Option.map_eq_some_iff.1 ha
      exact hI.tail (l := .abort 0) ⟨trivial, hact⟩
    | next =>
      simp only [act] at ha
      split at ha <;> first | (obtain rfl := Option.some.inj ha; exact hI) | cases ha

/-! ### The call and its transaction -/

/-- The call, as one that has the outbox to itself. -/
def calls (s : Worker) : Calls := ⟨s.relay, [s.call]⟩

/-- The call goes on by a step of its transaction. -/
theorem call_cases {l : Label} (h : s.act (.call l) = some s') : s.stage.calls = true ∧
    ∃ n c, s.call = .running n ∧ (draining fun _ => false).step s.calls l c ∧
      Calls.Step (fun _ => false) ⟨s.relay, [s.call]⟩ 0 n c ∧
      s' = { s with relay := c.relay, call := c.calls.headD s.call } := by
  simp only [act] at h
  split_ifs at h with hcalls
  obtain ⟨c, hact, rfl⟩ := Option.map_eq_some_iff.1 h
  have hcall : (draining fun _ => false).step ⟨s.relay, [s.call]⟩ l c := ⟨trivial, hact⟩
  obtain ⟨i, n, hi, hst⟩ := Calls.step_cases hcall
  -- there is one call
  obtain rfl : i = 0 := by
    have := (List.getElem?_eq_some_iff.1 hi).1
    simpa using this
  exact ⟨hcalls, n, c, Option.some.inj hi, hcall, hst, rfl⟩

/-- The phase `p` is that of the transaction of the last call. -/
structure Attended (s : Worker) (p : Phase) : Prop where
  relays : s.relay.relays = [p]
  idle : s.call.isRunning = false → p = .idle
  ended : s.stage.calls = false → s.call.isRunning = false
  /-- What the `SELECT` has still to try has not been published by anybody else. -/
  fresh : ∀ now candidates, p = .selecting now candidates → ∀ c ∈ candidates,
    ∃ row, s.relay.outbox.get? c.id = some row ∧ row.publishedAt = none
  set : s.stage = .flushing ∨ s.stage = .stopped → s.shutdown = true

/-- Those that write leave the relay alone, and what has been committed. -/
theorem relays_write {t t' : State} {l : Label} (hl : l.isWrite = true) (h : t.act l = some t') :
    t'.relays = t.relays ∧ t'.sends = t.sends ∧
      ∀ id row, t.outbox.get? id = some row → t'.outbox.get? id = some row := by
  cases l with
  | connect =>
    obtain rfl := Option.some.inj h
    exact ⟨rfl, rfl, fun _ _ h => h⟩
  | insert w row =>
    simp only [State.act] at h
    split at h
    · split_ifs at h
      obtain rfl := Option.some.inj h
      exact ⟨rfl, rfl, fun _ _ h => h⟩
    · cases h
  | commit w =>
    simp only [State.act] at h
    split at h
    · obtain rfl := Option.some.inj h
      exact ⟨rfl, rfl, fun id row hrow => get?_foldl_insert.1 row hrow⟩
    · cases h
  | rollback w =>
    obtain rfl := Option.some.inj h
    exact ⟨rfl, rfl, fun _ _ h => h⟩
  | _ => cases hl

theorem relays_setRelay {t : State} (hp : t.relays = [p]) (q : Phase) :
    (t.setRelay 0 q).relays = [q] := by
  simp [State.setRelay, hp]

/-- The transaction of the relay is aborted. -/
theorem act_abort {t t' : State} (hp : t.relays = [p]) (h : t.act (.abort 0) = some t') :
    t'.relays = [.idle] ∧ t'.outbox = t.outbox := by
  simp only [State.act, hp, List.getElem?_cons_zero, Option.some.injEq] at h
  subst h
  simp [State.setRelay, hp]

/-- There is no transaction. -/
theorem attended_idle (hrelays : s.relay.relays = [.idle])
    (hended : s.stage.calls = false → s.call.isRunning = false)
    (hset : s.stage = .flushing ∨ s.stage = .stopped → s.shutdown = true) :
    ∃ p, Attended s p :=
  ⟨.idle, hrelays, fun _ => rfl, hended, fun _ _ hp => absurd hp (Phase.ne_selecting rfl), hset⟩

theorem Attended.step (h : Attended s p) (hst : worker.step s e s') : ∃ p', Attended s' p' := by
  obtain ⟨-, ha⟩ := hst
  cases e with
  | start =>
    simp only [act] at ha
    split_ifs at ha with hstage
    obtain rfl := Option.some.inj ha
    have hend : s.stage.calls = false := by rcases hstage with hs | hs <;> rw [hs] <;> rfl
    obtain rfl : p = .idle := h.idle (h.ended hend)
    exact attended_idle h.relays (fun hs => by cases hs) (by simp)
  | kill =>
    obtain ⟨relay, hact, rfl⟩ := Option.map_eq_some_iff.1 ha
    exact attended_idle (act_abort h.relays hact).1 (fun _ => rfl) (by simp)
  | shutdown =>
    simp only [act] at ha
    split_ifs at ha
    obtain rfl := Option.some.inj ha
    exact ⟨p, h.relays, h.idle, h.ended, h.fresh, fun _ => rfl⟩
  | write l =>
    simp only [act] at ha
    split_ifs at ha with hl
    obtain ⟨relay, hact, rfl⟩ := Option.map_eq_some_iff.1 ha
    obtain ⟨hrelays, -, hkept⟩ := relays_write hl hact
    refine ⟨p, hrelays.trans h.relays, h.idle, h.ended, fun now cs hp c hc => ?_, h.set⟩
    obtain ⟨row, hrow, hn⟩ := h.fresh now cs hp c hc
    exact ⟨row, hkept _ _ hrow, hn⟩
  | call l =>
    obtain ⟨hcalls, n, c, hrun, -, hst, rfl⟩ := call_cases ha
    have hended : s.stage.calls = false → s.call.isRunning = false := fun hs => by
      simp [hcalls] at hs
    -- the call goes on, with its `SELECT` or after it
    have goes {t : State} (q : Phase) (ht : t.relays = [q])
        (hfresh : ∀ now candidates, q = .selecting now candidates → ∀ c ∈ candidates,
          ∃ row, t.outbox.get? c.id = some row ∧ row.publishedAt = none) :
        ∃ p', Attended { s with relay := t } p' :=
      ⟨q, ht, fun hc => by simp [hrun, Call.isRunning] at hc, hended, hfresh, h.set⟩
    have passes {t : State} (q : Phase) (ht : t.relays = [q]) (hq : q.selects = false) :
        ∃ p', Attended { s with relay := t } p' :=
      goes q ht fun _ _ hp => absurd hp (Phase.ne_selecting hq)
    cases hst with
    | @poll now cs _ hsnap =>
      refine goes _ (relays_setRelay h.relays _) ?_
      rintro _ _ ⟨⟩ c hc
      obtain ⟨hmem, hn⟩ := List.mem_filter.1 (hsnap.1.mem_iff.1 hc)
      exact ⟨c, Table.get?_of_mem hmem, by simpa using hn⟩
    | @skip now c cs hp _ =>
      obtain rfl : p = _ := Option.some.inj ((congrArg (·[0]?) h.relays).symm.trans hp)
      refine goes _ (relays_setRelay h.relays _) ?_
      rintro _ _ ⟨⟩ c hc
      exact h.fresh _ _ rfl c (List.mem_cons_of_mem _ hc)
    | take _ _ _ => exact passes _ (relays_setRelay h.relays _) rfl
    | raise _ hf => cases hf
    | send _ _ => exact passes _ (relays_setRelay h.relays _) rfl
    | update _ => exact passes _ (relays_setRelay h.relays _) rfl
    | leave _ =>
      exact attended_idle (relays_setRelay h.relays _) (fun _ => rfl) h.set
    | finish _ =>
      exact attended_idle (relays_setRelay h.relays _) (fun hs => by simp [hcalls] at hs) h.set
  | abort =>
    simp only [act] at ha
    split_ifs at ha with hcalls
    obtain ⟨relay, hact, rfl⟩ := Option.map_eq_some_iff.1 ha
    exact attended_idle (act_abort h.relays hact).1 (fun _ => rfl) h.set
  | next =>
    -- no call is going on
    have loops (hc : s.call.isRunning = false) : ∃ p', Attended s.loop p' := by
      obtain rfl := h.idle hc
      refine attended_idle h.relays (fun hs => ?_) fun hs => ?_
      · simp only [loop] at hs
        split_ifs at hs <;> cases hs
      · show s.shutdown = true
        by_contra hset
        simp [loop, hset] at hs
    simp only [act] at ha
    split at ha
    · rename_i hstage hc
      obtain rfl := Option.some.inj ha
      exact ⟨p, h.relays, h.idle, fun _ => by rw [hc]; rfl, h.fresh, by simp⟩
    · rename_i hstage hc
      obtain rfl := Option.some.inj ha
      exact loops (by rw [hc]; rfl)
    · rename_i hstage hc
      obtain rfl := Option.some.inj ha
      exact ⟨p, h.relays, h.idle, fun _ => by rw [hc]; rfl, h.fresh, by simp⟩
    · rename_i hstage
      obtain rfl := Option.some.inj ha
      exact loops (h.ended (by rw [hstage]; rfl))
    · rename_i hstage
      obtain rfl := Option.some.inj ha
      exact loops (h.ended (by rw [hstage]; rfl))
    · rename_i hstage hc
      obtain rfl := Option.some.inj ha
      exact ⟨p, h.relays, h.idle, fun _ => by rw [hc]; rfl, h.fresh, fun _ => h.set (.inl hstage)⟩
    · rename_i hstage hc
      obtain rfl := Option.some.inj ha
      exact ⟨p, h.relays, h.idle, fun _ => by rw [hc]; rfl, h.fresh, fun _ => h.set (.inl hstage)⟩
    · cases ha

theorem attended (h : worker.Reachable s) : ∃ p, Attended s p := by
  refine h.invariant (I := fun s => ∃ p, Attended s p) ?_ fun _ _ _ ⟨_, h⟩ hst => h.step hst
  rintro _ rfl
  exact attended_idle rfl (fun _ => rfl) (by simp [empty])

/-! ### What the final call does not pass over -/

/-- The rows `rows`, all of them committed, and the final call. -/
structure Flushes (rows : List OutboxRow) (s : Worker) : Prop where
  kept : ∀ r ∈ rows, ∃ r', s.relay.outbox.get? r.id = some r' ∧ r'.record = r.record
  listed : s.stage = .flushing → ∀ now candidates,
    s.relay.relays = [.selecting now candidates] → ∀ r ∈ rows, s.relay.Published r.id = false →
      ∃ c ∈ candidates, c.id = r.id
  done : s.stage = .stopped ∨ s.stage = .flushing ∧ s.call.isRunning = false →
    ∀ r ∈ rows, s.relay.Published r.id = true

/-- No transaction of the final call fails. -/
def Careful (s : Worker) (e : Event) : Prop := e = .abort → s.stage ≠ .flushing

/-- An outbox as time goes on: rows stay, with their records, and stay published. -/
def Grows (t t' : Table OutboxRow.id) : Prop :=
  ∀ id row, t.get? id = some row → ∃ row', t'.get? id = some row' ∧ row'.record = row.record ∧
    (row.publishedAt.isSome → row'.publishedAt.isSome)

variable {rows : List OutboxRow}

theorem grows_of_kept {t t' : Table OutboxRow.id}
    (h : ∀ id row, t.get? id = some row → t'.get? id = some row) : Grows t t' :=
  fun id row hrow => ⟨row, h id row hrow, rfl, fun hpub => hpub⟩

theorem grows_mark (id : UUID) (now : Time) (t : Table OutboxRow.id) :
    Grows t (markPublished id now t) := by
  intro id' row hrow
  refine ⟨_, get?_markPublished.trans (congrArg _ hrow), ?_⟩
  beta_reduce
  split_ifs
  · exact ⟨rfl, fun _ => rfl⟩
  · exact ⟨rfl, fun hpub => hpub⟩

theorem Grows.published {t t' : State} (h : Grows t.outbox t'.outbox) {id : UUID}
    (hpub : t.Published id = true) : t'.Published id = true := by
  unfold State.Published at hpub ⊢
  cases hrow : t.outbox.get? id with
  | none => simp [hrow] at hpub
  | some row =>
    obtain ⟨row', hrow', -, hmono⟩ := h id row hrow
    rw [hrow, Option.any_some] at hpub
    rw [hrow', Option.any_some]
    exact hmono hpub

/-- A step at which no `SELECT` of the final call begins or ends. -/
theorem Flushes.frame (h : Flushes rows s) (hgrows : Grows s.relay.outbox s'.relay.outbox)
    (hlisted : ∀ now candidates, s'.stage = .flushing →
      s'.relay.relays = [.selecting now candidates] →
        s.stage = .flushing ∧ s.relay.relays = [.selecting now candidates])
    (hdone : s'.stage = .stopped ∨ s'.stage = .flushing ∧ s'.call.isRunning = false →
      s.stage = .stopped ∨ s.stage = .flushing ∧ s.call.isRunning = false) :
    Flushes rows s' := by
  refine ⟨fun r hr => ?_, fun hs now cs hcs r hr hpub => ?_,
    fun hs r hr => hgrows.published (h.done (hdone hs) r hr)⟩
  · obtain ⟨r', hr', hrec⟩ := h.kept r hr
    obtain ⟨r'', hr'', hrec', -⟩ := hgrows _ _ hr'
    exact ⟨r'', hr'', hrec'.trans hrec⟩
  · obtain ⟨hstage, hrelays⟩ := hlisted now cs hs hcs
    refine h.listed hstage now cs hrelays r hr ?_
    by_contra hp
    rw [hgrows.published (by simpa using hp)] at hpub
    cases hpub

theorem Flushes.step (h : Flushes rows s) (hatt : Attended s p) (hst : worker.step s e s')
    (hcareful : Careful s e) : Flushes rows s' := by
  obtain ⟨-, ha⟩ := hst
  have same : Grows s.relay.outbox s.relay.outbox := grows_of_kept fun _ _ hrow => hrow
  cases e with
  | start =>
    simp only [act] at ha
    split_ifs at ha
    obtain rfl := Option.some.inj ha
    exact h.frame same (fun _ _ hs => by cases hs) (by simp)
  | kill =>
    obtain ⟨relay, hact, rfl⟩ := Option.map_eq_some_iff.1 ha
    have houtbox : relay.outbox = s.relay.outbox := (act_abort hatt.relays hact).2
    exact h.frame (houtbox ▸ same) (fun _ _ hs => by cases hs) (by simp)
  | shutdown =>
    simp only [act] at ha
    split_ifs at ha
    obtain rfl := Option.some.inj ha
    exact h.frame same (fun _ _ hs hcs => ⟨hs, hcs⟩) id
  | write l =>
    simp only [act] at ha
    split_ifs at ha with hl
    obtain ⟨relay, hact, rfl⟩ := Option.map_eq_some_iff.1 ha
    obtain ⟨hrelays, -, hkept⟩ := relays_write hl hact
    exact h.frame (grows_of_kept hkept) (fun _ _ hs hcs => ⟨hs, hrelays.symm.trans hcs⟩) id
  | abort =>
    simp only [act] at ha
    split_ifs at ha with hcalls
    obtain ⟨relay, hact, rfl⟩ := Option.map_eq_some_iff.1 ha
    have houtbox : relay.outbox = s.relay.outbox := (act_abort hatt.relays hact).2
    have hne : s.stage ≠ .flushing := hcareful rfl
    refine h.frame (houtbox ▸ same) (fun _ _ hs _ => absurd hs hne) ?_
    rintro (hs | ⟨hs, -⟩)
    · exact .inl hs
    · exact absurd hs hne
  | call l =>
    obtain ⟨hcalls, n, c, hrun, -, hst, rfl⟩ := call_cases ha
    have hstopped : s.stage ≠ .stopped := fun hs => by simp [hs, Stage.calls] at hcalls
    -- the call goes on, without a `SELECT` under way afterwards
    have goes {t : State} {call : Call} (q : Phase) (ht : t.relays = [q])
        (hq : q.selects = false) (hcall : call.isRunning = true)
        (hgrows : Grows s.relay.outbox t.outbox) :
        Flushes rows { s with relay := t, call := call } := by
      refine h.frame hgrows (fun now cs _ hcs => ?_) ?_
      · exact absurd (List.singleton_injective (ht.symm.trans hcs)) (Phase.ne_selecting hq)
      · rintro (hs | ⟨-, hc⟩)
        · exact absurd hs hstopped
        · simp [hcall] at hc
    have hrunning : s.call.isRunning = true := by rw [hrun]; rfl
    cases hst with
    | @poll now cs _ hsnap =>
      refine ⟨h.kept, fun _ now' cs' hcs r hr hpub => ?_, ?_⟩
      · obtain ⟨rfl, rfl⟩ : now = now' ∧ cs = cs' := by
          simpa using (relays_setRelay hatt.relays _).symm.trans hcs
        -- the row is one of those that the snapshot has found
        obtain ⟨r', hr', -⟩ := h.kept r hr
        have hpub' : (s.relay.outbox.get? r.id).any (·.publishedAt.isSome) = false := hpub
        rw [hr', Option.any_some] at hpub'
        refine ⟨r', hsnap.1.mem_iff.2 (List.mem_filter.2 ⟨Table.mem_of_get? hr', ?_⟩),
          Table.key_of_get? hr'⟩
        simpa using hpub'
      · rintro (hs | ⟨-, hc⟩)
        · exact absurd hs hstopped
        · exact absurd hc (by simp [hrunning])
    | @leave now hp =>
      refine ⟨h.kept, fun _ now' cs' hcs => ?_, ?_⟩
      · cases (relays_setRelay hatt.relays _).symm.trans hcs
      · rintro (hs | ⟨hs, -⟩) r hr
        · exact absurd hs hstopped
        · obtain rfl : p = _ := Option.some.inj ((congrArg (·[0]?) hatt.relays).symm.trans hp)
          by_contra hpub
          have hpub' : ¬ s.relay.Published r.id = true := hpub
          obtain ⟨c, hc, -⟩ := h.listed hs _ _ hatt.relays r hr (by simpa using hpub')
          cases hc
    | @skip now c cs hp hsel =>
      -- nobody else has locked or published the row
      obtain rfl : p = _ := Option.some.inj ((congrArg (·[0]?) hatt.relays).symm.trans hp)
      obtain ⟨row, hrow, hn⟩ := hatt.fresh now _ rfl c List.mem_cons_self
      refine absurd ⟨by simp [hrow, hn], fun q hq => ?_⟩ hsel
      have hrelays : s.relay.relays = [.selecting now (c :: cs)] := hatt.relays
      obtain rfl := List.mem_singleton.1 (hrelays ▸ hq)
      simp [Phase.Holds, Phase.row?]
    | take _ _ _ =>
      exact goes _ (relays_setRelay hatt.relays _) rfl hrunning same
    | raise _ hf => cases hf
    | send _ _ =>
      exact goes _ (relays_setRelay hatt.relays _) rfl hrunning same
    | update _ =>
      exact goes _ (relays_setRelay hatt.relays _) rfl hrunning same
    | finish _ =>
      exact goes _ (relays_setRelay hatt.relays _) rfl rfl (grows_mark _ _ _)
  | next =>
    -- the next call has not begun its `SELECT`
    have loops (hne : s.stage ≠ .stopped) (hc : s.call.isRunning = false) :
        Flushes rows s.loop := by
      obtain rfl := hatt.idle hc
      refine h.frame same (fun now cs _ hcs => ?_) ?_
      · cases hatt.relays.symm.trans hcs
      · rintro (hs | ⟨-, hc⟩)
        · simp only [loop] at hs
          split_ifs at hs
        · cases hc
    simp only [act] at ha
    split at ha
    · rename_i hstage hc
      obtain rfl := Option.some.inj ha
      exact h.frame same (fun _ _ hs => by cases hs) (by simp)
    · rename_i hstage hc
      obtain rfl := Option.some.inj ha
      exact loops (by simp [hstage]) (by rw [hc]; rfl)
    · rename_i hstage hc
      obtain rfl := Option.some.inj ha
      exact h.frame same (fun _ _ hs => by cases hs) (by simp)
    · rename_i hstage
      obtain rfl := Option.some.inj ha
      exact loops (by simp [hstage]) (hatt.ended (by rw [hstage]; rfl))
    · rename_i hstage
      obtain rfl := Option.some.inj ha
      exact loops (by simp [hstage]) (hatt.ended (by rw [hstage]; rfl))
    · rename_i hstage hc
      obtain rfl := Option.some.inj ha
      exact h.frame same (fun _ _ hs => by cases hs) fun _ => .inr ⟨hstage, by rw [hc]; rfl⟩
    · rename_i hstage hc
      obtain rfl := Option.some.inj ha
      exact h.frame same (fun _ _ hs => by cases hs) fun _ => .inr ⟨hstage, by rw [hc]; rfl⟩
    · cases ha

/-- The rows are there with their records, published. -/
def Flushed (rows : List OutboxRow) (s : Worker) : Prop :=
  ∀ r ∈ rows, ∃ r', s.relay.outbox.get? r.id = some r' ∧ r'.record = r.record ∧
    r'.publishedAt ≠ none ∧ r.record ∈ s.relay.log

/-- What was committed before the final call has been published when the relay stops. -/
theorem flushed (hs : worker.Reachable s) (hstage : s.stage ≠ .flushing ∧ s.stage ≠ .stopped)
    {es : List Event} (hr : (worker.restrict Careful).Run s es s') (hstop : s'.stage = .stopped) :
    Flushed s.relay.outbox.rows s' := by
  have hI : worker.Reachable s' ∧ Flushes s.relay.outbox.rows s' := by
    refine hr.invariant (I := fun u => worker.Reachable u ∧ Flushes s.relay.outbox.rows u)
      ⟨hs, fun r hr => ⟨r, Table.get?_of_mem hr, rfl⟩, fun h => absurd h hstage.1, ?_⟩ ?_
    · rintro (h | ⟨h, -⟩)
      · exact absurd h hstage.2
      · exact absurd h hstage.1
    · rintro u e u' ⟨hu, hI⟩ ⟨hcareful, hst⟩
      obtain ⟨p, hatt⟩ := attended hu
      exact ⟨hu.tail hst, hI.step hatt hst hcareful⟩
  intro r hr
  obtain ⟨r', hr', hrec⟩ := hI.2.kept r hr
  have hpub : (s'.relay.outbox.get? r.id).any (·.publishedAt.isSome) = true :=
    hI.2.done (.inl hstop) r hr
  rw [hr', Option.any_some, Option.isSome_iff_ne_none] at hpub
  have hlog := (consistent (relay_reachable hI.1)).published_sent (Table.mem_of_get? hr') hpub
  exact ⟨r', hr', hrec, hpub, hrec ▸ hlog⟩

/-! ### The relay stops -/

/-- Only the relay goes on, and nothing of it fails. -/
def Alone (_ : Worker) : Event → Prop
  | .call _ => True
  | .next => True
  | _ => False

theorem Alone.careful (h : Alone s e) : Careful s e := by
  rintro rfl
  exact h.elim

/-- How many steps are left, at most: those of the call there is, and of the final one. -/
def measure (s : Worker) : ℕ :=
  s.calls.measure + (s.relay.outbox.rows.length + 11) * s.stage.left

theorem Attended.paired (h : Attended s p) : s.calls.Paired where
  length := by simp [calls, h.relays]
  idle i c hi hc := by
    obtain ⟨rfl, rfl⟩ : i = 0 ∧ s.call = c := by
      obtain ⟨hlt, hi⟩ := List.getElem?_eq_some_iff.1 hi
      obtain rfl : i = 0 := by simpa [calls] using hlt
      exact ⟨rfl, hi⟩
    show s.relay.relays[0]? = some .idle
    rw [h.relays, h.idle hc]
    rfl

/-- A step of the call: it marks rows, and adds none. -/
theorem calls_step {l : Label} (h : s.act (.call l) = some s') :
    s'.stage = s.stage ∧ s'.shutdown = s.shutdown ∧
      s'.relay.outbox.rows.length = s.relay.outbox.rows.length ∧
      (draining fun _ => false).step s.calls l s'.calls := by
  obtain ⟨-, n, c, -, hcall, hst, rfl⟩ := call_cases h
  have hc : c = ⟨c.relay, [c.calls.headD s.call]⟩ := by cases hst <;> rfl
  have hlen : c.relay.outbox.rows.length = s.relay.outbox.rows.length := by
    cases hst with
    | finish _ => exact length_mark
    | _ => rfl
  exact ⟨rfl, rfl, hlen, hc ▸ hcall⟩

/-- Once `shutdown_event` is set, the loop goes on to the next stage. -/
theorem next_cases (hset : s.shutdown = true) (h : s.act .next = some s') :
    s'.relay = s.relay ∧ s'.shutdown = true ∧ s'.stage ≠ .down ∧
      s'.stage.left < s.stage.left := by
  have loops (hleft : 1 < s.stage.left) (h : some s.loop = some s') : s'.relay = s.relay ∧
      s'.shutdown = true ∧ s'.stage ≠ .down ∧ s'.stage.left < s.stage.left := by
    obtain rfl := Option.some.inj h
    have hstage : s.loop.stage = .flushing := by simp [loop, hset]
    exact ⟨rfl, hset, by simp [hstage], by rw [hstage]; exact hleft⟩
  have goes {stage : Stage} (hne : stage ≠ .down) (hleft : stage.left < s.stage.left)
      (h : some { s with stage } = some s') : s'.relay = s.relay ∧ s'.shutdown = true ∧
        s'.stage ≠ .down ∧ s'.stage.left < s.stage.left := by
    obtain rfl := Option.some.inj h
    exact ⟨rfl, hset, hne, hleft⟩
  simp only [act] at h
  split at h
  · rename_i hstage _
    exact goes (by decide) (by rw [hstage]; decide) h
  · rename_i hstage _
    exact loops (by rw [hstage]; decide) h
  · rename_i hstage _
    exact goes (by decide) (by rw [hstage]; decide) h
  · rename_i hstage
    exact loops (by rw [hstage]; decide) h
  · rename_i hstage
    exact loops (by rw [hstage]; decide) h
  · rename_i hstage _
    exact goes (by decide) (by rw [hstage]; decide) h
  · rename_i hstage _
    exact goes (by decide) (by rw [hstage]; decide) h
  · cases h

/-- A call that begins, with a relay that stays as it is. -/
theorem measure_calls_le (hrelay : s'.relay = s.relay) :
    s'.calls.measure ≤ s.calls.measure + (s.relay.outbox.rows.length + 10) := by
  have hle : [s'.call].countP Call.isRunning ≤ 1 := List.countP_le_length
  have hmul := Nat.mul_le_mul_left (s.relay.outbox.rows.length + 10) hle
  simp only [calls, Calls.measure, hrelay]
  omega

/-- Every step of a relay left to itself brings it nearer to its end. -/
theorem alone_step (hs : worker.Reachable s) (hset : s.shutdown = true)
    (hst : (worker.restrict Alone).step s e s') :
    s'.shutdown = true ∧ s'.stage ≠ .down ∧ s'.measure < s.measure := by
  obtain ⟨halone, -, ha⟩ := hst
  cases e with
  | call l =>
    obtain ⟨hstage, hset', hlen, hcall⟩ := calls_step ha
    have hcalls : s.stage.calls = true := (call_cases ha).1
    have hc : Consistent (s.calls.relay.after []) := consistent (relay_reachable hs)
    refine ⟨hset'.trans hset, fun hdown => ?_, ?_⟩
    · rw [← hstage, hdown] at hcalls
      cases hcalls
    · rw [measure, measure, hstage, hlen]
      exact Nat.add_lt_add_right (Calls.measure_lt hc hcall) _
  | next =>
    obtain ⟨hrelay, hset', hup, hleft⟩ := next_cases hset ha
    refine ⟨hset', hup, ?_⟩
    have hcalls := measure_calls_le hrelay
    have hmul := Nat.mul_le_mul_left (s.relay.outbox.rows.length + 11) hleft
    rw [Nat.mul_succ] at hmul
    rw [measure, measure, hrelay]
    omega
  | _ => exact halone.elim

/-- A relay that runs and has not stopped can go on by itself. -/
theorem exists_alone_step (hs : worker.Reachable s) (hup : s.stage ≠ .down)
    (hrun : s.stage ≠ .stopped) : ∃ e s', (worker.restrict Alone).step s e s' := by
  obtain ⟨p, hatt⟩ := attended hs
  have next (h : (s.act .next).isSome) : ∃ e s', (worker.restrict Alone).step s e s' := by
    obtain ⟨s', hs'⟩ := Option.isSome_iff_exists.1 h
    exact ⟨.next, s', trivial, trivial, hs'⟩
  by_cases hcall : s.call.isRunning = true
  · -- the call goes on
    have hcalls : s.stage.calls = true := by
      by_contra hnot
      rw [hatt.ended (by simpa using hnot)] at hcall
      cases hcall
    obtain ⟨l, c, -, hact⟩ : ∃ l c, (draining fun _ => false).step s.calls l c :=
      Calls.exists_step_of_not_ended hatt.paired fun hend => by
        have hended : s.call.isRunning = false := hend _ (List.mem_singleton_self _)
        rw [hended] at hcall
        cases hcall
    refine ⟨.call l, { s with relay := c.relay, call := c.calls.headD s.call }, trivial, trivial,
      ?_⟩
    simp only [act, hcalls, if_true]
    exact congrArg (Option.map _) hact
  · cases hstage : s.stage with
    | down => exact absurd hstage hup
    | stopped => exact absurd hstage hrun
    | waiting => exact next (by simp [act, hstage])
    | sleeping => exact next (by simp [act, hstage])
    | polling =>
      cases hc : s.call with
      | running n => exact absurd (by rw [hc]; rfl) hcall
      | raised => exact next (by simp [act, hstage, hc])
      | returned n => cases n <;> exact next (by simp [act, hstage, hc])
    | flushing =>
      cases hc : s.call with
      | running n => exact absurd (by rw [hc]; rfl) hcall
      | raised => exact next (by simp [act, hstage, hc])
      | returned n => exact next (by simp [act, hstage, hc])

/-- A relay that runs, with `shutdown_event` set. -/
structure Closing (s : Worker) : Prop where
  reachable : worker.Reachable s
  set : s.shutdown = true
  up : s.stage ≠ .down

theorem Closing.step (h : Closing s) (hst : (worker.restrict Alone).step s e s') : Closing s' := by
  obtain ⟨hset, hup, -⟩ := alone_step h.reachable h.set hst
  exact ⟨h.reachable.tail hst.2, hset, hup⟩

/-- Left to itself, it comes to its end. -/
theorem Closing.exists_run (h : Closing s) :
    ∃ es s', (worker.restrict Alone).Run s es s' ∧ s'.stage = .stopped :=
  LTS.exists_run_of_measure (m := measure) (fun _ _ _ h hst => h.step hst)
    (fun _ _ _ h hst => (alone_step h.reachable h.set hst).2.2)
    (fun _ h hrun => exists_alone_step h.reachable h.up hrun) h

/-- It takes no more steps than are left, and while it has not stopped there is one. -/
theorem Closing.run (h : Closing s) {es : List Event} (hr : (worker.restrict Alone).Run s es s') :
    es.length ≤ s.measure ∧
      (s'.stage = .stopped ∨ ∃ e s'', (worker.restrict Alone).step s' e s'') := by
  have hlen := hr.length_le (m := measure) h (fun _ _ _ h hst => h.step hst)
    fun _ _ _ h hst => (alone_step h.reachable h.set hst).2.2
  have h' : Closing s' := hr.invariant h fun _ _ _ h hst => h.step hst
  refine ⟨(Nat.le_add_right _ _).trans hlen, ?_⟩
  by_cases hstop : s'.stage = .stopped
  · exact .inl hstop
  · exact .inr (exists_alone_step h'.reachable h'.up hstop)

end Worker

section Shutdown

variable {s s' : Worker} {es : List Event}

open Worker

/-- **Shutting down loses nothing.**  Whatever has been committed before the final call begins has,
when the relay has stopped, been sent with its topic, key and payload and been marked, unless a
send of the final call has failed: whatever was written, had failed or was killed before.  And once
`shutdown_event` is set, a relay that runs and is left to itself comes to its end: it can, and
however it goes on, it has stopped, all this done, after a bounded number of steps. -/
theorem shutdown_flushes (hs : worker.Reachable s)
    (hstage : s.stage ≠ .flushing ∧ s.stage ≠ .stopped)
    (hr : (worker.restrict Careful).Run s es s') :
    (s'.stage = .stopped → Flushed s.relay.outbox.rows s') ∧
      (s'.shutdown = true → s'.stage ≠ .down →
        (∃ es' s'', (worker.restrict Alone).Run s' es' s'' ∧ s''.stage = .stopped ∧
          Flushed s.relay.outbox.rows s'') ∧
        ∃ n, ∀ es' s'', (worker.restrict Alone).Run s' es' s'' → es'.length ≤ n ∧
          ((s''.stage = .stopped ∧ Flushed s.relay.outbox.rows s'') ∨
            ∃ e u, (worker.restrict Alone).step s'' e u)) := by
  refine ⟨flushed hs hstage hr, fun hset hup => ?_⟩
  have hclosing : Closing s' := ⟨hs.trans hr.of_restrict, hset, hup⟩
  -- what the relay does by itself is careful
  have hflushed : ∀ {es' s''}, (worker.restrict Alone).Run s' es' s'' → s''.stage = .stopped →
      Flushed s.relay.outbox.rows s'' := by
    intro es' s'' hr' hstop
    refine flushed hs hstage (hr.trans (hr'.mono fun u e u' hst => ?_)) hstop
    exact ⟨hst.1.careful, hst.2⟩
  refine ⟨?_, s'.measure, fun es' s'' hr' => ?_⟩
  · obtain ⟨es', s'', hr', hstop⟩ := hclosing.exists_run
    exact ⟨es', s'', hr', hstop, hflushed hr' hstop⟩
  · obtain ⟨hlen, hend⟩ := hclosing.run hr'
    exact ⟨hlen, hend.imp_left fun hstop => ⟨hstop, hflushed hr' hstop⟩⟩

/-- A send is acknowledged, but its transaction fails; `shutdown_event` is set while the relay
sleeps, and the final call sends the row again.  However the relay goes on from there, if only it
is left to itself, it comes to its end. -/
theorem shutdown_flushes_failed :
    let a : OutboxRow := ⟨1, .orderPlaced, 7, ⟨11, .orderPlaced, 0, { orderId := some 7 }⟩, 0, none⟩
    let before : List Event :=
      [.start, .write .connect, .write (.insert 0 a), .write (.commit 0), .call (.poll 0 2 [a]),
        .call (.select 0), .call (.send 0), .abort, .next]
    let after : List Event :=
      [.next, .call (.poll 0 3 [a]), .call (.select 0), .call (.send 0),
        .call (.update 0), .call (.finish 0), .call (.poll 0 4 []), .call (.select 0), .next]
    ∃ s s₁ s', LTS.runAct act empty before = some s ∧ s.act .shutdown = some s₁ ∧
      LTS.runAct act s₁ after = some s' ∧ s.relay.outbox.rows = [a] ∧ s'.stage = .stopped ∧
      Flushed [a] s' ∧ ∃ n, ∀ es u, (worker.restrict Alone).Run s₁ es u → es.length ≤ n ∧
        ((u.stage = .stopped ∧ Flushed [a] u) ∨ ∃ e u', (worker.restrict Alone).step u e u') := by
  intro a before after
  have hrun : ((LTS.runAct act empty before).bind fun s => (s.act .shutdown).bind fun s₁ =>
      (LTS.runAct act s₁ after).map fun s' =>
        (s.relay.outbox.rows, s.stage, s₁.shutdown, s₁.stage, s'.stage)) =
      some ([a], .sleeping, true, .sleeping, .stopped) := by
    decide +kernel
  obtain ⟨s, hbefore, hrest⟩ := Option.bind_eq_some_iff.1 hrun
  obtain ⟨s₁, hshut, hrest⟩ := Option.bind_eq_some_iff.1 hrest
  obtain ⟨s', hafter, hend⟩ := Option.map_eq_some_iff.1 hrest
  simp only [Prod.mk.injEq] at hend
  obtain ⟨hrows, hstage, hset, hstage₁, hstop⟩ := hend
  have hs : worker.Reachable s := LTS.reachable_of_runAct rfl (fun _ _ _ => trivial) hbefore
  have hready : s.stage ≠ .flushing ∧ s.stage ≠ .stopped := by simp [hstage]
  have hr₁ : (worker.restrict Careful).Run s [.shutdown] s₁ :=
    .single ⟨by simp [Careful], trivial, hshut⟩
  have hr : worker.Run s₁ after s' := LTS.run_of_runAct (fun _ _ _ => trivial) hafter
  -- nothing fails from there on
  have hcareful : ∀ u, ∀ e ∈ after, Careful u e := by simp [after, Careful]
  obtain ⟨-, hends⟩ := shutdown_flushes hs hready hr₁
  obtain ⟨hflushed, -⟩ := shutdown_flushes hs hready (hr₁.trans (hr.restrict hcareful))
  rw [hrows] at hends hflushed
  exact ⟨s, s₁, s', hbefore, hshut, hafter, hrows, hstop, hflushed hstop,
    (hends hset (by simp [hstage₁])).2⟩

end Shutdown

end Relay

end FoodFlow
