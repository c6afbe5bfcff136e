import FoodFlow.Shared.Relay
import Mathlib.Data.Finset.Max

/-!
# Draining the outbox

A call of `_poll_and_publish` performs the transactions of the relay one after the other, until a
`SELECT` finds no row or a send raises.  Any number of calls run on one outbox, each with a relay
instance of its own for its transactions.

* `Relay.draining` : the calls, when the sends of some rows always raise;
* `Relay.Calls.length_le` : their runs are bounded, and a call that has not ended can go on
  (`Relay.Calls.exists_step`);
* `Relay.drained` : calls whose sends all succeed return, and between them they have sent and
  marked every row once; a call that is alone sends the rows in the order of `created_at`.
-/

namespace FoodFlow

namespace Relay

/-- Where a call of `_poll_and_publish` is. -/
inductive Call where
  /-- In its loop, with the value of its counter. -/
  | running (published : ℕ)
  /-- It has returned the counter. -/
  | returned (published : ℕ)
  /-- The exception of a send has left it. -/
  | raised
  deriving DecidableEq, Repr

namespace Call

/-- The counter. -/
def published : Call → ℕ
  | running n => n
  | returned n => n
  | raised => 0

/-- The call is in its loop. -/
def isRunning : Call → Bool
  | running _ => true
  | _ => false

end Call

/-- Calls of `_poll_and_publish` on one outbox.  The transactions of the call `i` are those of the
relay instance `i`. -/
structure Calls where
  relay : State
  calls : List Call

namespace Calls

/-- Performing a label of the relay instance of a call.  The sends of the rows in `fails` raise. -/
def act (fails : UUID → Bool) (s : Calls) : Label → Option Calls
  | .poll i now candidates =>
    match s.calls[i]? with
    | some (.running _) => (s.relay.act (.poll i now candidates)).map fun relay => { s with relay }
    | _ => none
  | .select i =>
    match s.calls[i]?, s.relay.relays[i]? with
    -- `if not row: break`
    | some (.running published), some (.selecting _ []) =>
      (s.relay.act (.select i)).map fun relay => ⟨relay, s.calls.set i (.returned published)⟩
    | some (.running _), some _ =>
      (s.relay.act (.select i)).map fun relay => { s with relay }
    | _, _ => none
  | .send i =>
    match s.calls[i]?, s.relay.relays[i]? with
    | some (.running _), some (.locked _ row) =>
      -- the exception rolls the transaction back and leaves the loop
      if fails row.id then
        (s.relay.act (.abort i)).map fun relay => ⟨relay, s.calls.set i .raised⟩
      else (s.relay.act (.send i)).map fun relay => { s with relay }
    | _, _ => none
  | .update i =>
    match s.calls[i]? with
    | some (.running _) => (s.relay.act (.update i)).map fun relay => { s with relay }
    | _ => none
  | .finish i =>
    match s.calls[i]? with
    | some (.running published) =>
      (s.relay.act (.finish i)).map fun relay =>
        ⟨relay, s.calls.set i (.running (published + 1))⟩
    | _ => none
  | _ => none

/-- `k` calls about to begin on the outbox `t`. -/
def start (k : ℕ) (t : Table OutboxRow.id) : Calls :=
  ⟨⟨t, [], List.replicate k .idle, [], []⟩, List.replicate k (.running 0)⟩

/-- All calls have returned or raised. -/
def Ended (s : Calls) : Prop := ∀ c ∈ s.calls, c.isRunning = false

end Calls

/-- The calls on one outbox, from any state. -/
def draining (fails : UUID → Bool) : LTS Calls Label :=
  .ofAct (fun _ => True) (fun _ _ => True) (Calls.act fails)

namespace Calls

variable {fails : UUID → Bool} {s s' : Calls} {l : Label} {t₀ : Table OutboxRow.id}

/-! ### What a step can do -/

/-- What a step of the call `i` can do. -/
inductive Step (fails : UUID → Bool) (s : Calls) (i : ℕ) (n : ℕ) : Calls → Prop
  | poll {now candidates} : s.relay.relays[i]? = some .idle → s.relay.Snapshot candidates →
      Step fails s i n ⟨s.relay.setRelay i (.selecting now candidates), s.calls⟩
  | leave {now} : s.relay.relays[i]? = some (.selecting now []) →
      Step fails s i n ⟨s.relay.setRelay i .idle, s.calls.set i (.returned n)⟩
  | skip {now candidate candidates} :
      s.relay.relays[i]? = some (.selecting now (candidate :: candidates)) →
      ¬ s.relay.Selectable candidate.id →
      Step fails s i n ⟨s.relay.setRelay i (.selecting now candidates), s.calls⟩
  | take {now candidate candidates row} :
      s.relay.relays[i]? = some (.selecting now (candidate :: candidates)) →
      s.relay.outbox.get? candidate.id = some row → s.relay.Selectable candidate.id →
      Step fails s i n ⟨s.relay.setRelay i (.locked now row), s.calls⟩
  | raise {now row} : s.relay.relays[i]? = some (.locked now row) → fails row.id →
      Step fails s i n ⟨s.relay.setRelay i .idle, s.calls.set i .raised⟩
  | send {now row} : s.relay.relays[i]? = some (.locked now row) → fails row.id = false →
      Step fails s i n
        ⟨{ s.relay.setRelay i (.sent now row) with sends := s.relay.sends ++ [row] }, s.calls⟩
  | update {now row} : s.relay.relays[i]? = some (.sent now row) →
      Step fails s i n ⟨s.relay.setRelay i (.marked now row), s.calls⟩
  | finish {now row} : s.relay.relays[i]? = some (.marked now row) →
      Step fails s i n
        ⟨{ s.relay.setRelay i .idle with outbox := markPublished row.id now s.relay.outbox },
          s.calls.set i (.running (n + 1))⟩

theorem step_cases (h : (draining fails).step s l s') :
    ∃ i n, s.calls[i]? = some (.running n) ∧ Step fails s i n s' := by
  have ha : s.act fails l = some s' := h.2
  cases l with
  | poll i now candidates =>
    simp only [act] at ha
    split at ha
    · rename_i n hi
      obtain ⟨relay, hact, rfl⟩ := Option.map_eq_some_iff.1 ha
      simp only [State.act] at hact
      split_ifs at hact with hidle
      obtain rfl := Option.some.inj hact
      exact ⟨i, n, hi, .poll hidle.1 hidle.2⟩
    · cases ha
  | select i =>
    simp only [act] at ha
    split at ha
    · rename_i n now hi hp
      obtain ⟨relay, hact, rfl⟩ := Option.map_eq_some_iff.1 ha
      simp only [State.act, hp] at hact
      obtain rfl := Option.some.inj hact
      exact ⟨i, n, hi, .leave hp⟩
    · rename_i n p hne hi hp
      obtain ⟨relay, hact, rfl⟩ := Option.map_eq_some_iff.1 ha
      simp only [State.act] at hact
      split at hact
      · rename_i now hp'
        exact (hne now (Option.some.inj (hp.symm.trans hp'))).elim
      · rename_i now candidate candidates hp'
        split at hact
        · rename_i row hrow
          split_ifs at hact with hsel <;> obtain rfl := Option.some.inj hact
          · exact ⟨i, n, hi, .take hp' hrow hsel⟩
          · exact ⟨i, n, hi, .skip hp' hsel⟩
        · rename_i hrow
          obtain rfl := Option.some.inj hact
          refine ⟨i, n, hi, .skip hp' fun hsel => ?_⟩
          have := hsel.1
          rw [hrow] at this
          cases this
      · cases hact
    · cases ha
  | send i =>
    simp only [act] at ha
    split at ha
    · rename_i n now row hi hp
      split_ifs at ha with hf
      · obtain ⟨relay, hact, rfl⟩ := Option.map_eq_some_iff.1 ha
        simp only [State.act, hp, Phase.acked?, Option.map_none, Option.toList_none,
          List.append_nil] at hact
        obtain rfl := Option.some.inj hact
        exact ⟨i, n, hi, .raise hp hf⟩
      · obtain ⟨relay, hact, rfl⟩ := Option.map_eq_some_iff.1 ha
        simp only [State.act, hp] at hact
        obtain rfl := Option.some.inj hact
        exact ⟨i, n, hi, .send hp (by simpa using hf)⟩
    · cases ha
  | update i =>
    simp only [act] at ha
    split at ha
    · rename_i n hi
      obtain ⟨relay, hact, rfl⟩ := Option.map_eq_some_iff.1 ha
      simp only [State.act] at hact
      split at hact
      · rename_i hp
        obtain rfl := Option.some.inj hact
        exact ⟨i, n, hi, .update hp⟩
      · cases hact
    · cases ha
  | finish i =>
    simp only [act] at ha
    split at ha
    · rename_i n hi
      obtain ⟨relay, hact, rfl⟩ := Option.map_eq_some_iff.1 ha
      simp only [State.act] at hact
      split at hact
      · rename_i hp
        obtain rfl := Option.some.inj hact
        exact ⟨i, n, hi, .finish hp⟩
      · cases hact
    · cases ha
  | launch => cases ha
  | connect => cases ha
  | insert w row => cases ha
  | commit w => cases ha
  | rollback w => cases ha
  | abort i => cases ha

/-- A step of a call is one of its relay instance. -/
theorem Step.relay {i n : ℕ} (h : Step fails s i n s') : ∃ l', lts.step s.relay l' s'.relay := by
  cases h with
  | @poll now candidates hp hsnap =>
    exact ⟨.poll i now candidates, trivial, if_pos ⟨hp, hsnap⟩⟩
  | leave hp => exact ⟨.select i, trivial, by simp only [State.act, hp]⟩
  | skip hp hsel =>
    refine ⟨.select i, trivial, ?_⟩
    simp only [State.act, hp]
    split
    · rw [if_neg hsel]
    · rfl
  | take hp hrow hsel =>
    exact ⟨.select i, trivial, by simp only [State.act, hp, hrow, if_pos hsel]⟩
  | raise hp _ =>
    -- an instance that has not sent its row loses nothing
    exact ⟨.abort i, trivial, by simp [State.act, State.setRelay, hp, Phase.acked?]⟩
  | send hp _ => exact ⟨.send i, trivial, by simp only [State.act, hp]⟩
  | update hp => exact ⟨.update i, trivial, by simp only [State.act, hp]⟩
  | finish hp => exact ⟨.finish i, trivial, by simp only [State.act, hp]⟩

end Calls

/-! ### Rows sent before -/

/-- The state when `earlier` has been sent before. -/
def State.after (earlier : List OutboxRow) (s : State) : State :=
  { s with sends := earlier ++ s.sends }

/-- What has been sent before does not matter. -/
theorem State.act_after (earlier : List OutboxRow) (s : State) (l : Label) :
    (s.after earlier).act l = (s.act l).map (State.after earlier) := by
  cases l with
  | launch => rfl
  | connect => rfl
  | rollback w => rfl
  | insert w row =>
    simp only [State.act, State.after]
    cases s.writers[w]? with
    | none => rfl
    | some rows =>
      simp only [apply_ite (Option.map (State.after earlier))]
      rfl
  | commit w =>
    simp only [State.act, State.after]
    cases s.writers[w]? <;> rfl
  | poll i now candidates =>
    simp only [State.act, apply_ite (Option.map (State.after earlier))]
    rfl
  | select i =>
    simp only [State.act, State.after]
    split
    · rfl
    · cases s.outbox.get? _ with
      | none => rfl
      | some row =>
        simp only [apply_ite (Option.map (State.after earlier))]
        rfl
    · rfl
  | send i =>
    simp only [State.act, State.after]
    split
    · simp [State.setRelay, State.after]
    · rfl
  | update i =>
    simp only [State.act, State.after]
    split <;> rfl
  | finish i =>
    simp only [State.act, State.after]
    split <;> rfl
  | abort i =>
    simp only [State.act, State.after]
    cases s.relays[i]? <;> rfl

/-! ### The rows to be published -/

/-- The rows that have not been published. -/
def unpublished (t : Table OutboxRow.id) : List OutboxRow := t.rows.filter (·.publishedAt.isNone)

section Unpublished

variable {t : Table OutboxRow.id} {r row : OutboxRow} {now : Time} {id : UUID}

theorem mem_unpublished : r ∈ unpublished t ↔ r ∈ t.rows ∧ r.publishedAt = none := by
  simp [unpublished]

theorem mem_unpublished_of_get? (h : t.get? row.id = some row) (hn : row.publishedAt = none) :
    row ∈ unpublished t := mem_unpublished.2 ⟨Table.mem_of_get? h, hn⟩

theorem mem_unpublished_mark :
    r ∈ unpublished (markPublished id now t) ↔ r ∈ unpublished t ∧ r.id ≠ id := by
  rw [mem_unpublished, mem_unpublished, markPublished, Table.mem_rows_update]
  constructor
  · rintro ⟨⟨r', hr', rfl⟩, hn⟩
    by_cases hid : r'.id = id
    · simp [hid] at hn
    · simp only [hid, decide_false, Bool.false_eq_true, if_false] at hn ⊢
      exact ⟨⟨hr', hn⟩, hid⟩
  · rintro ⟨⟨hr, hn⟩, hid⟩
    exact ⟨⟨r, hr, by simp [hid]⟩, hn⟩

theorem nodup_rows (t : Table OutboxRow.id) : t.rows.Nodup := .of_map _ t.nodup

@[simp] theorem length_mark : (markPublished id now t).rows.length = t.rows.length := by
  simp [markPublished, Table.update]

/-- Marking a row that has not been published. -/
theorem length_unpublished_mark (now : Time) (h : t.get? row.id = some row)
    (hn : row.publishedAt = none) :
    (unpublished (markPublished row.id now t)).length + 1 = (unpublished t).length := by
  have hcount := Table.countP_update h (·.publishedAt.isNone) (id_published now)
  simp only [hn, Option.isNone_none, if_true, Option.isNone_some, Bool.false_eq_true,
    if_false, add_zero] at hcount
  rw [unpublished, unpublished, ← List.countP_eq_length_filter, ← List.countP_eq_length_filter]
  exact hcount

end Unpublished

/-- The row is one of the oldest that have not been published. -/
structure Oldest (t : Table OutboxRow.id) (row : OutboxRow) : Prop where
  mem : row ∈ unpublished t
  le : ∀ r ∈ unpublished t, row.createdAt ≤ r.createdAt

/-- A snapshot may begin with any of the oldest rows. -/
theorem Oldest.exists_snapshot {s : State} {row : OutboxRow} (h : Oldest s.outbox row) :
    ∃ candidates, s.Snapshot (row :: candidates) := by
  let rest := ((unpublished s.outbox).erase row).mergeSort fun x y => x.createdAt ≤ y.createdAt
  have hrest : rest.Perm ((unpublished s.outbox).erase row) := List.mergeSort_perm _ _
  have hsorted : rest.Pairwise (·.createdAt ≤ ·.createdAt) := by
    refine (List.pairwise_mergeSort ?_ ?_ _).imp (by simp)
    · intro x y z hxy hyz
      simp only [decide_eq_true_eq] at hxy hyz ⊢
      exact le_trans hxy hyz
    · intro x y
      simp only [Bool.or_eq_true, decide_eq_true_eq]
      exact le_total _ _
  refine ⟨rest, (hrest.cons row).trans (List.perm_cons_erase h.mem).symm, ?_⟩
  refine List.pairwise_cons.2 ⟨fun r hr => h.le r ?_, hsorted⟩
  exact List.mem_of_mem_erase (hrest.mem_iff.1 hr)

/-- Unless all rows have been published, one of those left is the oldest. -/
theorem exists_oldest {t : Table OutboxRow.id} (h : unpublished t ≠ []) : ∃ row, Oldest t row := by
  obtain ⟨row, hmem, hle⟩ := (unpublished t).toFinset.exists_min_image OutboxRow.createdAt
    (List.toFinset_nonempty_iff _ |>.2 h)
  exact ⟨row, List.mem_toFinset.1 hmem, fun r hr => hle r (List.mem_toFinset.2 hr)⟩

theorem exists_snapshot (s : State) : ∃ candidates, s.Snapshot candidates := by
  by_cases h : unpublished s.outbox = []
  · exact ⟨[], by rw [State.Snapshot, ← unpublished, h]; exact ⟨.refl _, .nil⟩⟩
  · obtain ⟨row, hrow⟩ := exists_oldest h
    obtain ⟨candidates, hc⟩ := hrow.exists_snapshot
    exact ⟨_, hc⟩

/-! ### Every call ends -/

/-- How many steps a relay instance may need for its transaction, when the outbox has `n` rows. -/
def Phase.weight (n : ℕ) : Phase → ℕ
  | .idle => n + 6
  | .selecting _ candidates => candidates.length + 5
  | .locked _ _ => 4
  | .sent _ _ => 3
  | .marked _ _ => 2

namespace Calls

variable {fails : UUID → Bool} {s s' : Calls} {l : Label} {ls : List Label}
  {t₀ : Table OutboxRow.id} {earlier : List OutboxRow} {i n k : ℕ}

/-- How many steps are left: a call that goes on after a transaction has published a row. -/
def measure (s : Calls) : ℕ :=
  (s.relay.relays.map (Phase.weight s.relay.outbox.rows.length)).sum +
    (s.relay.outbox.rows.length + 10) * s.calls.countP Call.isRunning +
    (s.relay.outbox.rows.length + 10) * (unpublished s.relay.outbox).length

/-- The relay instances hold their rows as in the relay's own system. -/
theorem consistent_step (hc : Consistent (s.relay.after earlier))
    (h : (draining fails).step s l s') : Consistent (s'.relay.after earlier) := by
  obtain ⟨_, _, -, hst⟩ := step_cases h
  obtain ⟨l', -, hact⟩ := hst.relay
  refine hc.step (l := l') ⟨trivial, ?_⟩
  rw [State.act_after, hact]
  rfl

theorem measure_lt (hc : Consistent (s.relay.after earlier)) (h : (draining fails).step s l s') :
    s'.measure < s.measure := by
  obtain ⟨i, n, hi, hst⟩ := step_cases h
  -- the transaction goes on; the call goes on or ends
  have hphase : ∀ {p : Phase} (p' : Phase), s.relay.relays[i]? = some p →
      ((s.relay.relays.set i p').map (Phase.weight s.relay.outbox.rows.length)).sum +
        p.weight s.relay.outbox.rows.length =
      (s.relay.relays.map (Phase.weight s.relay.outbox.rows.length)).sum +
        p'.weight s.relay.outbox.rows.length := fun p' hp => sum_map_set_add _ hp
  have hcall : ∀ c : Call, (s.calls.set i c).countP Call.isRunning + 1 =
      s.calls.countP Call.isRunning + if c.isRunning then 1 else 0 := fun c => by
    simpa [Call.isRunning] using countP_set_add (y := c) Call.isRunning hi
  have hmul : ∀ {a b : ℕ}, a + 1 = b → (s.relay.outbox.rows.length + 10) * a +
      (s.relay.outbox.rows.length + 10) = (s.relay.outbox.rows.length + 10) * b := by
    rintro a b rfl
    rw [Nat.mul_succ]
  cases hst with
  | @poll now candidates hp hsnap =>
    have hlen : candidates.length ≤ s.relay.outbox.rows.length :=
      hsnap.1.length_eq ▸ List.length_filter_le _ _
    have hsum := hphase (.selecting now candidates) hp
    simp only [Phase.weight] at hsum
    simp only [measure, State.setRelay]
    omega
  | leave hp =>
    have hsum := hphase .idle hp
    have hrun := hmul (b := s.calls.countP Call.isRunning) (hcall (.returned n))
    simp only [Phase.weight, List.length_nil] at hsum
    simp only [measure, State.setRelay]
    omega
  | @skip now candidate candidates hp hsel =>
    have hsum := hphase (.selecting now candidates) hp
    simp only [Phase.weight, List.length_cons] at hsum
    simp only [measure, State.setRelay]
    omega
  | @take now candidate candidates row hp hrow hsel =>
    have hsum := hphase (.locked now row) hp
    simp only [Phase.weight, List.length_cons] at hsum
    simp only [measure, State.setRelay]
    omega
  | raise hp hf =>
    have hsum := hphase .idle hp
    have hrun := hmul (b := s.calls.countP Call.isRunning) (hcall .raised)
    simp only [Phase.weight] at hsum
    simp only [measure, State.setRelay]
    omega
  | @send now row hp hf =>
    have hsum := hphase (.sent now row) hp
    simp only [Phase.weight] at hsum
    simp only [measure, State.setRelay]
    omega
  | @update now row hp =>
    have hsum := hphase (.marked now row) hp
    simp only [Phase.weight] at hsum
    simp only [measure, State.setRelay]
    omega
  | @finish now row hp =>
    obtain ⟨hg, hn⟩ := hc.held _ (List.mem_of_getElem? hp) row rfl
    have hsum := hphase .idle hp
    have hrows := hmul (length_unpublished_mark now hg hn)
    have hrun : (s.calls.set i (.running (n + 1))).countP Call.isRunning =
        s.calls.countP Call.isRunning := Nat.succ.inj (hcall (.running (n + 1)))
    simp only [Phase.weight] at hsum
    simp only [State.after] at hrows
    simp only [measure, State.setRelay, length_mark, hrun]
    omega

/-- The calls as they go on from `start`. -/
theorem start_consistent (k : ℕ) (t : Table OutboxRow.id) :
    Consistent ((start k t).relay.after (t.rows.filter (·.publishedAt.isSome))) where
  unpublished rows h := by cases h
  held p hp r hr := by
    rw [List.eq_of_mem_replicate hp] at hr
    cases hr
  exclusive id := by
    show (List.replicate k Phase.idle).countP _ ≤ 1
    rw [List.countP_replicate, if_neg (by simp [Phase.Holds, Phase.row?])]
    exact Nat.zero_le 1
  sent r hr := by
    have hr' : r ∈ t.rows.filter (·.publishedAt.isSome) := by simpa [State.after, start] using hr
    exact ⟨r, Table.get?_of_mem (List.mem_of_mem_filter hr'), rfl⟩
  copies id := by
    have hidle : (List.replicate k Phase.idle).countP (Phase.Acked id) = 0 := by
      rw [List.countP_replicate, if_neg (by simp [Phase.Acked, Phase.acked?])]
    simp only [State.copies, State.after, start, State.Published, hidle, List.append_nil,
      List.count_nil, List.countP_filter]
    rw [Table.countP_key]
    omega

theorem run_consistent (h : (draining fails).Run (start k t₀) ls s) :
    Consistent (s.relay.after (t₀.rows.filter (·.publishedAt.isSome))) :=
  h.invariant (I := fun s => Consistent (s.relay.after (t₀.rows.filter (·.publishedAt.isSome))))
    (start_consistent k t₀) fun _ _ _ hc hst => consistent_step hc hst

/-- A relay instance for each call, between two transactions once the call has ended. -/
structure Paired (s : Calls) : Prop where
  length : s.calls.length = s.relay.relays.length
  idle : ∀ (i : ℕ) (c : Call), s.calls[i]? = some c → c.isRunning = false →
    s.relay.relays[i]? = some .idle

theorem start_paired : Paired (start k t₀) where
  length := by simp [start]
  idle i c hi hc := by
    obtain rfl := List.eq_of_mem_replicate (List.mem_of_getElem? hi)
    cases hc

theorem set_self {c : Call} (hi : s.calls[i]? = some c) : s.calls = s.calls.set i c := by
  obtain ⟨hlt, he⟩ := List.getElem?_eq_some_iff.1 hi
  rw [← he, List.set_getElem_self]

/-- A step changes one call and its relay instance. -/
theorem Step.shape (hi : s.calls[i]? = some (.running n)) (h : Step fails s i n s') :
    ∃ p c, s'.relay.relays = s.relay.relays.set i p ∧ s'.calls = s.calls.set i c ∧
      (c.isRunning = false → p = .idle) := by
  have hself := set_self hi
  cases h with
  | poll => exact ⟨_, _, rfl, hself, fun h => by cases h⟩
  | leave => exact ⟨_, _, rfl, rfl, fun _ => rfl⟩
  | skip => exact ⟨_, _, rfl, hself, fun h => by cases h⟩
  | take => exact ⟨_, _, rfl, hself, fun h => by cases h⟩
  | raise => exact ⟨_, _, rfl, rfl, fun _ => rfl⟩
  | send => exact ⟨_, _, rfl, hself, fun h => by cases h⟩
  | update => exact ⟨_, _, rfl, hself, fun h => by cases h⟩
  | finish => exact ⟨_, _, rfl, rfl, fun _ => rfl⟩

theorem Paired.step (hp : Paired s) (h : (draining fails).step s l s') : Paired s' := by
  obtain ⟨i, n, hi, hst⟩ := step_cases h
  obtain ⟨p, c, hrelays, hcalls, hidle⟩ := hst.shape hi
  have hlt : i < s.relay.relays.length := by
    rw [← hp.length]
    exact (List.getElem?_eq_some_iff.1 hi).1
  obtain ⟨p₀, hp₀⟩ : ∃ p₀, s.relay.relays[i]? = some p₀ := ⟨_, List.getElem?_eq_getElem hlt⟩
  refine ⟨by rw [hrelays, hcalls, List.length_set, List.length_set, hp.length],
    fun j c' hj hc' => ?_⟩
  rw [hcalls, getElem?_set_of_some hi] at hj
  rw [hrelays, getElem?_set_of_some hp₀]
  split_ifs at hj ⊢ with hij
  · obtain rfl := Option.some.inj hj
    rw [hidle hc']
  · exact hp.idle j c' hj hc'

theorem run_paired (h : (draining fails).Run (start k t₀) ls s) : Paired s :=
  h.invariant start_paired fun _ _ _ hp hst => hp.step hst

/-- A call that has not ended can go on. -/
theorem exists_step (hp : Paired s) (hi : s.calls[i]? = some (.running n)) :
    ∃ l s', (draining fails).step s l s' := by
  have hlt : i < s.relay.relays.length := by
    rw [← hp.length]
    exact (List.getElem?_eq_some_iff.1 hi).1
  have hstep : ∀ {l : Label}, (s.act fails l).isSome → ∃ l s', (draining fails).step s l s' :=
    fun {l} h => ⟨l, _, trivial, (Option.some_get h).symm⟩
  cases hphase : s.relay.relays[i]? with
  | none => exact absurd (List.getElem?_eq_none_iff.1 hphase) (by omega)
  | some p =>
    cases p with
    | idle =>
      obtain ⟨candidates, hsnap⟩ := exists_snapshot s.relay
      exact hstep (l := .poll i 0 candidates) (by simp [act, State.act, hi, hphase, hsnap])
    | selecting now candidates =>
      refine hstep (l := .select i) ?_
      cases candidates with
      | nil => simp [act, State.act, hi, hphase]
      | cons candidate candidates =>
        simp only [act, State.act, hi, hphase, Option.isSome_map]
        split
        · split_ifs <;> rfl
        · rfl
    | locked now row =>
      refine hstep (l := .send i) ?_
      simp only [act, State.act, hi, hphase]
      split_ifs <;> rfl
    | sent now row => exact hstep (l := .update i) (by simp [act, State.act, hi, hphase])
    | marked now row => exact hstep (l := .finish i) (by simp [act, State.act, hi, hphase])

/-- The runs are bounded. -/
theorem length_le (h : (draining fails).Run (start k t₀) ls s) :
    ls.length + s.measure ≤ (start k t₀).measure :=
  LTS.Run.length_le h (start_consistent k t₀) (fun _ _ _ hc hst => consistent_step hc hst)
    fun _ _ _ hc hst => measure_lt hc hst

theorem exists_step_of_not_ended (hp : Paired s) (h : ¬ s.Ended) :
    ∃ l s', (draining fails).step s l s' := by
  obtain ⟨c, hc, hrun⟩ : ∃ c ∈ s.calls, c.isRunning = true := by
    simpa [Ended] using h
  obtain ⟨i, hi⟩ := List.getElem?_of_mem hc
  cases c with
  | running n => exact exists_step hp hi
  | returned n => cases hrun
  | raised => cases hrun

/-- The calls can all come to their end. -/
theorem exists_run (fails : UUID → Bool) (k : ℕ) (t : Table OutboxRow.id) :
    ∃ ls s, (draining fails).Run (start k t) ls s ∧ s.Ended := by
  exact LTS.exists_run_of_measure (m := measure)
    (I := fun s => Consistent (s.relay.after (t.rows.filter (·.publishedAt.isSome))) ∧ Paired s)
    (fun _ _ _ h hst => ⟨consistent_step h.1 hst, h.2.step hst⟩)
    (fun _ _ _ h hst => measure_lt h.1 hst) (fun _ h hnot => exists_step_of_not_ended h.2 hnot)
    ⟨start_consistent k t, start_paired⟩

/-! ### What becomes of the rows -/

/-- The rows of the outbox `t₀`, once some calls have worked on it. -/
structure Kept (t₀ : Table OutboxRow.id) (s : Calls) : Prop where
  kept : ∀ r ∈ t₀.rows, s.relay.outbox.get? r.id = some r ∨ (r.publishedAt = none ∧
    ∃ now, s.relay.outbox.get? r.id = some { r with publishedAt := some now })
  old : ∀ r ∈ unpublished s.relay.outbox, r ∈ t₀.rows
  sent : ∀ r ∈ s.relay.sends, r ∈ unpublished t₀
  lost : s.relay.lost = []

theorem start_kept : Kept t₀ (start k t₀) where
  kept r hr := .inl (Table.get?_of_mem hr)
  old r hr := (mem_unpublished.1 hr).1
  sent r hr := by cases hr
  lost := rfl

theorem Kept.step (h : Kept t₀ s) (hc : Consistent (s.relay.after earlier))
    (hst : (draining fails).step s l s') : Kept t₀ s' := by
  obtain ⟨i, n, hi, hst⟩ := step_cases hst
  cases hst with
  | poll => exact ⟨h.kept, h.old, h.sent, h.lost⟩
  | leave => exact ⟨h.kept, h.old, h.sent, h.lost⟩
  | skip => exact ⟨h.kept, h.old, h.sent, h.lost⟩
  | take => exact ⟨h.kept, h.old, h.sent, h.lost⟩
  | raise => exact ⟨h.kept, h.old, h.sent, h.lost⟩
  | update => exact ⟨h.kept, h.old, h.sent, h.lost⟩
  | @send now row hp hf =>
    obtain ⟨hg, hn⟩ := hc.held _ (List.mem_of_getElem? hp) row rfl
    refine ⟨h.kept, h.old, fun r hr => ?_, h.lost⟩
    rcases List.mem_append.1 hr with hr | hr
    · exact h.sent r hr
    · obtain rfl := List.mem_singleton.1 hr
      exact mem_unpublished.2 ⟨h.old r (mem_unpublished_of_get? hg hn), hn⟩
  | @finish now row hp =>
    obtain ⟨hg, hn⟩ := hc.held _ (List.mem_of_getElem? hp) row rfl
    refine ⟨fun r hr => ?_, fun r hr => h.old r (mem_unpublished_mark.1 hr).1, h.sent, h.lost⟩
    simp only [get?_markPublished]
    by_cases hid : r.id = row.id
    · -- the row marked is still the one it was
      obtain rfl : r = row := by
        have hrow := h.old row (mem_unpublished_of_get? hg hn)
        exact List.inj_on_of_nodup_map t₀.nodup hr hrow hid
      have hg' : s.relay.outbox.get? r.id = some r := hg
      exact .inr ⟨hn, now, by rw [hg']; simp⟩
    · rcases h.kept r hr with hr' | ⟨hn', now', hr'⟩
      · exact .inl (by rw [hr', Option.map_some, if_neg hid])
      · exact .inr ⟨hn', now', by rw [hr', Option.map_some, if_neg hid]⟩

theorem run_kept (h : (draining fails).Run (start k t₀) ls s) : Kept t₀ s := by
  refine (h.invariant (I := fun s =>
    Consistent (s.relay.after (t₀.rows.filter (·.publishedAt.isSome))) ∧ Kept t₀ s)
    ⟨start_consistent k t₀, start_kept⟩ ?_).2
  exact fun _ _ _ h hst => ⟨consistent_step h.1 hst, h.2.step h.1 hst⟩

/-- A row that no relay has locked, and that has not been published. -/
def Free (s : Calls) (r : OutboxRow) : Prop :=
  r ∈ unpublished s.relay.outbox ∧ ∀ p ∈ s.relay.relays, ¬ p.Holds r.id

theorem Free.selectable {r : OutboxRow} (h : Free s r) : s.relay.Selectable r.id := by
  obtain ⟨hr, hn⟩ := mem_unpublished.1 h.1
  exact ⟨by simp [Table.get?_of_mem hr, hn], h.2⟩

/-- A free row is among those that every searching call will still try, and no call has returned
while there is one. -/
def Covered (s : Calls) : Prop :=
  ∀ r, s.Free r → ∀ i : ℕ, (∀ now candidates,
    s.relay.relays[i]? = some (.selecting now candidates) → r ∈ candidates) ∧
      ∀ n, s.calls[i]? ≠ some (.returned n)

/-- A step of the call `i` after which no more rows are free. -/
theorem Covered.go {relay : State} {c c' : Call} {p p' : Phase} (h : Covered s)
    (hi : s.calls[i]? = some c) (hp : s.relay.relays[i]? = some p)
    (hrelays : relay.relays = s.relay.relays.set i p')
    (hrows : ∀ r, Free ⟨relay, s.calls.set i c'⟩ r → r ∈ unpublished s.relay.outbox ∧
      (p.Holds r.id → p'.Holds r.id))
    (hsel : ∀ r, s.Free r → ∀ now candidates, p' = .selecting now candidates → r ∈ candidates)
    (hret : ∀ r, s.Free r → ∀ n, c' ≠ .returned n) : Covered ⟨relay, s.calls.set i c'⟩ := by
  intro r hr j
  obtain ⟨hmem, hholds⟩ := hrows r hr
  have hlt : i < s.relay.relays.length := (List.getElem?_eq_some_iff.1 hp).1
  have hfree : s.Free r := by
    refine ⟨hmem, fun q hq hqr => ?_⟩
    obtain ⟨j, hj⟩ := List.getElem?_of_mem hq
    have hset : relay.relays[j]? = if i = j then some p' else some q := by
      rw [hrelays, getElem?_set_of_some hp, hj]
    split_ifs at hset with hij
    · subst hij
      obtain rfl : q = p := Option.some.inj (hj.symm.trans hp)
      exact hr.2 p' (List.mem_of_getElem? hset) (hholds hqr)
    · exact hr.2 q (List.mem_of_getElem? hset) hqr
  simp only [hrelays, getElem?_set_of_some hp, getElem?_set_of_some hi]
  by_cases hij : i = j
  · simp only [hij, if_true, Option.some.injEq, ne_eq]
    exact ⟨hsel r hfree, hret r hfree⟩
  · simp only [hij, if_false]
    exact h r hfree j

theorem start_covered : Covered (start k t₀) := by
  intro r hr i
  refine ⟨fun now candidates hi => ?_, fun n hi => ?_⟩
  · have := List.eq_of_mem_replicate (List.mem_of_getElem? hi)
    cases this
  · have := List.eq_of_mem_replicate (List.mem_of_getElem? hi)
    cases this

theorem Covered.step (h : Covered s) (hst : (draining fun _ => false).step s l s') :
    Covered s' := by
  obtain ⟨i, n, hi, hst⟩ := step_cases hst
  -- the rows stay the same, and the relay instance keeps its lock
  have same : ∀ {relay : State} {c : Call} {p p' : Phase}, relay.outbox = s.relay.outbox →
      (∀ id, p.Holds id → p'.Holds id) → ∀ r, Free ⟨relay, s.calls.set i c⟩ r →
        r ∈ unpublished s.relay.outbox ∧ (p.Holds r.id → p'.Holds r.id) :=
    fun ho hh r hr => ⟨ho ▸ hr.1, hh r.id⟩
  cases hst with
  | @poll now candidates hp hsnap =>
    rw [set_self hi]
    refine h.go hi hp rfl (same rfl fun id hid => by cases hid) (fun r hr now' cs he => ?_)
      fun r hr m hm => by cases hm
    obtain ⟨-, rfl⟩ := Phase.selecting.inj he
    exact hsnap.1.mem_iff.2 hr.1
  | @leave now hp =>
    refine h.go hi hp rfl (same rfl fun id hid => by cases hid) (fun r hr now' cs he => by cases he)
      fun r hr m hm => ?_
    cases (h r hr i).1 now [] hp
  | @skip now candidate candidates hp hsel =>
    rw [set_self hi]
    refine h.go hi hp rfl (same rfl fun id hid => by cases hid) (fun r hr now' cs he => ?_)
      fun r hr m hm => by cases hm
    obtain ⟨-, rfl⟩ := Phase.selecting.inj he
    rcases List.mem_cons.1 ((h r hr i).1 now _ hp) with rfl | hmem
    · exact (hsel hr.selectable).elim
    · exact hmem
  | take hp hrow hsel =>
    rw [set_self hi]
    exact h.go hi hp rfl (same rfl fun id hid => by cases hid) (fun r hr now' cs he => by cases he)
      fun r hr m hm => by cases hm
  | raise hp hf => cases hf
  | send hp hf =>
    rw [set_self hi]
    exact h.go hi hp rfl (same rfl fun id hid => hid) (fun r hr now' cs he => by cases he)
      fun r hr m hm => by cases hm
  | update hp =>
    rw [set_self hi]
    exact h.go hi hp rfl (same rfl fun id hid => hid) (fun r hr now' cs he => by cases he)
      fun r hr m hm => by cases hm
  | @finish now row hp =>
    refine h.go hi hp rfl (fun r hr => ?_) (fun r hr now' cs he => by cases he)
      fun r hr m hm => by cases hm
    -- the row whose lock is released has been published
    obtain ⟨hmem, hne⟩ := mem_unpublished_mark.1 hr.1
    refine ⟨hmem, fun hid => ?_⟩
    obtain ⟨x, hx, hxid⟩ := Phase.holds_iff.1 hid
    obtain rfl := Option.some.inj hx
    exact (hne hxid.symm).elim

/-- The counters say how many rows have been published. -/
def Counted (t₀ : Table OutboxRow.id) (s : Calls) : Prop :=
  (s.calls.map Call.published).sum + (unpublished s.relay.outbox).length = (unpublished t₀).length

theorem start_counted : Counted t₀ (start k t₀) := by
  simp [Counted, start, Call.published]

theorem Counted.step (h : Counted t₀ s) (hc : Consistent (s.relay.after earlier))
    (hst : (draining fun _ => false).step s l s') : Counted t₀ s' := by
  obtain ⟨i, n, hi, hst⟩ := step_cases hst
  cases hst with
  | poll => exact h
  | leave =>
    have hsum := sum_map_set_add (y := .returned n) Call.published hi
    simp only [Counted, Call.published] at h hsum ⊢
    exact (congrArg (· + _) (Nat.add_right_cancel hsum)).trans h
  | skip => exact h
  | take => exact h
  | raise hp hf => cases hf
  | send => exact h
  | update => exact h
  | @finish now row hp =>
    obtain ⟨hg, hn⟩ := hc.held _ (List.mem_of_getElem? hp) row rfl
    have hrows := length_unpublished_mark now hg hn
    have hsum := sum_map_set_add (y := .running (n + 1)) Call.published hi
    simp only [State.after] at hrows
    simp only [Counted, Call.published] at h hsum ⊢
    omega

/-! ### A call that is alone -/

/-- Where a call that is alone can be. -/
def Fits (fails : UUID → Bool) (s : State) : Call → Phase → Prop
  | .running _, .idle => True
  | .running _, .selecting _ candidates => s.Snapshot candidates
  | .running _, .locked _ row => Oldest s.outbox row
  | .running _, .sent _ row => Oldest s.outbox row
  | .running _, .marked _ row => Oldest s.outbox row
  | .returned _, _ => unpublished s.outbox = []
  | .raised, _ => ∃ row, Oldest s.outbox row ∧ fails row.id

/-- A call that is alone sends the oldest row, and has sent no younger ones. -/
structure Solo (fails : UUID → Bool) (s : Calls) : Prop where
  alone : ∃ c p, s.calls = [c] ∧ s.relay.relays = [p] ∧ Fits fails s.relay c p
  sorted : s.relay.sends.Pairwise (·.createdAt ≤ ·.createdAt)
  le : ∀ x ∈ s.relay.sends, ∀ r ∈ unpublished s.relay.outbox, x.createdAt ≤ r.createdAt

theorem start_solo : Solo fails (start 1 t₀) where
  alone := ⟨.running 0, .idle, rfl, rfl, trivial⟩
  sorted := .nil
  le x hx := by cases hx

/-- The first row of a snapshot is one of the oldest. -/
theorem oldest_of_snapshot {s : State} {row : OutboxRow} {candidates : List OutboxRow}
    (h : s.Snapshot (row :: candidates)) : Oldest s.outbox row where
  mem := h.1.mem_iff.1 List.mem_cons_self
  le r hr := by
    rcases List.mem_cons.1 (h.1.mem_iff.2 hr) with rfl | hr
    · exact le_rfl
    · exact (List.pairwise_cons.1 h.2).1 r hr

theorem Solo.step (h : Solo fails s) (hst : (draining fails).step s l s') : Solo fails s' := by
  obtain ⟨i, n, hi, hst⟩ := step_cases hst
  obtain ⟨c, p, hcalls, hrelays, hfits⟩ := h.alone
  obtain ⟨rfl, rfl⟩ : i = 0 ∧ c = .running n := by
    rw [hcalls] at hi
    cases i with
    | zero => exact ⟨rfl, Option.some.inj hi⟩
    | succ i => cases hi
  -- the only relay instance is the one of the call
  have hphase : ∀ {p'}, s.relay.relays[0]? = some p' → p = p' := fun hp' => by
    rw [hrelays] at hp'
    exact Option.some.inj hp'
  have hset : ∀ p', s.relay.relays.set 0 p' = [p'] := fun p' => by rw [hrelays]; rfl
  have hcset : ∀ c', s.calls.set 0 c' = [c'] := fun c' => by rw [hcalls]; rfl
  cases hst with
  | poll hp hsnap => exact ⟨⟨_, _, hcalls, hset _, hsnap⟩, h.sorted, h.le⟩
  | leave hp =>
    obtain rfl := hphase hp
    exact ⟨⟨_, _, hcset _, hset _, (hfits.1.nil_eq).symm⟩, h.sorted, h.le⟩
  | @skip now candidate candidates hp hsel =>
    obtain rfl := hphase hp
    -- nobody else locks a row or publishes one
    refine (hsel ?_).elim
    refine Free.selectable ⟨(oldest_of_snapshot hfits).mem, fun q hq hholds => ?_⟩
    obtain rfl : q = .selecting now (candidate :: candidates) := by
      rw [hrelays] at hq
      exact List.mem_singleton.1 hq
    cases hholds
  | @take now candidate candidates row hp hrow hsel =>
    obtain rfl := hphase hp
    have hold := oldest_of_snapshot hfits
    obtain rfl : candidate = row := by
      rw [Table.get?_of_mem (mem_unpublished.1 hold.mem).1] at hrow
      exact Option.some.inj hrow
    exact ⟨⟨_, _, hcalls, hset _, hold⟩, h.sorted, h.le⟩
  | @raise now row hp hf =>
    obtain rfl := hphase hp
    exact ⟨⟨_, _, hcset _, hset _, row, hfits, hf⟩, h.sorted, h.le⟩
  | @send now row hp hf =>
    obtain rfl := hphase hp
    refine ⟨⟨_, _, hcalls, hset _, hfits⟩, ?_, fun x hx r hr => ?_⟩
    · refine List.pairwise_append.2 ⟨h.sorted, List.pairwise_singleton _ _, fun x hx y hy => ?_⟩
      obtain rfl := List.mem_singleton.1 hy
      exact h.le x hx y hfits.mem
    · rcases List.mem_append.1 hx with hx | hx
      · exact h.le x hx r hr
      · obtain rfl := List.mem_singleton.1 hx
        exact hfits.le r hr
  | update hp =>
    obtain rfl := hphase hp
    exact ⟨⟨_, _, hcalls, hset _, hfits⟩, h.sorted, h.le⟩
  | finish hp =>
    refine ⟨⟨_, _, hcset _, hset _, trivial⟩, h.sorted, fun x hx r hr => ?_⟩
    exact h.le x hx r (mem_unpublished_mark.1 hr).1

theorem run_solo (h : (draining fails).Run (start 1 t₀) ls s) : Solo fails s :=
  h.invariant start_solo fun _ _ _ hs hst => hs.step hst

/-! ### Calls whose sends succeed -/

/-- The calls there were, none of which an exception has left. -/
structure Succeeding (k : ℕ) (s : Calls) : Prop where
  length : s.calls.length = k
  ne : ∀ c ∈ s.calls, c ≠ .raised

theorem start_succeeding : Succeeding k (start k t₀) where
  length := by simp [start]
  ne c hc := by
    rw [List.eq_of_mem_replicate hc]
    exact Call.noConfusion

theorem Succeeding.step (h : Succeeding k s) (hst : (draining fun _ => false).step s l s') :
    Succeeding k s' := by
  obtain ⟨i, n, -, hst⟩ := step_cases hst
  have hset : ∀ c, c ≠ .raised → Succeeding k ⟨s'.relay, s.calls.set i c⟩ := fun c hne => by
    refine ⟨by simp [h.length], fun c' hc' => ?_⟩
    rcases List.mem_or_eq_of_mem_set hc' with hc' | rfl
    · exact h.ne c' hc'
    · exact hne
  cases hst with
  | poll => exact ⟨h.length, h.ne⟩
  | leave => exact hset _ Call.noConfusion
  | skip => exact ⟨h.length, h.ne⟩
  | take => exact ⟨h.length, h.ne⟩
  | raise hp hf => cases hf
  | send => exact ⟨h.length, h.ne⟩
  | update => exact ⟨h.length, h.ne⟩
  | finish => exact hset _ Call.noConfusion

/-- What holds along the runs of such calls. -/
theorem run_succeeding (h : (draining fun _ => false).Run (start k t₀) ls s) :
    Kept t₀ s ∧ Covered s ∧ Counted t₀ s ∧ Succeeding k s := by
  refine (h.invariant (I := fun s =>
    Consistent (s.relay.after (t₀.rows.filter (·.publishedAt.isSome))) ∧
      Kept t₀ s ∧ Covered s ∧ Counted t₀ s ∧ Succeeding k s)
    ⟨start_consistent k t₀, start_kept, start_covered, start_counted, start_succeeding⟩ ?_).2
  rintro s l s' ⟨hc, hkept, hcov, hcount, hsucc⟩ hst
  exact ⟨consistent_step hc hst, hkept.step hc hst, hcov.step hst, hcount.step hc hst,
    hsucc.step hst⟩

/-- Once all the calls have returned, all rows have been published. -/
theorem all_published (hk : 0 < k) (hp : Paired s) (hcov : Covered s) (hs : Succeeding k s)
    (he : s.Ended) : unpublished s.relay.outbox = [] := by
  have hidle : ∀ p ∈ s.relay.relays, p = .idle := by
    intro p hpm
    obtain ⟨i, hi⟩ := List.getElem?_of_mem hpm
    have hlt : i < s.calls.length := hp.length ▸ (List.getElem?_eq_some_iff.1 hi).1
    have hidle := hp.idle i _ (List.getElem?_eq_getElem hlt) (he _ (List.getElem_mem hlt))
    exact Option.some.inj (hi.symm.trans hidle)
  -- the first call has returned
  obtain ⟨n, hn⟩ : ∃ n, s.calls[0]? = some (.returned n) := by
    have hlt : 0 < s.calls.length := hs.length.symm ▸ hk
    have hc := List.getElem_mem hlt
    rw [List.getElem?_eq_getElem hlt]
    cases hcase : s.calls[0] with
    | running n => exact absurd (he _ hc) (by rw [hcase]; simp [Call.isRunning])
    | returned n => exact ⟨n, rfl⟩
    | raised => exact absurd hcase (hs.ne _ hc)
  refine List.eq_nil_iff_forall_not_mem.2 fun r hr => (hcov r ⟨hr, fun p hpm => ?_⟩ 0).2 n hn
  rw [hidle p hpm]
  exact Bool.noConfusion

/-- Rows sent as often as they were published. -/
theorem perm_of_published (hc : Consistent (s.relay.after (t₀.rows.filter (·.publishedAt.isSome))))
    (hkept : Kept t₀ s) (hall : unpublished s.relay.outbox = []) :
    s.relay.sends.Perm (unpublished t₀) := by
  have hle : ∀ id, s.relay.sends.countP (·.id = id) ≤ 1 := fun id => by
    have hcop := hc.copies_le id
    simp only [State.copies, State.after, hkept.lost, List.count_nil, List.countP_append] at hcop
    omega
  have hnodup : s.relay.sends.Nodup := by
    refine List.nodup_iff_count_le_one.2 fun x => le_trans ?_ (hle x.id)
    exact List.countP_mono_left fun y _ hy => by simp [eq_of_beq hy]
  refine (List.perm_ext_iff_of_nodup hnodup ((nodup_rows t₀).filter _)).2 fun r => ?_
  refine ⟨hkept.sent r, fun hr => ?_⟩
  obtain ⟨hmem, hn⟩ := mem_unpublished.1 hr
  -- the row has been marked, so that it has been sent
  obtain ⟨now, hg⟩ : ∃ now, s.relay.outbox.get? r.id = some { r with publishedAt := some now } := by
    rcases hkept.kept r hmem with hg | ⟨-, h⟩
    · have : r ∈ unpublished s.relay.outbox := mem_unpublished_of_get? hg hn
      rw [hall] at this
      cases this
    · exact h
  have hpub : (s.relay.after (t₀.rows.filter (·.publishedAt.isSome))).Published r.id = true := by
    simp [State.Published, State.after, hg]
  have hcop := hc.copies r.id
  rw [hpub] at hcop
  have hbefore : (t₀.rows.filter (·.publishedAt.isSome)).countP (·.id = r.id) = 0 := by
    refine List.countP_eq_zero.2 fun x hx hid => ?_
    obtain ⟨hx, hxp⟩ := List.mem_filter.1 hx
    obtain rfl : x = r := List.inj_on_of_nodup_map t₀.nodup hx hmem (of_decide_eq_true hid)
    simp [hn] at hxp
  simp only [State.copies, State.after, List.countP_append, hbefore, if_true] at hcop
  obtain ⟨x, hx, hid⟩ := List.countP_pos_iff.1
    (show 0 < s.relay.sends.countP (·.id = r.id) by omega)
  obtain rfl : x = r := List.inj_on_of_nodup_map t₀.nodup
    (mem_unpublished.1 (hkept.sent x hx)).1 hmem (of_decide_eq_true hid)
  exact hx

end Calls

section Drained

open Calls

variable {s : Calls} {ls : List Label} {t₀ : Table OutboxRow.id} {k : ℕ}

/-- **Draining together.**  However the transactions of `k` calls interleave, when no send raises
their runs are bounded and a call that has not returned can go on; once all have returned, exactly
the rows that were to be published have been sent, each of them once, they are marked, and the
counters returned add up to their number.  A call that is alone sends them in the order of
`created_at`. -/
theorem drained (hk : 0 < k) (h : (draining fun _ => false).Run (start k t₀) ls s) :
    ls.length ≤ (start k t₀).measure ∧
      (¬ s.Ended → ∃ l s', (draining fun _ => false).step s l s') ∧
      (s.Ended → s.calls.length = k ∧ (∀ c ∈ s.calls, ∃ n, c = .returned n) ∧
        s.relay.sends.Perm (unpublished t₀) ∧
        (∀ r ∈ unpublished t₀, ∃ now,
          s.relay.outbox.get? r.id = some { r with publishedAt := some now }) ∧
        (s.calls.map Call.published).sum = (unpublished t₀).length ∧
        (k = 1 → s.relay.sends.Pairwise (·.createdAt ≤ ·.createdAt))) := by
  obtain ⟨hkept, hcov, hcount, hsucc⟩ := run_succeeding h
  have hpaired := run_paired h
  refine ⟨?_, exists_step_of_not_ended hpaired, fun he => ?_⟩
  · have := length_le h
    omega
  have hall := all_published hk hpaired hcov hsucc he
  refine ⟨hsucc.length, fun c hc => ?_, perm_of_published (run_consistent h) hkept hall,
    fun r hr => ?_, ?_, ?_⟩
  · cases c with
    | running n => cases he _ hc
    | returned n => exact ⟨n, rfl⟩
    | raised => exact absurd rfl (hsucc.ne _ hc)
  · obtain ⟨hmem, hn⟩ := mem_unpublished.1 hr
    rcases hkept.kept r hmem with hg | ⟨-, hg⟩
    · have hfree := mem_unpublished_of_get? hg hn
      rw [hall] at hfree
      cases hfree
    · exact hg
  · rw [Counted, hall] at hcount
    exact hcount
  · rintro rfl
    exact (run_solo h).sorted

/-- Two calls and two rows: the second call passes over the row that the first has locked, sends
the other one before it, and returns while the first still has its row. -/
theorem drained_two :
    let a : OutboxRow := ⟨1, .orderPlaced, 7, ⟨11, .orderPlaced, 0, { orderId := some 7 }⟩, 0, none⟩
    let b : OutboxRow := ⟨2, .orderPlaced, 8, ⟨12, .orderPlaced, 1, { orderId := some 8 }⟩, 1, none⟩
    let run : List Label :=
      [.poll 0 2 [a, b], .poll 1 3 [a, b], .select 0, .select 1, .select 1, .send 1, .update 1,
        .finish 1, .poll 1 4 [a], .select 1, .select 1, .send 0, .update 0, .finish 0, .poll 0 5 [],
        .select 0]
    ∃ s, LTS.runAct (act fun _ => false) (start 2 ((Table.empty.insert a).insert b)) run = some s ∧
      s.calls = [.returned 1, .returned 1] ∧ s.relay.sends = [b, a] ∧
      (s.calls.map Call.published).sum =
        (unpublished ((Table.empty.insert a).insert b)).length := by
  intro a b run
  have hrun : (LTS.runAct (act fun _ => false) (start 2 ((Table.empty.insert a).insert b)) run).map
      (fun s => (s.calls, s.relay.sends)) = some ([.returned 1, .returned 1], [b, a]) := by
    decide +kernel
  obtain ⟨s, hs, hend⟩ := Option.map_eq_some_iff.1 hrun
  obtain ⟨hcalls, hsends⟩ := Prod.mk.inj hend
  have hr : (draining fun _ => false).Run (start 2 ((Table.empty.insert a).insert b)) run s :=
    LTS.run_of_runAct (fun _ _ _ => trivial) hs
  have he : s.Ended := by
    rw [Calls.Ended, hcalls]
    decide
  exact ⟨s, hs, hcalls, hsends, ((drained (by decide) hr).2.2 he).2.2.2.2.1⟩

end Drained

end Relay

end FoodFlow
