import FoodFlow.Sql.Node
import FoodFlow.Shared.Mail

/-!
# The outbox relay

`_poll_and_publish` statement by statement: any number of relay instances share an outbox table
with the transactions that write into it, and publish to one log.  A relay's `SELECT ... ORDER BY
created_at LIMIT 1 FOR UPDATE SKIP LOCKED` tries the rows of its snapshot one after the other,
passing over those that another relay has locked or has published in the meantime; then it sends
the row, marks it and commits.  At every point its transaction can be aborted, by an exception of
the send or by a crash.

* `Relay.lts` : the system;
* `Relay.Consistent` : how the rows locked, sent, marked and lost hang together;
* `Relay.relay_safe` : what is marked was acknowledged, what was sent is a committed row, and a row
  is sent at most once more than its acknowledged transactions have been aborted.
-/

namespace FoodFlow

/-- A record of the log, as the relay sends it. -/
structure Record where
  topic : EventType
  key : UUID
  value : Envelope
  deriving DecidableEq, Repr

/-- The record of a row. -/
def OutboxRow.record (r : OutboxRow) : Record := ⟨r.topic, r.key, r.payload⟩

namespace Relay

/-- Where a relay instance is. -/
inductive Phase where
  /-- Between two transactions. -/
  | idle
  /-- Its `SELECT` has still to try these rows. -/
  | selecting (now : Time) (candidates : List OutboxRow)
  /-- It has locked the row. -/
  | locked (now : Time) (row : OutboxRow)
  /-- The broker has acknowledged the row. -/
  | sent (now : Time) (row : OutboxRow)
  /-- It has executed the `UPDATE`, but not committed. -/
  | marked (now : Time) (row : OutboxRow)
  deriving DecidableEq, Repr

namespace Phase

/-- The row that the transaction has locked. -/
def row? : Phase → Option OutboxRow
  | idle => none
  | selecting _ _ => none
  | locked _ row => some row
  | sent _ row => some row
  | marked _ row => some row

/-- The row that the transaction has locked, if the broker has acknowledged it. -/
def acked? : Phase → Option OutboxRow
  | sent _ row => some row
  | marked _ row => some row
  | _ => none

/-- The transaction has locked the row `id`. -/
def Holds (id : UUID) (p : Phase) : Bool := p.row?.any (·.id = id)

/-- The transaction has locked the row `id`, and the broker has acknowledged it. -/
def Acked (id : UUID) (p : Phase) : Bool := p.acked?.any (·.id = id)

theorem acked_row {p : Phase} {r : OutboxRow} (h : p.acked? = some r) : p.row? = some r := by
  cases p <;> first | exact h | cases h

theorem acked_eq_none {p : Phase} (h : p.row? = none) : p.acked? = none := by
  cases p <;> first | rfl | cases h

theorem holds_iff {p : Phase} {id : UUID} : p.Holds id ↔ ∃ r, p.row? = some r ∧ r.id = id := by
  simp [Holds, Option.any_eq_true]

theorem holds_of_acked {p : Phase} {id : UUID} (h : p.Acked id) : p.Holds id := by
  obtain ⟨r, hr, hid⟩ : ∃ r, p.acked? = some r ∧ r.id = id := by
    simpa [Acked, Option.any_eq_true] using h
  exact holds_iff.2 ⟨r, acked_row hr, hid⟩

end Phase

/-- The outbox of a service with the transactions on it, and what has been sent.  The field `lost`
is a history, which no step reads. -/
structure State where
  /-- The committed rows. -/
  outbox : Table OutboxRow.id
  /-- The rows inserted by the open transactions of the writers. -/
  writers : List (List OutboxRow)
  /-- The relay instances. -/
  relays : List Phase
  /-- The rows whose records have been appended to the log, as the relay read them. -/
  sends : List OutboxRow
  /-- The rows of the transactions aborted after the broker had acknowledged the row. -/
  lost : List UUID

/-- What can happen. -/
inductive Label where
  /-- A relay instance starts. -/
  | launch
  /-- A writer begins to use the outbox. -/
  | connect
  /-- `INSERT INTO outbox_events` in the transaction of the writer `w`. -/
  | insert (w : ℕ) (row : OutboxRow)
  /-- The writer `w` commits. -/
  | commit (w : ℕ)
  /-- The transaction of the writer `w` is rolled back. -/
  | rollback (w : ℕ)
  /-- The relay `i` begins a transaction at the time `now`, and its `SELECT` takes a snapshot. -/
  | poll (i : ℕ) (now : Time) (candidates : List OutboxRow)
  /-- The `SELECT` of the relay `i` tries its next row. -/
  | select (i : ℕ)
  /-- `producer.send_and_wait`, acknowledged. -/
  | send (i : ℕ)
  /-- `UPDATE outbox_events SET published_at = NOW() WHERE id = $1` -/
  | update (i : ℕ)
  /-- The relay `i` commits. -/
  | finish (i : ℕ)
  /-- The transaction of the relay `i` is aborted: the send raises, or something crashes. -/
  | abort (i : ℕ)
  deriving DecidableEq, Repr

theorem id_published (now : Time) (r : OutboxRow) :
    ({ r with publishedAt := some now } : OutboxRow).id = r.id := rfl

/-- The table once the relay has marked a row. -/
def markPublished (id : UUID) (now : Time) (t : Table OutboxRow.id) : Table OutboxRow.id :=
  t.update (·.id = id) (fun r => { r with publishedAt := some now }) (id_published now)

/-- It is the mark on the outbox of a service. -/
theorem outbox_publish (id : UUID) (now : Time) (m : Mail) :
    (m.publish id now).outbox = markPublished id now m.outbox := rfl

theorem get?_markPublished {id id' : UUID} {now : Time} {t : Table OutboxRow.id} :
    (markPublished id now t).get? id' =
      (t.get? id').map fun r => if r.id = id then { r with publishedAt := some now } else r := by
  rw [markPublished, Table.get?_update]
  simp only [decide_eq_true_eq]

namespace State

variable (s : State)

/-- The id is in use, in a committed row or in one of an open transaction. -/
def Taken (id : UUID) : Prop :=
  (s.outbox.get? id).isSome ∨ ∃ rows ∈ s.writers, ∃ r ∈ rows, r.id = id

/-- A snapshot: the committed rows with `published_at IS NULL`, `ORDER BY created_at`. -/
def Snapshot (candidates : List OutboxRow) : Prop :=
  candidates.Perm (s.outbox.rows.filter (·.publishedAt.isNone)) ∧
    candidates.Pairwise (·.createdAt ≤ ·.createdAt)

/-- The row can be selected: it is committed, has not been published, and is not locked. -/
def Selectable (id : UUID) : Prop :=
  (s.outbox.get? id).any (·.publishedAt.isNone) ∧ ∀ p ∈ s.relays, ¬ p.Holds id

instance (id : UUID) : Decidable (s.Taken id) :=
  inferInstanceAs (Decidable (_ ∨ ∃ rows ∈ s.writers, _))

instance (candidates : List OutboxRow) : Decidable (s.Snapshot candidates) :=
  inferInstanceAs (Decidable (_ ∧ _))

instance (id : UUID) : Decidable (s.Selectable id) := inferInstanceAs (Decidable (_ ∧ _))

/-- The log. -/
def log : List Record := s.sends.map OutboxRow.record

/-- How many records of the log are copies of the row. -/
def copies (id : UUID) : ℕ := s.sends.countP (·.id = id)

/-- The relay `i` goes on as `p`. -/
def setRelay (i : ℕ) (p : Phase) : State := { s with relays := s.relays.set i p }

/-- Performing a label. -/
def act : Label → Option State
  | .launch => some { s with relays := s.relays ++ [.idle] }
  | .connect => some { s with writers := s.writers ++ [[]] }
  | .insert w row =>
    match s.writers[w]? with
    | some rows =>
      -- the primary key; a row is written without `published_at`
      if s.Taken row.id ∨ row.publishedAt.isSome then none
      else some { s with writers := s.writers.set w (rows ++ [row]) }
    | none => none
  | .commit w =>
    match s.writers[w]? with
    | some rows =>
      some { s with outbox := rows.foldl Table.insert s.outbox, writers := s.writers.set w [] }
    | none => none
  | .rollback w => some { s with writers := s.writers.set w [] }
  | .poll i now candidates =>
    if s.relays[i]? = some .idle ∧ s.Snapshot candidates then
      some (s.setRelay i (.selecting now candidates))
    else none
  | .select i =>
    match s.relays[i]? with
    | some (.selecting _ []) => some (s.setRelay i .idle)
    | some (.selecting now (candidate :: candidates)) =>
      match s.outbox.get? candidate.id with
      | some row =>
        -- `SKIP LOCKED`, and the `WHERE` clause again once the row is locked
        if s.Selectable candidate.id then some (s.setRelay i (.locked now row))
        else some (s.setRelay i (.selecting now candidates))
      | none => some (s.setRelay i (.selecting now candidates))
    | _ => none
  | .send i =>
    match s.relays[i]? with
    | some (.locked now row) =>
      some { s.setRelay i (.sent now row) with sends := s.sends ++ [row] }
    | _ => none
  | .update i =>
    match s.relays[i]? with
    | some (.sent now row) => some (s.setRelay i (.marked now row))
    | _ => none
  | .finish i =>
    match s.relays[i]? with
    | some (.marked now row) =>
      some { s.setRelay i .idle with outbox := markPublished row.id now s.outbox }
    | _ => none
  | .abort i =>
    match s.relays[i]? with
    | some p =>
      some { s.setRelay i .idle with lost := s.lost ++ (p.acked?.map (·.id)).toList }
    | none => none

/-- The outbox before the first transaction, with its relay instances to come. -/
def empty : State := ⟨.empty, [], [], [], []⟩

/-- The row has been marked. -/
def Published (id : UUID) : Bool := (s.outbox.get? id).any (·.publishedAt.isSome)

end State

/-- The relays and writers of a service. -/
def lts : LTS State Label := .ofAct (· = .empty) (fun _ _ => True) State.act

/-! ### What a step can do -/

/-- What a step can do. -/
inductive Step (s : State) : State → Prop
  | launch : Step s { s with relays := s.relays ++ [.idle] }
  /-- A writer goes on without committing. -/
  | write {writers} :
      (∀ rows ∈ writers, ∀ r ∈ rows, (∃ rows ∈ s.writers, r ∈ rows) ∨ r.publishedAt = none) →
      Step s { s with writers }
  | commit {rows writers} : rows ∈ s.writers →
      (∀ rows' ∈ writers, rows' ∈ s.writers ∨ rows' = []) →
      Step s { s with outbox := rows.foldl Table.insert s.outbox, writers }
  /-- A relay that has no row locked goes on without locking one. -/
  | search {i p p'} : s.relays[i]? = some p → p.row? = none → p'.row? = none →
      Step s (s.setRelay i p')
  | select {i p now row} : s.relays[i]? = some p → p.row? = none →
      s.outbox.get? row.id = some row → s.Selectable row.id →
      Step s (s.setRelay i (.locked now row))
  | send {i now row} : s.relays[i]? = some (.locked now row) →
      Step s { s.setRelay i (.sent now row) with sends := s.sends ++ [row] }
  | update {i now row} : s.relays[i]? = some (.sent now row) →
      Step s (s.setRelay i (.marked now row))
  | finish {i now row} : s.relays[i]? = some (.marked now row) →
      Step s { s.setRelay i .idle with outbox := markPublished row.id now s.outbox }
  | abort {i p} : s.relays[i]? = some p →
      Step s { s.setRelay i .idle with lost := s.lost ++ (p.acked?.map (·.id)).toList }

variable {s s' : State} {l : Label}

theorem step_cases (h : lts.step s l s') : Step s s' := by
  have ha : s.act l = some s' := h.2
  cases l with
  | launch =>
    obtain rfl := Option.some.inj ha
    exact .launch
  | connect =>
    obtain rfl := Option.some.inj ha
    refine .write fun rows hrows r hr => ?_
    rcases List.mem_append.1 hrows with h | h
    · exact .inl ⟨rows, h, hr⟩
    · obtain rfl := List.mem_singleton.1 h
      cases hr
  | insert w row =>
    simp only [State.act] at ha
    split at ha
    · rename_i rows hw
      split_ifs at ha with htaken
      obtain rfl := Option.some.inj ha
      have hrow : row.publishedAt = none := by
        by_contra hp
        exact htaken (.inr (Option.isSome_iff_ne_none.2 hp))
      refine .write fun rows' hrows' r hr => ?_
      rcases List.mem_or_eq_of_mem_set hrows' with h | rfl
      · exact .inl ⟨rows', h, hr⟩
      · rcases List.mem_append.1 hr with hr | hr
        · exact .inl ⟨rows, List.mem_of_getElem? hw, hr⟩
        · exact .inr (List.mem_singleton.1 hr ▸ hrow)
    · cases ha
  | commit w =>
    simp only [State.act] at ha
    split at ha
    · rename_i rows hw
      obtain rfl := Option.some.inj ha
      exact .commit (List.mem_of_getElem? hw) fun rows' h => List.mem_or_eq_of_mem_set h
    · cases ha
  | rollback w =>
    obtain rfl := Option.some.inj ha
    refine .write fun rows' hrows' r hr => ?_
    rcases List.mem_or_eq_of_mem_set hrows' with h | rfl
    · exact .inl ⟨rows', h, hr⟩
    · cases hr
  | poll i now candidates =>
    simp only [State.act] at ha
    split_ifs at ha with hi
    obtain rfl := Option.some.inj ha
    exact .search hi.1 rfl rfl
  | select i =>
    simp only [State.act] at ha
    split at ha
    · rename_i hi
      obtain rfl := Option.some.inj ha
      exact .search hi rfl rfl
    · rename_i now candidate candidates hi
      split at ha
      · rename_i row hrow
        obtain hid : row.id = candidate.id := Table.key_of_get? hrow
        split_ifs at ha with hsel <;> obtain rfl := Option.some.inj ha
        · rw [← hid] at hrow hsel
          exact .select hi rfl hrow hsel
        · exact .search hi rfl rfl
      · obtain rfl := Option.some.inj ha
        exact .search hi rfl rfl
    · cases ha
  | send i =>
    simp only [State.act] at ha
    split at ha
    · rename_i hi
      obtain rfl := Option.some.inj ha
      exact .send hi
    · cases ha
  | update i =>
    simp only [State.act] at ha
    split at ha
    · rename_i hi
      obtain rfl := Option.some.inj ha
      exact .update hi
    · cases ha
  | finish i =>
    simp only [State.act] at ha
    split at ha
    · rename_i hi
      obtain rfl := Option.some.inj ha
      exact .finish hi
    · cases ha
  | abort i =>
    simp only [State.act] at ha
    split at ha
    · rename_i hi
      obtain rfl := Option.some.inj ha
      exact .abort hi
    · cases ha

/-! ### The invariant -/

/-- How the rows locked, sent, marked and lost hang together. -/
structure Consistent (s : State) : Prop where
  /-- What is about to be committed has not been published. -/
  unpublished : ∀ rows ∈ s.writers, ∀ r ∈ rows, r.publishedAt = none
  /-- A row that is locked is as the relay read it. -/
  held : ∀ p ∈ s.relays, ∀ r, p.row? = some r →
    s.outbox.get? r.id = some r ∧ r.publishedAt = none
  exclusive : ∀ id, s.relays.countP (Phase.Holds id) ≤ 1
  sent : ∀ r ∈ s.sends, ∃ r', s.outbox.get? r.id = some r' ∧ r'.record = r.record
  /-- Every copy of a row was lost with its transaction, or will be or has been marked. -/
  copies : ∀ id, s.copies id = s.lost.count id + s.relays.countP (Phase.Acked id) +
    if s.Published id then 1 else 0

theorem consistent_empty : Consistent .empty := by
  refine ⟨?_, ?_, ?_, ?_, ?_⟩
  · intro rows h; cases h
  · intro p h; cases h
  · intro id; exact Nat.zero_le 1
  · intro r h; cases h
  · intro id; rfl

/-- Rows after a commit: those that were there, and new ones. -/
theorem get?_foldl_insert {rows : List OutboxRow} {t : Table OutboxRow.id} {id : UUID} :
    (∀ r, t.get? id = some r → (rows.foldl Table.insert t).get? id = some r) ∧
      (t.get? id = none → ∀ r, (rows.foldl Table.insert t).get? id = some r → r ∈ rows) := by
  induction rows generalizing t with
  | nil => exact ⟨fun r h => h, fun h r h' => by rw [List.foldl_nil, h] at h'; cases h'⟩
  | cons x rows ih =>
    rw [List.foldl_cons]
    cases hx : t.get? x.id with
    | some x' =>
      rw [Table.insert_of_get? hx]
      exact ⟨ih.1, fun h r hr => List.mem_cons_of_mem _ (ih.2 h r hr)⟩
    | none =>
      have hins := Table.get?_insert hx id
      refine ⟨fun r hr => ih.1 r ?_, fun h r hr => ?_⟩
      · rw [hins, if_neg, hr]
        rintro rfl
        rw [hx] at hr
        cases hr
      · by_cases hid : x.id = id
        · rw [if_pos hid] at hins
          rw [ih.1 x hins] at hr
          exact Option.some.inj hr ▸ List.mem_cons_self
        · rw [if_neg hid] at hins
          exact List.mem_cons_of_mem _ (ih.2 (hins.trans h) r hr)

namespace Consistent

variable {i : ℕ} {p p' : Phase} {now : Time} {row : OutboxRow}

/-- A commit of a writer. -/
theorem commit (h : Consistent s) {rows : List OutboxRow} {writers : List (List OutboxRow)}
    (hrows : rows ∈ s.writers) (hw : ∀ rows' ∈ writers, rows' ∈ s.writers ∨ rows' = []) :
    Consistent { s with outbox := rows.foldl Table.insert s.outbox, writers } where
  unpublished rows' hrows' r hr := by
    rcases hw rows' hrows' with hrows' | rfl
    · exact h.unpublished rows' hrows' r hr
    · cases hr
  held p hp r hr := by
    obtain ⟨hg, hn⟩ := h.held p hp r hr
    exact ⟨get?_foldl_insert.1 r hg, hn⟩
  exclusive := h.exclusive
  sent r hr := by
    obtain ⟨r', hg, hrec⟩ := h.sent r hr
    exact ⟨r', get?_foldl_insert.1 r' hg, hrec⟩
  copies id := by
    -- a new row has not been published
    have hpub : State.Published { s with outbox := rows.foldl Table.insert s.outbox, writers } id =
        s.Published id := by
      simp only [State.Published]
      cases hg : s.outbox.get? id with
      | some r => rw [get?_foldl_insert.1 r hg]
      | none =>
        cases hg' : (rows.foldl Table.insert s.outbox).get? id with
        | none => rfl
        | some r => simp [h.unpublished rows hrows r (get?_foldl_insert.2 hg r hg')]
    rw [hpub]
    exact h.copies id

/-- The relay `i` goes on: what it has locked is as it read it and locked by no other relay. -/
theorem setRelay (h : Consistent s) (p' : Phase) (hi : s.relays[i]? = some p)
    (hheld : ∀ r, p'.row? = some r → s.outbox.get? r.id = some r ∧ r.publishedAt = none)
    (hholds : ∀ id, p'.Holds id → p.Holds id ∨ ∀ q ∈ s.relays, ¬ q.Holds id) :
    (∀ q ∈ s.relays.set i p', ∀ r, q.row? = some r →
        s.outbox.get? r.id = some r ∧ r.publishedAt = none) ∧
      ∀ id, (s.relays.set i p').countP (Phase.Holds id) ≤ 1 := by
  refine ⟨fun q hq r hr => ?_, fun id => ?_⟩
  · rcases List.mem_or_eq_of_mem_set hq with hq | rfl
    · exact h.held q hq r hr
    · exact hheld r hr
  · have hset := countP_set_add (y := p') (Phase.Holds id) hi
    have hone := h.exclusive id
    by_cases hp' : p'.Holds id
    · rcases hholds id hp' with hp | hfree
      · rw [if_pos hp, if_pos hp'] at hset
        omega
      · have hzero : s.relays.countP (Phase.Holds id) = 0 := List.countP_eq_zero.2 hfree
        rw [if_pos hp'] at hset
        omega
    · rw [if_neg hp'] at hset
      omega

/-- No other relay has locked what the relay `i` has. -/
theorem unheld (h : Consistent s) (hi : s.relays[i]? = some p) {id : UUID} (hp : p.Holds id) :
    ∀ q ∈ s.relays.set i .idle, ¬ q.Holds id := by
  have hset := countP_set_add (y := .idle) (Phase.Holds id) hi
  have hone := h.exclusive id
  have hidle : Phase.Holds id .idle = false := rfl
  rw [if_pos hp, hidle] at hset
  simp only [Bool.false_eq_true, if_false, add_zero] at hset
  exact List.countP_eq_zero.1 (by omega)

/-- The relay goes on without sending or marking anything. -/
theorem pass (h : Consistent s) (hi : s.relays[i]? = some p)
    (hheld : ∀ r, p'.row? = some r → s.outbox.get? r.id = some r ∧ r.publishedAt = none)
    (hholds : ∀ id, p'.Holds id → p.Holds id ∨ ∀ q ∈ s.relays, ¬ q.Holds id)
    (hacked : p'.acked? = p.acked?) : Consistent (s.setRelay i p') := by
  obtain ⟨hheld', hexcl⟩ := h.setRelay _ hi hheld hholds
  refine ⟨h.unpublished, hheld', hexcl, h.sent, fun id => ?_⟩
  have hsame : p'.Acked id = p.Acked id := by rw [Phase.Acked, Phase.Acked, hacked]
  have hset := countP_set_add (y := p') (Phase.Acked id) hi
  rw [hsame] at hset
  have hcop : s.copies id = s.lost.count id + s.relays.countP (Phase.Acked id) +
    if s.Published id then 1 else 0 := h.copies id
  show s.copies id = s.lost.count id + (s.relays.set i p').countP (Phase.Acked id) +
    if s.Published id then 1 else 0
  omega

/-- The broker acknowledges the row. -/
theorem send (h : Consistent s) (hi : s.relays[i]? = some (.locked now row)) :
    Consistent { s.setRelay i (.sent now row) with sends := s.sends ++ [row] } := by
  have hrow := h.held _ (List.mem_of_getElem? hi) row rfl
  obtain ⟨hheld, hexcl⟩ := h.setRelay (.sent now row) hi
    (fun r hr => Option.some.inj hr ▸ hrow) fun id hid => .inl hid
  refine ⟨h.unpublished, hheld, hexcl, fun r hr => ?_, fun id => ?_⟩
  · rcases List.mem_append.1 hr with hr | hr
    · exact h.sent r hr
    · obtain rfl := List.mem_singleton.1 hr
      exact ⟨r, hrow.1, rfl⟩
  · have hset := countP_set_add (y := .sent now row) (Phase.Acked id) hi
    have hcop := h.copies id
    have hold : Phase.Acked id (.locked now row) = false := rfl
    have hnew : Phase.Acked id (.sent now row) = decide (row.id = id) := rfl
    rw [hold, hnew] at hset
    show (s.sends ++ [row]).countP _ = s.lost.count id +
      (s.relays.set i (.sent now row)).countP (Phase.Acked id) + if s.Published id then 1 else 0
    rw [List.countP_append, List.countP_singleton]
    rw [State.copies] at hcop
    simp only [Bool.false_eq_true, if_false, add_zero] at hset
    omega

/-- The relay commits: the row is marked, and was not before. -/
theorem finish (h : Consistent s) (hi : s.relays[i]? = some (.marked now row)) :
    Consistent { s.setRelay i .idle with outbox := markPublished row.id now s.outbox } := by
  obtain ⟨hg, hn⟩ := h.held _ (List.mem_of_getElem? hi) row rfl
  have hfree : ∀ q ∈ s.relays.set i .idle, ¬ q.Holds row.id :=
    h.unheld hi (Phase.holds_iff.2 ⟨row, rfl, rfl⟩)
  obtain ⟨hheld, hexcl⟩ := h.setRelay .idle hi (fun r hr => by cases hr)
    fun id hid => by cases hid
  refine ⟨h.unpublished, fun q hq r hr => ?_, hexcl, fun r hr => ?_, fun id => ?_⟩
  · obtain ⟨hgr, hnr⟩ := hheld q hq r hr
    have hne : r.id ≠ row.id := fun he => hfree q hq (Phase.holds_iff.2 ⟨r, hr, he⟩)
    refine ⟨?_, hnr⟩
    rw [get?_markPublished, hgr, Option.map_some, if_neg hne]
  · obtain ⟨r', hgr, hrec⟩ := h.sent r hr
    refine ⟨if r'.id = row.id then { r' with publishedAt := some now } else r', ?_, ?_⟩
    · rw [get?_markPublished, hgr, Option.map_some]
    · split_ifs <;> exact hrec
  · have hset := countP_set_add (y := .idle) (Phase.Acked id) hi
    have hcop := h.copies id
    have hold : Phase.Acked id (.marked now row) = decide (row.id = id) := rfl
    have hnew : Phase.Acked id .idle = false := rfl
    rw [hold, hnew] at hset
    simp only [Bool.false_eq_true, if_false, add_zero, decide_eq_true_eq] at hset
    have hpub : State.Published
        { s.setRelay i .idle with outbox := markPublished row.id now s.outbox } id =
          (decide (row.id = id) || s.Published id) := by
      simp only [State.Published, get?_markPublished]
      by_cases hid : row.id = id
      · subst hid
        simp [hg]
      · cases hgi : s.outbox.get? id with
        | none => simp [hid]
        | some r =>
          have hri : r.id = id := Table.key_of_get? hgi
          have hne : r.id ≠ row.id := fun he => hid (he.symm.trans hri)
          simp [hid, hne]
    show s.copies id = s.lost.count id + (s.relays.set i .idle).countP (Phase.Acked id) + _
    rw [hpub]
    by_cases hid : row.id = id
    · subst hid
      have hnot : s.Published row.id = false := by simp [State.Published, hg, hn]
      rw [if_pos rfl] at hset
      rw [hnot] at hcop
      simp only [Bool.false_eq_true, if_false, add_zero] at hcop
      simp only [decide_true, Bool.true_or, if_true]
      omega
    · rw [if_neg hid] at hset
      simp only [hid, decide_false, Bool.false_or]
      omega

/-- The transaction of the relay is aborted: the row is free again, and as it was. -/
theorem abort (h : Consistent s) (hi : s.relays[i]? = some p) :
    Consistent { s.setRelay i .idle with lost := s.lost ++ (p.acked?.map (·.id)).toList } := by
  obtain ⟨hheld, hexcl⟩ := h.setRelay .idle hi (fun r hr => by cases hr)
    fun id hid => by cases hid
  refine ⟨h.unpublished, hheld, hexcl, h.sent, fun id => ?_⟩
  have hset := countP_set_add (y := .idle) (Phase.Acked id) hi
  have hcop := h.copies id
  have hnew : Phase.Acked id .idle = false := rfl
  rw [hnew] at hset
  simp only [Bool.false_eq_true, if_false, add_zero] at hset
  have hlost : (s.lost ++ (p.acked?.map (·.id)).toList).count id =
      s.lost.count id + if p.Acked id then 1 else 0 := by
    rw [List.count_append, Phase.Acked]
    cases p.acked? with
    | none => rfl
    | some r => simp [List.count_singleton]
  show s.copies id = (s.lost ++ (p.acked?.map (·.id)).toList).count id +
    (s.relays.set i .idle).countP (Phase.Acked id) + if s.Published id then 1 else 0
  rw [hlost]
  omega

theorem step (h : Consistent s) (hst : lts.step s l s') : Consistent s' := by
  cases step_cases hst with
  | launch =>
    refine ⟨h.unpublished, fun p hp r hr => ?_, fun id => ?_, h.sent, fun id => ?_⟩
    · rcases List.mem_append.1 hp with hp | hp
      · exact h.held p hp r hr
      · obtain rfl := List.mem_singleton.1 hp
        cases hr
    · have hone := h.exclusive id
      rwa [List.countP_append, List.countP_singleton, if_neg (by simp [Phase.Holds, Phase.row?])]
    · have hcop := h.copies id
      rwa [List.countP_append, List.countP_singleton, if_neg (by simp [Phase.Acked, Phase.acked?])]
  | write hw =>
    refine ⟨fun rows hrows r hr => ?_, h.held, h.exclusive, h.sent, h.copies⟩
    rcases hw rows hrows r hr with ⟨rows', hrows', hr'⟩ | hn
    · exact h.unpublished rows' hrows' r hr'
    · exact hn
  | commit hrows hw => exact h.commit hrows hw
  | search hi hp hp' =>
    refine h.pass hi (fun r hr => ?_) (fun id hid => ?_) ?_
    · rw [hp'] at hr
      cases hr
    · obtain ⟨r, hr, -⟩ := Phase.holds_iff.1 hid
      rw [hp'] at hr
      cases hr
    · rw [Phase.acked_eq_none hp, Phase.acked_eq_none hp']
  | @select i p now row hi hp hg hsel =>
    refine h.pass hi (fun r hr => ?_) (fun id hid => ?_) ?_
    · obtain rfl := Option.some.inj hr
      have hn := hsel.1
      rw [hg] at hn
      exact ⟨hg, by simpa using hn⟩
    · obtain ⟨r, hr, rfl⟩ := Phase.holds_iff.1 hid
      obtain rfl := Option.some.inj hr
      exact .inr hsel.2
    · rw [Phase.acked_eq_none hp]
      rfl
  | send hi => exact h.send hi
  | @update i now row hi =>
    have hrow := h.held _ (List.mem_of_getElem? hi)
    exact h.pass hi (fun r hr => hrow r hr) (fun id hid => .inl hid) rfl
  | finish hi => exact h.finish hi
  | abort hi => exact h.abort hi

/-- At most one copy of a row was not lost with its transaction. -/
theorem copies_le (h : Consistent s) (id : UUID) : s.copies id ≤ 1 + s.lost.count id := by
  have hacked : s.relays.countP (Phase.Acked id) + (if s.Published id then 1 else 0) ≤ 1 := by
    by_cases hp : s.Published id
    · -- a relay locks only what has not been published
      have hzero : s.relays.countP (Phase.Acked id) = 0 := by
        refine List.countP_eq_zero.2 fun p hpm ha => ?_
        obtain ⟨r, hr, rfl⟩ := Phase.holds_iff.1 (Phase.holds_of_acked ha)
        obtain ⟨hg, hn⟩ := h.held p hpm r hr
        simp [State.Published, hg, hn] at hp
      rw [hzero, if_pos hp]
    · have hmono := List.countP_mono_left (l := s.relays) (p := Phase.Acked id)
        (q := Phase.Holds id) fun p _ ha => Phase.holds_of_acked ha
      have hone := h.exclusive id
      rw [if_neg hp]
      omega
  have hcop := h.copies id
  omega

theorem published_sent (h : Consistent s) {r : OutboxRow} (hr : r ∈ s.outbox.rows)
    (hp : r.publishedAt ≠ none) : r.record ∈ s.log := by
  have hg := Table.get?_of_mem hr
  have hpub : s.Published r.id = true := by
    simp [State.Published, hg, Option.isSome_iff_ne_none, hp]
  have hcop := h.copies r.id
  rw [if_pos hpub] at hcop
  obtain ⟨r', hr', hid⟩ := List.countP_pos_iff.1 (show 0 < s.copies r.id by omega)
  obtain ⟨r₀, hg₀, hrec⟩ := h.sent r' hr'
  rw [of_decide_eq_true hid, hg] at hg₀
  obtain rfl := Option.some.inj hg₀
  exact List.mem_map.2 ⟨r', hr', hrec.symm⟩

/-- When no other row has the same record, the copies of a row are the records equal to its own. -/
theorem count_log (h : Consistent s) {r : OutboxRow} (hr : r ∈ s.outbox.rows)
    (hr' : ∀ r' ∈ s.outbox.rows, r'.record = r.record → r'.id = r.id) :
    s.log.count r.record = s.copies r.id := by
  rw [State.log, List.count, List.countP_map, State.copies]
  refine List.countP_congr fun x hx => ?_
  obtain ⟨y, hg, hrec⟩ := h.sent x hx
  have hid : y.id = x.id := Table.key_of_get? hg
  simp only [Function.comp, beq_iff_eq, decide_eq_true_eq]
  constructor
  · intro he
    rw [← hid]
    exact hr' y (Table.mem_of_get? hg) (hrec.trans he)
  · intro he
    rw [he, Table.get?_of_mem hr] at hg
    rw [← hrec, Option.some.inj hg]

/-- Once its transaction has been aborted, the row is free. -/
theorem selectable_abort (h : Consistent s) (hi : s.relays[i]? = some p)
    (hrow : p.row? = some row) : State.Selectable
      { s.setRelay i .idle with lost := s.lost ++ (p.acked?.map (·.id)).toList } row.id := by
  obtain ⟨hg, hn⟩ := h.held p (List.mem_of_getElem? hi) row hrow
  refine ⟨by simp [State.setRelay, hg, hn], fun q hq => ?_⟩
  exact h.unheld hi (Phase.holds_iff.2 ⟨row, hrow, rfl⟩) q hq

end Consistent

theorem consistent (h : lts.Reachable s) : Consistent s :=
  h.invariant (fun _ h₀ => h₀ ▸ consistent_empty) fun _ _ _ hs hst => hs.step hst

/-! ### Every run -/

/-- **Safety of the relay.**  A row that is marked was acknowledged with its topic, key and
payload; a record of the log is that of a committed row, and all copies of a row are equal; a row
whose transaction is aborted can be selected again; and a row has at most one copy more than
transactions that were aborted after the broker had acknowledged it. -/
theorem relay_safe (h : lts.Reachable s) :
    (∀ r ∈ s.outbox.rows, r.publishedAt ≠ none → r.record ∈ s.log) ∧
      (∀ m ∈ s.log, ∃ r ∈ s.outbox.rows, r.record = m) ∧
      (∀ r ∈ s.sends, ∀ r' ∈ s.sends, r.id = r'.id → r.record = r'.record) ∧
      (∀ i p r s', s.relays[i]? = some p → p.row? = some r → lts.step s (.abort i) s' →
        s'.Selectable r.id) ∧
      (∀ id, s.copies id ≤ 1 + s.lost.count id) ∧
      ∀ r ∈ s.outbox.rows, (∀ r' ∈ s.outbox.rows, r'.record = r.record → r'.id = r.id) →
        s.log.count r.record ≤ 1 + s.lost.count r.id := by
  have hc := consistent h
  refine ⟨fun r hr hp => hc.published_sent hr hp, fun m hm => ?_, fun r hr r' hr' hid => ?_,
    fun i p r s' hi hrow hst => ?_, hc.copies_le, fun r hr hr' => ?_⟩
  · obtain ⟨r, hr, rfl⟩ := List.mem_map.1 hm
    obtain ⟨r', hg, hrec⟩ := hc.sent r hr
    exact ⟨r', Table.mem_of_get? hg, hrec⟩
  · obtain ⟨r₀, hg, hrec⟩ := hc.sent r hr
    obtain ⟨r₁, hg', hrec'⟩ := hc.sent r' hr'
    rw [hid, hg'] at hg
    rw [← hrec, ← hrec', Option.some.inj hg]
  · have ha : s.act (.abort i) = some s' := hst.2
    simp only [State.act, hi] at ha
    obtain rfl := Option.some.inj ha
    exact hc.selectable_abort hi hrow
  · rw [hc.count_log hr hr']
    exact hc.copies_le r.id

/-- Two relays and two rows: while the first relay has the first row, the second passes over it;
the first crashes when its send has been acknowledged, and sends the row again. -/
theorem relay_safe_crashed :
    let a : OutboxRow := ⟨1, .orderPlaced, 7, ⟨11, .orderPlaced, 0, { orderId := some 7 }⟩, 0, none⟩
    let b : OutboxRow := ⟨2, .orderPlaced, 8, ⟨12, .orderPlaced, 1, { orderId := some 8 }⟩, 1, none⟩
    let run : List Label :=
      [.launch, .launch, .connect, .insert 0 a, .insert 0 b, .commit 0, .poll 0 2 [a, b], .select 0,
        .poll 1 3 [a, b], .select 1, .select 1, .send 0, .abort 0, .send 1, .update 1, .finish 1,
        .poll 0 4 [a], .select 0, .send 0, .update 0, .finish 0]
    ∃ s, LTS.runAct State.act .empty run = some s ∧ s.copies a.id = 2 ∧
      s.copies a.id ≤ 1 + s.lost.count a.id := by
  intro a b run
  have hrun : (LTS.runAct State.act .empty run).map (fun s => s.copies a.id) = some 2 := by
    decide +kernel
  obtain ⟨s, hs, hcopies⟩ := Option.map_eq_some_iff.1 hrun
  have hreach : lts.Reachable s :=
    LTS.reachable_of_runAct rfl (fun _ _ _ => trivial) hs
  exact ⟨s, hs, hcopies, (relay_safe hreach).2.2.2.2.1 a.id⟩

end Relay

end FoodFlow
