import FoodFlow.Sql.Table
import FoodFlow.Sql.Types
import FoodFlow.Sql.Claim
import FoodFlow.Sql.Serial
import FoodFlow.Shared.Events

/-!
# Outbox and ledger

The two tables that the order, restaurant and payment databases have in common: `outbox_events`,
from which the relay publishes, and `processed_events`, the ledger of the consumer.  The
statements on them are given once here; `Dbms.withMail` adds them to the tables of a service.

* `Mail.ledger` : `processed_events` is a ledger in the sense of `FoodFlow.Sql.Claim`;
* `Discipline.withMail` : the two `INSERT`s lock what they depend on, the `SELECT` does not.
-/

namespace FoodFlow

/-- `outbox_events` and the event ids in `processed_events`. -/
structure Mail where
  outbox : Table OutboxRow.id
  processed : List UUID

namespace Mail

/-- No event published, none processed. -/
def empty : Mail := ⟨.empty, []⟩

/-- The statements on the two tables. -/
inductive Stmt where
  /-- `SELECT 1 FROM processed_events WHERE event_id = $1` -/
  | selectProcessed (eventId : UUID)
  /-- `INSERT INTO processed_events (event_id) VALUES ($1)` -/
  | insertProcessed (eventId : UUID)
  /-- `INSERT INTO outbox_events (id, topic, key, payload, created_at) VALUES (...)` -/
  | insertOutbox (r : OutboxRow)

/-- What the statements return. -/
def Stmt.Res : Stmt → Type
  | .selectProcessed _ => Bool
  | .insertProcessed _ => Unit
  | .insertOutbox _ => Unit

/-- Changes of the two tables. -/
inductive Write where
  | addProcessed (eventId : UUID)
  | addOutbox (r : OutboxRow)

/-- Values of the two primary keys. -/
inductive Lock where
  | processed (eventId : UUID)
  | outbox (id : UUID)
  deriving DecidableEq

/-- The effect of a statement. -/
def exec : (q : Stmt) → Mail → Except SqlError (q.Res × List Write)
  | .selectProcessed e, m => .ok (decide (e ∈ m.processed), [])
  | .insertProcessed e, m =>
    if e ∈ m.processed then .error (.uniqueViolation "processed_events_pkey")
    else .ok ((), [.addProcessed e])
  | .insertOutbox r, m =>
    if (m.outbox.get? r.id).isSome then .error (.uniqueViolation "outbox_events_pkey")
    else .ok ((), [.addOutbox r])

/-- The effect of a change. -/
def apply : Write → Mail → Mail
  | .addProcessed e, m => { m with processed := e :: m.processed }
  | .addOutbox r, m => { m with outbox := m.outbox.insert r }

/-- The keys that a statement has to own. -/
def needs : Stmt → List Lock
  | .selectProcessed _ => []
  | .insertProcessed e => [.processed e]
  | .insertOutbox r => [.outbox r.id]

/-- The mark that the relay leaves on a row it has published. -/
def publish (id : UUID) (now : Time) (m : Mail) : Mail :=
  { m with outbox := m.outbox.update (·.id = id) fun r => { r with publishedAt := some now } }

variable (m : Mail)

@[simp] theorem apply_addProcessed_processed (e : UUID) :
    (apply (.addProcessed e) m).processed = e :: m.processed := rfl

@[simp] theorem apply_addProcessed_outbox (e : UUID) :
    (apply (.addProcessed e) m).outbox = m.outbox := rfl

@[simp] theorem apply_addOutbox_processed (r : OutboxRow) :
    (apply (.addOutbox r) m).processed = m.processed := rfl

@[simp] theorem apply_addOutbox_outbox (r : OutboxRow) :
    (apply (.addOutbox r) m).outbox = m.outbox.insert r := rfl

/-- What is in the ledger stays there. -/
theorem mem_processed_apply {e : UUID} (w : Write) (h : e ∈ m.processed) :
    e ∈ (apply w m).processed := by
  cases w with
  | addProcessed e' => exact List.mem_cons_of_mem _ h
  | addOutbox r => exact h

end Mail

/-- The tables of a service, with the two common ones. -/
structure WithMail (T : Type) where
  tables : T
  mail : Mail

/-- The id of the outbox row drawn is new. -/
def WithMail.FreshRow {T : Type} (d : WithMail T) (f : Fresh) : Prop :=
  d.mail.outbox.get? f.rowId = none

/-- The database of a service, whose own tables are `D`.  `err` tells how the service sees an
error of the common statements. -/
abbrev Dbms.withMail (D : Dbms) (err : SqlError → D.Err) : Dbms where
  Db := WithMail D.Db
  Stmt := D.Stmt ⊕ Mail.Stmt
  Res := Sum.elim D.Res Mail.Stmt.Res
  Write := D.Write ⊕ Mail.Write
  Lock := D.Lock ⊕ Mail.Lock
  Err := D.Err
  exec
    | .inl q, d => (D.exec q d.tables).map fun p => (p.1, p.2.map .inl)
    | .inr q, d =>
      match Mail.exec q d.mail with
      | .error e => .error (err e)
      | .ok p => .ok (p.1, p.2.map .inr)
  apply
    | .inl w, d => { d with tables := D.apply w d.tables }
    | .inr w, d => { d with mail := Mail.apply w d.mail }
  needs
    | .inl q, d => (D.needs q d.tables).map .inl
    | .inr q, _ => (Mail.needs q).map .inr

namespace Mail

variable {D : Dbms} {err : SqlError → D.Err} {α : Type}

/-- The idempotency check. -/
def selectProcessed (e : UUID) : Tx (D.withMail err) Bool :=
  @Tx.exec (D.withMail err) (.inr (.selectProcessed e))

/-- The entry into the ledger. -/
def insertProcessed (e : UUID) : Tx (D.withMail err) Unit :=
  @Tx.exec (D.withMail err) (.inr (.insertProcessed e))

/-- Writing an event into the outbox, under the order it is about. -/
def insertOutbox (topic : EventType) (key : UUID) (payload : Envelope) (f : Fresh) :
    Tx (D.withMail err) Unit :=
  @Tx.exec (D.withMail err) (.inr (.insertOutbox ⟨f.rowId, topic, key, payload, f.now, none⟩))

/-- A statement on the tables of the service. -/
def own (D : Dbms) {err : SqlError → D.Err} (q : D.Stmt) : Tx (D.withMail err) (D.Res q) :=
  @Tx.exec (D.withMail err) (.inl q)

/-! ### Executing the statements in isolation -/

theorem applyAll_inl (ws : List D.Write) (d : WithMail D.Db) :
    (D.withMail err).applyAll (ws.map .inl) d = { d with tables := D.applyAll ws d.tables } := by
  induction ws generalizing d with
  | nil => rfl
  | cons w ws ih => exact ih _

theorem eval_own (q : D.Stmt) (k : D.Res q → Tx (D.withMail err) α) (d : WithMail D.Db)
    (saved : List (WithMail D.Db)) :
    (Tx.bind (own D q) k).eval d saved = match D.exec q d.tables with
      | .error e => .failed e
      | .ok p => (k p.1).eval { d with tables := D.applyAll p.2 d.tables } saved := by
  cases h : D.exec q d.tables with
  | error e =>
    have hx : (D.withMail err).exec (.inl q) d = .error e := by simp only [h]; rfl
    exact Tx.eval_stmt_error hx _ _
  | ok p =>
    have hx : (D.withMail err).exec (.inl q) d = .ok (p.1, p.2.map .inl) := by
      simp only [h]; rfl
    exact (Tx.eval_stmt_ok hx _ _).trans (by rw [applyAll_inl]; rfl)

theorem eval_selectProcessed (e : UUID) (k : Bool → Tx (D.withMail err) α) (d : WithMail D.Db)
    (saved : List (WithMail D.Db)) :
    (Tx.bind (selectProcessed e) k).eval d saved =
      (k (decide (e ∈ d.mail.processed))).eval d saved := rfl

theorem eval_insertProcessed (e : UUID) (k : Unit → Tx (D.withMail err) α) (d : WithMail D.Db)
    (saved : List (WithMail D.Db)) :
    (Tx.bind (insertProcessed e) k).eval d saved =
      if e ∈ d.mail.processed then .failed (err (.uniqueViolation "processed_events_pkey"))
      else (k ()).eval { d with mail := apply (.addProcessed e) d.mail } saved := by
  split_ifs with he
  · have hx : (D.withMail err).exec (.inr (.insertProcessed e)) d =
        .error (err (.uniqueViolation "processed_events_pkey")) := by simp only [exec, if_pos he]
    exact Tx.eval_stmt_error hx _ _
  · have hx : (D.withMail err).exec (.inr (.insertProcessed e)) d =
        .ok ((), [.inr (.addProcessed e)]) := by simp only [exec, if_neg he]; rfl
    exact Tx.eval_stmt_ok hx _ _

theorem eval_insertOutbox (topic : EventType) (key : UUID) (payload : Envelope) (f : Fresh)
    (k : Unit → Tx (D.withMail err) α) (d : WithMail D.Db) (saved : List (WithMail D.Db)) :
    (Tx.bind (insertOutbox topic key payload f) k).eval d saved =
      if (d.mail.outbox.get? f.rowId).isSome then
        .failed (err (.uniqueViolation "outbox_events_pkey"))
      else (k ()).eval
        { d with mail := apply (.addOutbox ⟨f.rowId, topic, key, payload, f.now, none⟩) d.mail }
        saved := by
  split_ifs with hr
  · have hx : (D.withMail err).exec
        (.inr (.insertOutbox ⟨f.rowId, topic, key, payload, f.now, none⟩)) d =
        .error (err (.uniqueViolation "outbox_events_pkey")) := by simp only [exec, if_pos hr]
    exact Tx.eval_stmt_error hx _ _
  · have hx : (D.withMail err).exec
        (.inr (.insertOutbox ⟨f.rowId, topic, key, payload, f.now, none⟩)) d =
        .ok ((), [.inr (.addOutbox ⟨f.rowId, topic, key, payload, f.now, none⟩)]) := by
      simp only [exec, if_neg hr]; rfl
    exact Tx.eval_stmt_ok hx _ _

/-- A transaction removes nothing from the ledger. -/
theorem mem_processed_run {t : Tx (D.withMail err) α} {d d' : WithMail D.Db} {a : α} {e : UUID}
    (h : t.run d = .ok (a, d')) (he : e ∈ d.mail.processed) : e ∈ d'.mail.processed := by
  have writes : ∀ (ws : List (D.Write ⊕ Write)) (d : WithMail D.Db), e ∈ d.mail.processed →
      e ∈ ((D.withMail err).applyAll ws d).mail.processed := by
    intro ws
    induction ws with
    | nil => exact fun _ h => h
    | cons w ws ih =>
      intro d h
      refine ih _ ?_
      cases w with
      | inl w => exact h
      | inr w => exact mem_processed_apply _ w h
  exact Tx.run_preserves (I := fun d : WithMail D.Db => e ∈ d.mail.processed)
    (fun _ d _ ws _ h => writes ws d h) h he

theorem eval_insertOutbox_pure (topic : EventType) (key : UUID) (payload : Envelope) (f : Fresh)
    (d : WithMail D.Db) (saved : List (WithMail D.Db)) :
    (insertOutbox topic key payload f : Tx (D.withMail err) Unit).eval d saved =
      if (d.mail.outbox.get? f.rowId).isSome then
        .failed (err (.uniqueViolation "outbox_events_pkey"))
      else .ok ()
        { d with mail := apply (.addOutbox ⟨f.rowId, topic, key, payload, f.now, none⟩) d.mail }
        saved := by
  have h := eval_insertOutbox topic key payload f (.pure : Unit → Tx (D.withMail err) Unit) d saved
  rwa [Tx.bind_pure_right] at h

/-! ### Programs on the tables of the service alone -/

/-- A program whose statements are on the tables of the service. -/
def OwnOnly (m : Tx (D.withMail err) α) : Prop :=
  m.Uses fun q : D.Stmt ⊕ Stmt => ∃ q', q = .inl q'

/-- How such a program ends does not depend on outbox and ledger. -/
theorem OwnOnly.eval {m : Tx (D.withMail err) α} (h : OwnOnly m) (t : D.Db) :
    (∃ a t', ∀ mail saved, m.eval ⟨t, mail⟩ saved = .ok a ⟨t', mail⟩ saved) ∨
      (∃ x, ∀ mail saved, m.eval ⟨t, mail⟩ saved = .thrown x) ∨
      ∃ x, ∀ mail saved, m.eval ⟨t, mail⟩ saved = .failed x := by
  induction m generalizing t with
  | pure a => exact .inl ⟨a, t, fun _ _ => rfl⟩
  | throw x => exact .inr (.inl ⟨x, fun _ _ => rfl⟩)
  | stmt q k ih =>
    obtain ⟨⟨q, rfl⟩, hk⟩ := h
    have he : ∀ mail saved, (Tx.bind (own D q) k).eval ⟨t, mail⟩ saved = _ :=
      fun mail => eval_own q k ⟨t, mail⟩
    cases hx : D.exec q t with
    | error e =>
      refine .inr (.inr ⟨e, fun mail saved => (he mail saved).trans ?_⟩)
      simp only [hx]
    | ok p =>
      simp only [hx] at he
      have hp := ih p.1 (hk p.1) (D.applyAll p.2 t)
      simp only [← he] at hp
      exact hp
  | savepoint k _ => exact h.elim
  | release k _ => exact h.elim
  | rollbackTo k _ => exact h.elim

/-! ### The ledger -/

/-- `processed_events` as a ledger: the claim is the entry of the event id. -/
def ledger (D : Dbms) (err : SqlError → D.Err) (e : UUID) : Ledger (D.withMail err) where
  claim := .inr (.insertProcessed e)
  lock := .inr (.processed e)
  Claimed d := e ∈ d.mail.processed
  claimed_apply w d h := by
    cases w with
    | inl w => exact h
    | inr w => exact mem_processed_apply d.mail w h
  exec_claim d r ws h := by
    simp only [exec] at h
    split_ifs at h with he
    cases h
    exact ⟨he, List.mem_cons_self⟩
  needs_claim d := List.mem_singleton_self _

section Protects

variable {F O R : Type} {e : UUID} {t : F → Tx (D.withMail err) (Proc (D.withMail err) F O R)}
  {r : R} {body : F → Tx (D.withMail err) (Proc (D.withMail err) F O R)}
  {onErr : D.Err → Proc (D.withMail err) F O R}

/-- A consumer is protected when it returns once its event is in the ledger, and otherwise does
nothing at all, or commits only by entering the event into the ledger at last. -/
theorem protects (ht : ∀ f, t f = (selectProcessed e).bind fun existing =>
      if existing then .pure (.done r) else body f)
    (hbody : ∀ f, (body f).Quiet ∨ (body f).Guarded (ledger D err e).claim)
    (herr : ∀ x, ∃ r, onErr x = .done r) : (ledger D err e).Protects t onErr where
  shape f := by
    refine ⟨_, _, ht f, fun d => ⟨_, rfl, ?_⟩⟩
    -- the check finds the event in the ledger, or lets the body run
    show (if decide (e ∈ d.mail.processed) = true then .pure (.done r) else body f).Quiet ∨
      (¬ e ∈ d.mail.processed ∧
        (if decide (e ∈ d.mail.processed) = true then .pure (.done r) else body f).Guarded _)
    by_cases he : e ∈ d.mail.processed
    · exact .inl ⟨r, if_pos (decide_eq_true he)⟩
    · rw [if_neg (by simpa using he)]
      exact (hbody f).imp_right fun h => ⟨he, h⟩
  onErr := herr

/-- What the check and what follows it leave. -/
theorem after_check {P : Type} (e : UUID) (done : P) (body : Tx (D.withMail err) P)
    (d : WithMail D.Db) :
    ((selectProcessed e).bind fun existing => if existing then .pure done else body).after d =
      if e ∈ d.mail.processed then d else body.after d := by
  rw [Tx.after, Tx.run, eval_selectProcessed]
  by_cases he : e ∈ d.mail.processed
  · rw [if_pos he, if_pos (decide_eq_true he)]
    rfl
  · rw [if_neg he, if_neg (by simpa using he)]
    rfl

/-- Entering the event into the ledger and committing. -/
theorem insertProcessed_guarded {A : Type} (a : A) :
    Tx.Guarded (ledger D err e).claim ((insertProcessed e).bind fun _ => .pure a) :=
  Tx.guarded_claim fun _ => ⟨a, rfl⟩

end Protects

/-! ### Up to ids and timestamps -/

/-- The outbox without ids and timestamps, and the ledger. -/
def forget (m : Mail) : List OutboxRow × List UUID :=
  (m.outbox.rows.map OutboxRow.forget, m.processed)

theorem forget_addOutbox {m : Mail} {r : OutboxRow} (h : m.outbox.get? r.id = none) :
    (apply (.addOutbox r) m).forget = (m.forget.1 ++ [r.forget], m.processed) := by
  simp [forget, Table.rows_insert h]

theorem forget_addProcessed {m : Mail} {e : UUID} :
    (apply (.addProcessed e) m).forget = (m.forget.1, e :: m.processed) := rfl

/-! ### What the locks protect -/

/-- A lock on a key protects whether the key is taken. -/
def Same : Lock → Mail → Mail → Prop
  | .processed e, m, m' => e ∈ m.processed ↔ e ∈ m'.processed
  | .outbox id, m, m' => m.outbox.get? id = none ↔ m'.outbox.get? id = none

/-- The key that a change enters. -/
def locks : Write → List Lock
  | .addProcessed e => [.processed e]
  | .addOutbox r => [.outbox r.id]

/-- The statements that lock what they depend on. -/
def Locks : Stmt → Prop
  | .selectProcessed _ => False
  | _ => True

theorem same_refl (l : Lock) (m : Mail) : Same l m m := by cases l <;> exact Iff.rfl

theorem same_trans {l : Lock} {m₁ m₂ m₃ : Mail} (h : Same l m₁ m₂) (h' : Same l m₂ m₃) :
    Same l m₁ m₃ := by
  cases l with
  | processed e => exact Iff.trans h h'
  | outbox id => exact Iff.trans h h'

theorem same_frame {l : Lock} {w : Write} (m : Mail) (h : l ∉ locks w) : Same l m (apply w m) := by
  cases w with
  | addProcessed e =>
    cases l with
    | outbox id => exact Iff.rfl
    | processed e' =>
      have hne : e' ≠ e := by rintro rfl; exact h (List.mem_singleton_self _)
      simp [Same, hne]
  | addOutbox r =>
    cases l with
    | processed e => exact Iff.rfl
    | outbox id =>
      have hne : r.id ≠ id := by rintro rfl; exact h (List.mem_singleton_self _)
      simp [Same, Table.get?_insert_eq_none, hne]

theorem same_own {l : Lock} {m m' : Mail} (w : Write) (h : Same l m m') :
    Same l (apply w m) (apply w m') := by
  cases w with
  | addProcessed e =>
    cases l with
    | outbox id => exact h
    | processed e' =>
      have he : e' ∈ m.processed ↔ e' ∈ m'.processed := h
      simp only [Same, apply_addProcessed_processed, List.mem_cons, he]
  | addOutbox r =>
    cases l with
    | processed e => exact h
    | outbox id =>
      simp only [Same] at h
      simp [Same, Table.get?_insert_eq_none, h]

theorem exec_same {q : Stmt} {m m' : Mail} (hq : Locks q) (h : ∀ l ∈ needs q, Same l m m') :
    exec q m' = exec q m := by
  cases q with
  | selectProcessed e => exact hq.elim
  | insertProcessed e =>
    have he : e ∈ m.processed ↔ e ∈ m'.processed := h _ (List.mem_singleton_self _)
    simp only [exec, he]
  | insertOutbox r =>
    have hr : m.outbox.get? r.id = none ↔ m'.outbox.get? r.id = none :=
      h _ (List.mem_singleton_self _)
    simp only [exec, Option.isSome_iff_ne_none, ne_eq, hr]

theorem locks_needs {q : Stmt} {m : Mail} {r : q.Res} {ws : List Write}
    (h : exec q m = .ok (r, ws)) : ∀ w ∈ ws, locks w ⊆ needs q := by
  cases q with
  | selectProcessed e =>
    cases h
    intro w hw
    cases hw
  | insertProcessed e =>
    simp only [exec] at h
    split_ifs at h
    cases h
    intro w hw
    obtain rfl := List.mem_singleton.1 hw
    exact List.Subset.refl _
  | insertOutbox r =>
    simp only [exec] at h
    split_ifs at h
    cases h
    intro w hw
    obtain rfl := List.mem_singleton.1 hw
    exact List.Subset.refl _

end Mail

/-- The discipline of a service, from that of its own tables. -/
def Discipline.withMail {D : Dbms} (Z : Discipline D) (err : SqlError → D.Err) :
    Discipline (D.withMail err) where
  Same
    | .inl l, d, d' => Z.Same l d.tables d'.tables
    | .inr l, d, d' => Mail.Same l d.mail d'.mail
  locks
    | .inl w => (Z.locks w).map .inl
    | .inr w => (Mail.locks w).map .inr
  Locks
    | .inl q, d => Z.Locks q d.tables
    | .inr q, _ => Mail.Locks q
  refl l d := by
    cases l with
    | inl l => exact Z.refl l _
    | inr l => exact Mail.same_refl l _
  trans {l} _ _ _ h h' := by
    cases l with
    | inl l => exact Z.trans h h'
    | inr l => exact Mail.same_trans h h'
  frame {l w} d h := by
    cases l with
    | inl l =>
      cases w with
      | inl w => exact Z.frame _ fun hl => h (List.mem_map_of_mem hl)
      | inr w => exact Z.refl l _
    | inr l =>
      cases w with
      | inl w => exact Mail.same_refl l _
      | inr w => exact Mail.same_frame _ fun hl => h (List.mem_map_of_mem hl)
  own {l w d d'} hw h := by
    cases l with
    | inl l =>
      cases w with
      | inl w => exact Z.own (fun l' hl' => hw (.inl l') (List.mem_map_of_mem hl')) h
      | inr w => exact h
    | inr l =>
      cases w with
      | inl w => exact h
      | inr w => exact Mail.same_own w h
  stable {q d d'} hq h := by
    cases q with
    | inl q =>
      have he := Z.stable hq fun l hl => h (.inl l) (List.mem_map_of_mem hl)
      simp only [he]
    | inr q =>
      have he := Mail.exec_same hq fun l hl => h (.inr l) (List.mem_map_of_mem hl)
      simp only [he]
  writes {q d r ws} hq h := by
    cases q with
    | inl q =>
      cases hx : D.exec q d.tables with
      | error e => simp only [hx] at h; cases h
      | ok p =>
        simp only [hx] at h
        cases h
        intro w hw
        obtain ⟨w, hm, rfl⟩ := List.mem_map.1 hw
        exact List.map_subset _ (Z.writes hq hx w hm)
    | inr q =>
      cases hx : Mail.exec q d.mail with
      | error e => simp only [hx] at h; cases h
      | ok p =>
        simp only [hx] at h
        cases h
        intro w hw
        obtain ⟨w, hm, rfl⟩ := List.mem_map.1 hw
        exact List.map_subset _ (Mail.locks_needs hx w hm)

end FoodFlow
