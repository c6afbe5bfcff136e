import FoodFlow.Sql.Deadlock
import FoodFlow.Shared.Mail
import Mathlib.Data.Sum.Order

/-!
# Locking outbox and ledger last

The transactions of a service lock rows and keys of its own tables, then that of their outbox row,
and at last their event in the ledger.

* `Mail.rank` : the ranks of the locks of a service, from those of the locks of its own tables;
* `Mail.ascends_own` : the statements of the service;
* `Mail.ascends_insertOutbox`, `Mail.ascends_insertProcessed` : the common statements;
* `Mail.LocksOnce` : a program whose rows and keys of the service are locked by one statement.
-/

namespace FoodFlow

namespace Mail

variable {D : Dbms} {err : SqlError → D.Err} {β : Type} [LinearOrder β] {A : Type}

/-- The keys of the outbox rank above the locks of the service, those of the ledger above them. -/
def rank (r : D.Lock → β) : (D.withMail err).Lock → β ⊕ₗ ℕ
  | .inl l => Sum.inlₗ (r l)
  | .inr (.outbox _) => Sum.inrₗ 0
  | .inr (.processed _) => Sum.inrₗ 1

variable {r : D.Lock → β} {I : D.Db → Prop} {Q : Except D.Err A → β ⊕ₗ ℕ → Prop} {b : β ⊕ₗ ℕ}
  {c : β ⊕ₗ ℕ} {held : List (D.withMail err).Lock} {saved : List (List (D.withMail err).Lock)}
  {q : D.Stmt} {e : UUID}

/-- What the writes of the common statements keep: all that is about the tables of the service. -/
theorem keeps_inr (ws : List Mail.Write) :
    (D.withMail err).Keeps (fun d => I d.tables) (ws.map .inr) := by
  intro d hd
  induction ws generalizing d with
  | nil => exact hd
  | cons w ws ih => exact ih _ hd

theorem keeps_inl {ws : List D.Write} (h : D.Keeps I ws) :
    (D.withMail err).Keeps (fun d => I d.tables) (ws.map .inl) := by
  intro d hd
  rw [applyAll_inl]
  exact h _ hd

theorem exec_inr {q : Mail.Stmt} {d : WithMail D.Db} {x : (D.withMail err).Res (.inr q)}
    {ws : List (D.withMail err).Write} (h : (D.withMail err).exec (.inr q) d = .ok (x, ws)) :
    ∃ ws' : List Mail.Write, ws = ws'.map .inr := by
  simp only at h
  split at h
  · cases h
  · cases h
    exact ⟨_, rfl⟩

theorem exec_inl {q : D.Stmt} {d : WithMail D.Db} {x : D.Res q}
    {ws : List (D.withMail err).Write} (h : (D.withMail err).exec (.inl q) d = .ok (x, ws)) :
    ∃ ws', ws = ws'.map .inl ∧ D.exec q d.tables = .ok (x, ws') := by
  simp only at h
  cases hx : D.exec q d.tables with
  | error e => rw [hx] at h; cases h
  | ok p =>
    rw [hx] at h
    cases h
    exact ⟨_, rfl, rfl⟩

/-- A statement of the service. -/
theorem ascends_own {k : D.Res q → Tx (D.withMail err) A} (hb : b ≤ c)
    (hneeds : ∀ t, ∀ l ∈ D.needs q t, .inl l ∈ held ∨ b < Sum.inlₗ (r l) ∧ Sum.inlₗ (r l) ≤ c)
    (hk : ∀ t x ws, I t → D.exec q t = .ok (x, ws) → D.Keeps I ws ∧
      (k x).Ascends (rank r) (fun d => I d.tables) Q c (held ++ (D.needs q t).map .inl) saved) :
    (Tx.bind (own D q) k).Ascends (rank r) (fun d => I d.tables) Q b held saved := by
  refine Tx.ascends_lock hb (fun d l hl => ?_) fun d x ws hd hx => ?_
  · obtain ⟨l', hl', rfl⟩ := List.mem_map.1 hl
    exact hneeds _ l' hl'
  · obtain ⟨ws', rfl, hx'⟩ := exec_inl hx
    obtain ⟨hws, hx⟩ := hk _ x ws' hd hx'
    exact ⟨keeps_inl hws, hx⟩

theorem ascends_selectProcessed {k : Bool → Tx (D.withMail err) A}
    (hk : ∀ x, (k x).Ascends (rank r) (fun d => I d.tables) Q b held saved) :
    (Tx.bind (selectProcessed e) k).Ascends (rank r) (fun d => I d.tables) Q b held saved := by
  refine Tx.ascends_free (fun _ => rfl) fun d x ws _ hx => ?_
  obtain ⟨ws', rfl⟩ := exec_inr hx
  exact ⟨keeps_inr ws', hk x⟩

theorem ascends_insertProcessed {k : Unit → Tx (D.withMail err) A} (hb : b < Sum.inrₗ 1)
    (hk : ∀ held, (k ()).Ascends (rank r) (fun d => I d.tables) Q (Sum.inrₗ 1) held saved) :
    (Tx.bind (insertProcessed e) k).Ascends (rank r) (fun d => I d.tables) Q b held saved := by
  refine Tx.ascends_lock hb.le (fun d l hl => ?_) fun d x ws _ hx => ?_
  · obtain rfl := List.mem_singleton.1 hl
    exact .inr ⟨hb, le_rfl⟩
  · obtain ⟨ws', rfl⟩ := exec_inr hx
    exact ⟨keeps_inr ws', hk _⟩

theorem ascends_insertOutbox {topic : EventType} {key : UUID} {payload : Envelope} {f : Fresh}
    {k : Unit → Tx (D.withMail err) A} (hb : b < Sum.inrₗ 0)
    (hk : ∀ held, (k ()).Ascends (rank r) (fun d => I d.tables) Q (Sum.inrₗ 0) held saved) :
    (Tx.bind (insertOutbox topic key payload f) k).Ascends (rank r) (fun d => I d.tables) Q b held
      saved := by
  refine Tx.ascends_lock hb.le (fun d l hl => ?_) fun d x ws _ hx => ?_
  · obtain rfl := List.mem_singleton.1 hl
    exact .inr ⟨hb, le_rfl⟩
  · obtain ⟨ws', rfl⟩ := exec_inr hx
    exact ⟨keeps_inr ws', hk _⟩

/-! ### Locking once -/

/-- All rows and keys that the program locks in the service, it locks with one statement, unless it
has begun above their rank already. -/
abbrev LocksOnce (D : Dbms) (err : SqlError → D.Err)
    (Q : Except (D.withMail err).Err A → ℕ ⊕ₗ ℕ → Prop) (b : ℕ ⊕ₗ ℕ)
    (held : List (D.withMail err).Lock) (saved : List (List (D.withMail err).Lock))
    (t : Tx (D.withMail err) A) : Prop :=
  t.Ascends (rank fun _ : D.Lock => 1) (fun _ => True) Q b held saved

theorem locksOnce_own {Q : Except (D.withMail err).Err A → ℕ ⊕ₗ ℕ → Prop} {b : ℕ ⊕ₗ ℕ}
    {k : D.Res q → Tx (D.withMail err) A} (hb : b ≤ Sum.inlₗ 1)
    (hneeds : ∀ t, ∀ l ∈ D.needs q t, .inl l ∈ held ∨ b < Sum.inlₗ 1)
    (hk : ∀ t x ws held', D.exec q t = .ok (x, ws) → (∀ l ∈ D.needs q t, .inl l ∈ held') →
      LocksOnce D err Q (Sum.inlₗ 1) held' saved (k x)) :
    LocksOnce D err Q b held saved (Tx.bind (own D q) k) :=
  ascends_own (I := fun _ => True) hb (fun t l hl => (hneeds t l hl).imp_right fun h => ⟨h, le_rfl⟩)
    fun t x ws _ hx => ⟨fun _ => id, hk t x ws _ hx fun _ hl =>
      List.mem_append_right _ (List.mem_map_of_mem hl)⟩

end Mail

end FoodFlow
