import Mathlib.Data.List.Basic

/-!
# Transaction programs

A *database* (`Dbms`) is given by its state, its statements with their results and errors, the
elementary writes a statement makes, and the row locks and unique keys a statement has to own.  A
*transaction* (`Tx`) is a program over these statements; a *process* (`Proc`) runs transactions
one after the other and may call the outside between them.

Both are plain data, so one definition of a handler has two meanings:

* here, `Tx.run` executes a transaction in isolation, all or nothing; `FoodFlow.Sql.Node` lets
  processes share a database whose transactions are atomic in this sense;
* `FoodFlow.Sql.ReadCommitted` executes it statement by statement, interleaved with others.

A statement that is refused ends its transaction: the exception leaves every enclosing block and
the whole transaction is rolled back.  An exception thrown by the program itself is caught by an
enclosing `Tx.nested` block, which rolls back to its savepoint.
-/

namespace FoodFlow

/-- A database: its states, statements, writes, locks and errors. -/
structure Dbms where
  /-- The contents of the tables. -/
  Db : Type
  /-- The statements. -/
  Stmt : Type
  /-- What a statement returns. -/
  Res : Stmt → Type
  /-- Elementary changes of the tables. -/
  Write : Type
  /-- What a transaction can own: rows and values of unique keys. -/
  Lock : Type
  /-- Exceptions. -/
  Err : Type
  /-- Executing a statement on what the transaction sees: its result and writes. -/
  exec : (q : Stmt) → Db → Except Err (Res q × List Write)
  /-- The effect of a write. -/
  apply : Write → Db → Db
  /-- What the statement locks, and has to wait for while another transaction owns it. -/
  needs : Stmt → Db → List Lock

namespace Dbms

variable (S : Dbms)

/-- The effect of a list of writes. -/
def applyAll (ws : List S.Write) (d : S.Db) : S.Db := ws.foldl (fun d w => S.apply w d) d

@[simp] theorem applyAll_nil (d : S.Db) : S.applyAll [] d = d := rfl

@[simp] theorem applyAll_cons (w : S.Write) (ws : List S.Write) (d : S.Db) :
    S.applyAll (w :: ws) d = S.applyAll ws (S.apply w d) := rfl

theorem applyAll_append (ws ws' : List S.Write) (d : S.Db) :
    S.applyAll (ws ++ ws') d = S.applyAll ws' (S.applyAll ws d) := List.foldl_append

end Dbms

/-- A program run inside one transaction. -/
inductive Tx (S : Dbms) (α : Type) : Type
  /-- Commit and return. -/
  | pure (a : α)
  /-- Raise an exception. -/
  | throw (e : S.Err)
  /-- Execute a statement. -/
  | stmt (q : S.Stmt) (k : S.Res q → Tx S α)
  /-- `SAVEPOINT`. -/
  | savepoint (k : Tx S α)
  /-- `RELEASE SAVEPOINT`. -/
  | release (k : Tx S α)
  /-- `ROLLBACK TO SAVEPOINT`. -/
  | rollbackTo (k : Tx S α)

namespace Tx

variable {S : Dbms} {α β : Type}

/-- Sequential composition. -/
def bind : Tx S α → (α → Tx S β) → Tx S β
  | .pure a, f => f a
  | .throw e, _ => .throw e
  | .stmt q k, f => .stmt q fun r => (k r).bind f
  | .savepoint k, f => .savepoint (k.bind f)
  | .release k, f => .release (k.bind f)
  | .rollbackTo k, f => .rollbackTo (k.bind f)

instance : Monad (Tx S) where
  pure := Tx.pure
  bind := Tx.bind

/-- The program of a single statement. -/
def exec (q : S.Stmt) : Tx S (S.Res q) := .stmt q .pure

/-- `nested body ok err` : run `body` inside a savepoint.  When it returns, the savepoint is
released and `ok` runs; when it raises, what it did is rolled back and `err` runs. -/
def nested (body : Tx S α) (ok : α → Tx S β) (err : S.Err → Tx S β) : Tx S β :=
  .savepoint (inside body)
where
  /-- The program inside the savepoint. -/
  inside : Tx S α → Tx S β
    | .pure a => .release (ok a)
    | .throw e => .rollbackTo (err e)
    | .stmt q k => .stmt q fun r => inside (k r)
    | .savepoint k => .savepoint (inside k)
    | .release k => .release (inside k)
    | .rollbackTo k => .rollbackTo (inside k)

@[simp] theorem pure_def (a : α) : (Pure.pure a : Tx S α) = .pure a := rfl
@[simp] theorem bind_def (m : Tx S α) (f : α → Tx S β) : m >>= f = m.bind f := rfl
@[simp] theorem bind_pure (a : α) (f : α → Tx S β) : (Tx.pure a).bind f = f a := rfl
@[simp] theorem bind_throw (e : S.Err) (f : α → Tx S β) : (Tx.throw e).bind f = .throw e := rfl
@[simp] theorem bind_stmt (q : S.Stmt) (k : S.Res q → Tx S α) (f : α → Tx S β) :
    (Tx.stmt q k).bind f = .stmt q fun r => (k r).bind f := rfl
@[simp] theorem bind_exec (q : S.Stmt) (f : S.Res q → Tx S β) :
    (exec q).bind f = .stmt q f := rfl

theorem bind_pure_right (m : Tx S α) : m.bind .pure = m := by
  induction m <;> simp_all [bind]

/-! ### Running a transaction in isolation -/

/-- The end of an isolated run: the value returned with the tables and the open savepoints, an
exception raised by the program, or a refused statement. -/
inductive Outcome (S : Dbms) (α : Type) : Type
  | ok (a : α) (d : S.Db) (saved : List S.Db)
  | thrown (e : S.Err)
  | failed (e : S.Err)

/-- Execute a program on the tables `d` with open savepoints `saved`. -/
def eval : Tx S α → S.Db → List S.Db → Outcome S α
  | .pure a, d, saved => .ok a d saved
  | .throw e, _, _ => .thrown e
  | .stmt q k, d, saved =>
    match S.exec q d with
    | .error e => .failed e
    | .ok (r, ws) => (k r).eval (S.applyAll ws d) saved
  | .savepoint k, d, saved => k.eval d (d :: saved)
  | .release k, d, saved => k.eval d saved.tail
  | .rollbackTo k, d, saved => k.eval (saved.headD d) saved.tail

theorem eval_stmt_error {q : S.Stmt} {d : S.Db} {e : S.Err} (h : S.exec q d = .error e)
    (k : S.Res q → Tx S α) (saved : List S.Db) : (Tx.stmt q k).eval d saved = .failed e := by
  rw [eval, h]

theorem eval_stmt_ok {q : S.Stmt} {d : S.Db} {r : S.Res q} {ws : List S.Write}
    (h : S.exec q d = .ok (r, ws)) (k : S.Res q → Tx S α) (saved : List S.Db) :
    (Tx.stmt q k).eval d saved = (k r).eval (S.applyAll ws d) saved := by
  rw [eval, h]

/-- The outcome of a transaction: its value and the tables it commits, or the exception with
which it was rolled back. -/
def Outcome.toExcept : Outcome S α → Except S.Err (α × S.Db)
  | .ok a d _ => .ok (a, d)
  | .thrown e => .error e
  | .failed e => .error e

/-- Run a whole transaction in isolation. -/
def run (t : Tx S α) (d : S.Db) : Except S.Err (α × S.Db) := (t.eval d []).toExcept

theorem run_eq_ok {t : Tx S α} {d d' : S.Db} {a : α} :
    t.run d = .ok (a, d') ↔ ∃ saved, t.eval d [] = .ok a d' saved := by
  rw [run]
  cases t.eval d [] with
  | ok a₁ d₁ saved₁ => simp [Outcome.toExcept]
  | thrown e => simp [Outcome.toExcept]
  | failed e => simp [Outcome.toExcept]

theorem eval_bind (m : Tx S α) (f : α → Tx S β) (d : S.Db) (saved : List S.Db) :
    (m.bind f).eval d saved = match m.eval d saved with
      | .ok a d' saved' => (f a).eval d' saved'
      | .thrown e => .thrown e
      | .failed e => .failed e := by
  induction m generalizing d saved with
  | pure a => rfl
  | throw e => rfl
  | stmt q k ih =>
    simp only [bind, eval]
    cases S.exec q d with
    | error e => rfl
    | ok r => exact ih _ _ _
  | savepoint k ih => exact ih _ _
  | release k ih => exact ih _ _
  | rollbackTo k ih => exact ih _ _

/-- What every statement keeps, a transaction that commits has kept. -/
theorem run_preserves {I : S.Db → Prop}
    (hexec : ∀ q d r ws, S.exec q d = .ok (r, ws) → I d → I (S.applyAll ws d))
    {t : Tx S α} {d d' : S.Db} {a : α} (h : t.run d = .ok (a, d')) (hd : I d) : I d' := by
  -- so do the tables saved at the savepoints
  have eval : ∀ (d : S.Db) (saved saved' : List S.Db), t.eval d saved = .ok a d' saved' → I d →
      (∀ x ∈ saved, I x) → I d' := by
    clear h hd
    induction t with
    | pure a => rintro d saved saved' ⟨⟩ hd _; exact hd
    | throw x => rintro d saved saved' ⟨⟩
    | stmt q k ih =>
      intro d saved saved' h hd hs
      cases hx : S.exec q d with
      | error x => rw [eval_stmt_error hx] at h; cases h
      | ok v =>
        rw [eval_stmt_ok hx] at h
        exact ih _ _ _ _ h (hexec _ _ _ _ hx hd) hs
    | savepoint k ih =>
      intro d saved saved' h hd hs
      exact ih _ _ _ h hd (List.forall_mem_cons.2 ⟨hd, hs⟩)
    | release k ih =>
      intro d saved saved' h hd hs
      exact ih _ _ _ h hd fun x hx => hs x (List.mem_of_mem_tail hx)
    | rollbackTo k ih =>
      intro d saved saved' h hd hs
      refine ih _ _ _ h ?_ fun x hx => hs x (List.mem_of_mem_tail hx)
      cases saved with
      | nil => exact hd
      | cons x saved => exact hs x List.mem_cons_self
  obtain ⟨saved', h⟩ := run_eq_ok.1 h
  exact eval d [] saved' h hd (by simp)

/-- A program that opens no savepoint. -/
def Flat : Tx S α → Prop
  | .pure _ => True
  | .throw _ => True
  | .stmt _ k => ∀ r, (k r).Flat
  | .savepoint _ => False
  | .release _ => False
  | .rollbackTo _ => False

/-- A program that opens no savepoint, and all of whose statements are of the kind `φ`. -/
def Uses (φ : S.Stmt → Prop) : Tx S α → Prop
  | .pure _ => True
  | .throw _ => True
  | .stmt q k => φ q ∧ ∀ r, (k r).Uses φ
  | .savepoint _ => False
  | .release _ => False
  | .rollbackTo _ => False

variable {φ : S.Stmt → Prop}

theorem uses_exec {q : S.Stmt} (h : φ q) : (exec q).Uses φ := ⟨h, fun _ => trivial⟩

theorem Uses.bind {m : Tx S α} (hm : m.Uses φ) {f : α → Tx S β} (hf : ∀ a, (f a).Uses φ) :
    (m.bind f).Uses φ := by
  induction m with
  | pure a => exact hf a
  | throw e => trivial
  | stmt q k ih => exact ⟨hm.1, fun r => ih r (hm.2 r)⟩
  | savepoint k _ => exact hm.elim
  | release k _ => exact hm.elim
  | rollbackTo k _ => exact hm.elim

theorem Uses.flat {m : Tx S α} (hm : m.Uses φ) : m.Flat := by
  induction m with
  | pure a => trivial
  | throw e => trivial
  | stmt q k ih => exact fun r => ih r (hm.2 r)
  | savepoint k _ => exact hm.elim
  | release k _ => exact hm.elim
  | rollbackTo k _ => exact hm.elim

/-- **The meaning of a block with a savepoint**: what a raised exception leaves is the tables as
they were before the block. -/
theorem eval_nested {body : Tx S α} (hb : body.Flat) (ok : α → Tx S β) (err : S.Err → Tx S β)
    (d : S.Db) (saved : List S.Db) :
    (nested body ok err).eval d saved = match body.eval d saved with
      | .ok a d' saved' => (ok a).eval d' saved'
      | .thrown e => (err e).eval d saved
      | .failed e => .failed e := by
  have inside : ∀ (m : Tx S α), m.Flat → ∀ d', (nested.inside ok err m).eval d' (d :: saved) =
      match m.eval d' saved with
      | .ok a d'' saved' => (ok a).eval d'' saved'
      | .thrown e => (err e).eval d saved
      | .failed e => .failed e := by
    intro m
    induction m with
    | pure a => intro _ d'; rfl
    | throw e => intro _ d'; rfl
    | stmt q k ih =>
      intro hf d'
      simp only [nested.inside, eval]
      cases S.exec q d' with
      | error e => rfl
      | ok r => exact ih _ (hf _) _
    | savepoint k _ => intro hf; exact hf.elim
    | release k _ => intro hf; exact hf.elim
    | rollbackTo k _ => intro hf; exact hf.elim
  exact inside body hb d

end Tx

/-- A process: transactions one after the other.  A transaction ends by returning the process
that goes on after its commit; an exception leads to the process that handles it.  `F` is what a
transaction draws from outside when it begins (fresh identifiers, the time), `O` the calls made
between transactions, `R` what the process returns. -/
inductive Proc (S : Dbms) (F O R : Type) : Type
  /-- The process has returned. -/
  | done (r : R)
  /-- An external call. -/
  | call (o : O) (k : Proc S F O R)
  /-- Run a transaction. -/
  | txn (t : F → Tx S (Proc S F O R)) (onErr : S.Err → Proc S F O R)

end FoodFlow
