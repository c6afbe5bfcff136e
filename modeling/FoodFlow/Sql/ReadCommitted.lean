import FoodFlow.Sql.Node

/-!
# Processes sharing a database, statement by statement

A `World` is a database whose transactions interleave statement by statement under `READ
COMMITTED`:

* a statement sees the committed tables overlaid with the writes of its own transaction
  (`Session.view`);
* a statement waits while another transaction owns a row or a unique key it needs, and owns what
  it needed until its transaction ends, or until it rolls back to an earlier savepoint;
* a commit applies the writes of the transaction to the committed tables.

A killed process loses its open transaction: the label also stands for the victim of a deadlock.

* `Session.next_result` : a step of a transaction does not change what running its rest alone,
  from the committed tables, would give;
* `World.unchanged` : what transactions leave alone when they run alone, they leave alone together;
* `World.invariant` : the proof rule for invariants of the form "the committed tables satisfy `I`,
  every idle process satisfies `J` and every open transaction `K` with respect to them".  A commit
  has to keep `K` only for the transactions that own none of the locks of the one committing.
-/

namespace FoodFlow

/-- A transaction in progress. -/
structure Session (S : Dbms) (A : Type) where
  /-- What is left to do. -/
  prog : Tx S A
  /-- The writes made so far, not yet visible to others. -/
  writes : List S.Write
  /-- The locks owned. -/
  held : List S.Lock
  /-- Writes and locks at each open savepoint, innermost first. -/
  saves : List (List S.Write × List S.Lock)

namespace Session

variable {S : Dbms} {A : Type}

/-- A transaction that has just begun. -/
def start (t : Tx S A) : Session S A := ⟨t, [], [], []⟩

/-- What the next statement of the transaction sees when `d` is committed. -/
def view (c : Session S A) (d : S.Db) : S.Db := S.applyAll c.writes d

@[simp] theorem view_start (t : Tx S A) (d : S.Db) : (start t).view d = d := rfl

/-- What the next step of a transaction does. -/
inductive Next (S : Dbms) (A : Type) : Type
  /-- It goes on. -/
  | go (c : Session S A)
  /-- It commits, returning `a`. -/
  | commit (a : A)
  /-- It is rolled back with the exception `e`. -/
  | abort (e : S.Err)

/-- The next step of the transaction `c` when `d` is committed. -/
def next (d : S.Db) (c : Session S A) : Next S A :=
  match c.prog with
  | .pure a => .commit a
  | .throw e => .abort e
  | .stmt q k =>
    match S.exec q (c.view d) with
    | .error e => .abort e
    | .ok (r, ws) => .go ⟨k r, c.writes ++ ws, c.held ++ S.needs q (c.view d), c.saves⟩
  | .savepoint k => .go ⟨k, c.writes, c.held, (c.writes, c.held) :: c.saves⟩
  | .release k => .go ⟨k, c.writes, c.held, c.saves.tail⟩
  | .rollbackTo k =>
    let s := c.saves.headD (c.writes, c.held)
    .go ⟨k, s.1, s.2, c.saves.tail⟩

/-- The locks the next statement has to own. -/
def needs (d : S.Db) (c : Session S A) : List S.Lock :=
  match c.prog with
  | .stmt q _ => S.needs q (c.view d)
  | _ => []

/-- What the rest of the transaction gives when it runs alone from the committed tables `d`. -/
def result (d : S.Db) (c : Session S A) : Except S.Err (A × S.Db) :=
  (c.prog.eval (c.view d) (c.saves.map fun s => S.applyAll s.1 d)).toExcept

@[simp] theorem result_start (t : Tx S A) (d : S.Db) : (start t).result d = t.run d := rfl

/-- **A transaction does not disturb itself**: a step leaves the result of the rest as it was, a
commit gives it. -/
theorem next_result (d : S.Db) (c : Session S A) :
    match c.next d with
    | .go c' => c'.result d = c.result d
    | .commit a => c.result d = .ok (a, c.view d)
    | .abort e => c.result d = .error e := by
  obtain ⟨prog, writes, held, saves⟩ := c
  cases prog with
  | pure a => rfl
  | throw e => rfl
  | stmt q k =>
    simp only [next, result, Tx.eval]
    rcases hx : S.exec q (view ⟨.stmt q k, writes, held, saves⟩ d) with e | ⟨r, ws⟩
    · rfl
    · simp [view, S.applyAll_append]
  | savepoint k => simp [next, result, Tx.eval, view]
  | release k => simp [next, result, Tx.eval, view, List.map_tail]
  | rollbackTo k =>
    cases saves <;> simp [next, result, Tx.eval, view]

variable {d : S.Db} {c c' : Session S A}

theorem result_of_go (h : c.next d = .go c') : c'.result d = c.result d := by
  have := next_result d c
  rwa [h] at this

theorem result_of_commit {a : A} (h : c.next d = .commit a) :
    c.result d = .ok (a, c.view d) := by
  have := next_result d c
  rwa [h] at this

theorem result_of_abort {e : S.Err} (h : c.next d = .abort e) : c.result d = .error e := by
  have := next_result d c
  rwa [h] at this

/-- What the execution of a statement leads to. -/
theorem go_of_stmt {q : S.Stmt} {k : S.Res q → Tx S A} (hp : c.prog = .stmt q k)
    (h : c.next d = .go c') : ∃ r ws, S.exec q (c.view d) = .ok (r, ws) ∧ c'.prog = k r ∧
      c'.writes = c.writes ++ ws ∧ c'.held = c.held ++ S.needs q (c.view d) := by
  rw [next, hp] at h
  simp only at h
  split at h
  · cases h
  · rename_i r ws hx
    obtain rfl := Next.go.inj h
    exact ⟨r, ws, hx, rfl, rfl, rfl⟩

theorem commit_of_pure {a : A} (hp : c.prog = .pure a) : c.next d = .commit a := by rw [next, hp]

theorem abort_of_throw {e : S.Err} (hp : c.prog = .throw e) : c.next d = .abort e := by
  rw [next, hp]

theorem prog_of_commit {a : A} (h : c.next d = .commit a) : c.prog = .pure a := by
  rw [next] at h
  split at h
  · rename_i hp
    rw [hp, Next.commit.inj h]
  · cases h
  · split at h <;> cases h
  · cases h
  · cases h
  · cases h

theorem not_commit_of_stmt {q : S.Stmt} {k : S.Res q → Tx S A} {a : A} (hp : c.prog = .stmt q k) :
    c.next d ≠ .commit a := by
  intro h
  rw [next, hp] at h
  simp only at h
  split at h <;> cases h

/-- The locks recorded at the open savepoints are among those owned, the outer ones among the
inner ones. -/
def Nested (c : Session S A) : Prop :=
  (c.held :: c.saves.map Prod.snd).Pairwise fun a b => b ⊆ a

theorem nested_start (t : Tx S A) : (start t).Nested := by simp [Nested, start]

theorem Nested.next (hn : c.Nested) (h : c.next d = .go c') : c'.Nested := by
  obtain ⟨prog, writes, held, saves⟩ := c
  cases prog with
  | pure a => cases h
  | throw e => cases h
  | stmt q k =>
    simp only [Session.next] at h
    split at h
    · cases h
    · obtain rfl := Next.go.inj h
      simp only [Nested, List.pairwise_cons] at hn ⊢
      exact ⟨fun b hb => List.Subset.trans (hn.1 b hb) (List.subset_append_left _ _), hn.2⟩
  | savepoint k =>
    obtain rfl := Next.go.inj h
    simp only [Nested, List.map_cons, List.pairwise_cons] at hn ⊢
    exact ⟨by rintro b (_ | ⟨_, hb⟩); exacts [List.Subset.refl _, hn.1 b hb], hn⟩
  | release k =>
    obtain rfl := Next.go.inj h
    simp only [Nested, List.pairwise_cons] at hn ⊢
    rw [List.map_tail]
    exact ⟨fun b hb => hn.1 b (List.mem_of_mem_tail hb), hn.2.tail⟩
  | rollbackTo k =>
    obtain rfl := Next.go.inj h
    -- the savepoint recorded fewer locks, not others
    cases saves with
    | nil => exact hn
    | cons s saves => exact (List.pairwise_cons.1 hn).2

/-- A step that goes on owns, afterwards, only what was owned and what its statement needed. -/
theorem Nested.held_next (hn : c.Nested) (h : c.next d = .go c') :
    c'.held ⊆ c.held ++ c.needs d := by
  obtain ⟨prog, writes, held, saves⟩ := c
  cases prog with
  | pure a => cases h
  | throw e => cases h
  | stmt q k =>
    simp only [Session.next] at h
    split at h
    · cases h
    · obtain rfl := Next.go.inj h
      exact List.Subset.refl _
  | savepoint k =>
    obtain rfl := Next.go.inj h
    exact List.subset_append_left _ _
  | release k =>
    obtain rfl := Next.go.inj h
    exact List.subset_append_left _ _
  | rollbackTo k =>
    obtain rfl := Next.go.inj h
    cases saves with
    | nil => exact List.subset_append_left _ _
    | cons s saves =>
      have := (List.pairwise_cons.1 hn).1 s.2 (by simp)
      exact List.Subset.trans this (List.subset_append_left _ _)

end Session

/-- A process between two transactions, or inside one. -/
inductive Slot (S : Dbms) (F O R : Type) : Type
  | idle (p : Proc S F O R)
  | busy (c : Session S (Proc S F O R)) (onErr : S.Err → Proc S F O R)

/-- `J` of a process between transactions, `K` of one inside a transaction. -/
def Slot.Sat {S : Dbms} {F O R : Type} (J : S.Db → Proc S F O R → Prop)
    (K : S.Db → Session S (Proc S F O R) → (S.Err → Proc S F O R) → Prop) (d : S.Db) :
    Slot S F O R → Prop
  | .idle p => J d p
  | .busy c e => K d c e

/-- What a process has ended with. -/
def Slot.reply? {S : Dbms} {F O R : Type} : Option (Slot S F O R) → Option R
  | some (.idle (.done r)) => some r
  | _ => none

theorem Slot.reply?_eq_some {S : Dbms} {F O R : Type} {s : Option (Slot S F O R)} {r : R} :
    Slot.reply? s = some r ↔ s = some (.idle (.done r)) := by
  unfold Slot.reply?
  split <;> simp_all

/-- A database and the processes running on it, some of them inside a transaction. -/
structure World (S : Dbms) (F O R : Type) where
  /-- The committed tables. -/
  db : S.Db
  /-- The processes, in the order in which they started; `none` is a killed process. -/
  slots : List (Option (Slot S F O R))
  /-- The external calls made so far. -/
  calls : List O

namespace World

variable {S : Dbms} {F O R : Type}

/-- What can happen. -/
inductive Label (S : Dbms) (F O R : Type) : Type
  /-- A process starts. -/
  | start (p : Proc S F O R)
  /-- Process `i` begins its next transaction, drawing `f`. -/
  | begin (i : ℕ) (f : F)
  /-- Process `i` makes its next external call, or the next step of its transaction. -/
  | step (i : ℕ)
  /-- Process `i` is killed. -/
  | kill (i : ℕ)

/-- Which labels may occur. -/
structure Rules (S : Dbms) (F O R : Type) where
  /-- The processes that may start. -/
  start : Proc S F O R → Prop
  /-- What a transaction may draw. -/
  draw : S.Db → F → Prop := fun _ _ => True
  /-- The open transactions whose next step may be taken. -/
  next : S.Db → Session S (Proc S F O R) → Prop := fun _ _ => True
  /-- Whether processes may be killed. -/
  kill : Prop := True

/-- The world in which only `p` is started, any number of times, and nothing is killed. -/
def Rules.deliveries (Q : S.Db → F → Prop) (p : Proc S F O R) : Rules S F O R where
  start := (· = p)
  draw := Q
  kill := False

/-- The guard of a label. -/
def Rules.guard (P : Rules S F O R) (w : World S F O R) : Label S F O R → Prop
  | .start p => P.start p
  | .begin _ f => P.draw w.db f
  | .step i => ∀ c e, w.slots[i]? = some (some (.busy c e)) → P.next w.db c
  | .kill _ => P.kill

/-- The locks owned by a process. -/
def held : Option (Slot S F O R) → List S.Lock
  | some (.busy c _) => c.held
  | _ => []

variable [DecidableEq S.Lock]

/-- Whether a process other than `i` owns one of the locks `ls`. -/
def blocked (w : World S F O R) (i : ℕ) (ls : List S.Lock) : Bool :=
  (w.slots.eraseIdx i).any fun s => ls.any (· ∈ held s)

/-- Performing a label. -/
def act (w : World S F O R) : Label S F O R → Option (World S F O R)
  | .start p => some { w with slots := w.slots ++ [some (.idle p)] }
  | .begin i f =>
    match w.slots[i]? with
    | some (some (.idle (.txn t e))) =>
      some { w with slots := w.slots.set i (some (.busy (.start (t f)) e)) }
    | _ => none
  | .step i =>
    match w.slots[i]? with
    | some (some (.idle (.call o k))) =>
      some { w with slots := w.slots.set i (some (.idle k)), calls := w.calls ++ [o] }
    | some (some (.busy c e)) =>
      if w.blocked i (c.needs w.db) then none
      else match c.next w.db with
        | .go c' => some { w with slots := w.slots.set i (some (.busy c' e)) }
        | .commit p => some { w with db := c.view w.db, slots := w.slots.set i (some (.idle p)) }
        | .abort x => some { w with slots := w.slots.set i (some (.idle (e x))) }
    | _ => none
  | .kill i => if w.slots[i]?.isSome then some { w with slots := w.slots.set i none } else none

/-- The world before any process has started. -/
def idle (d : S.Db) : World S F O R := ⟨d, [], []⟩

/-- The transition system of a world whose tables satisfy `I₀` at first. -/
def lts (P : Rules S F O R) (I₀ : S.Db → Prop) : LTS (World S F O R) (Label S F O R) :=
  .ofAct (fun w => ∃ d, I₀ d ∧ w = idle d) P.guard act

omit [DecidableEq S.Lock] in
/-- `Free w i ls` : no process other than `i` owns one of the locks `ls`. -/
def Free (w : World S F O R) (i : ℕ) (ls : List S.Lock) : Prop :=
  ∀ j s, j ≠ i → w.slots[j]? = some s → ls.Disjoint (held s)

theorem free_of_blocked {w : World S F O R} {i : ℕ} {ls : List S.Lock}
    (h : w.blocked i ls = false) : w.Free i ls := by
  intro j s hj hs l hl hm
  have hmem : s ∈ w.slots.eraseIdx i := List.mem_eraseIdx_iff_getElem?.2 ⟨j, hj, hs⟩
  have := List.any_eq_false.1 h s hmem
  exact this (List.any_eq_true.2 ⟨l, hl, by simpa using hm⟩)

/-- What a step can do. -/
inductive Step (P : Rules S F O R) (w : World S F O R) :
    Label S F O R → World S F O R → Prop
  | start {p} : P.start p → Step P w (.start p) { w with slots := w.slots ++ [some (.idle p)] }
  | begin {i f t e} : P.draw w.db f → w.slots[i]? = some (some (.idle (.txn t e))) →
      Step P w (.begin i f) { w with slots := w.slots.set i (some (.busy (.start (t f)) e)) }
  | call {i o k} : w.slots[i]? = some (some (.idle (.call o k))) →
      Step P w (.step i)
        { w with slots := w.slots.set i (some (.idle k)), calls := w.calls ++ [o] }
  | go {i c c' e} : w.slots[i]? = some (some (.busy c e)) → w.Free i (c.needs w.db) →
      P.next w.db c → c.next w.db = .go c' →
      Step P w (.step i) { w with slots := w.slots.set i (some (.busy c' e)) }
  | commit {i c p e} : w.slots[i]? = some (some (.busy c e)) → c.next w.db = .commit p →
      Step P w (.step i)
        { w with db := c.view w.db, slots := w.slots.set i (some (.idle p)) }
  | abort {i c x e} : w.slots[i]? = some (some (.busy c e)) → c.next w.db = .abort x →
      Step P w (.step i) { w with slots := w.slots.set i (some (.idle (e x))) }
  | kill {i} : P.kill → Step P w (.kill i) { w with slots := w.slots.set i none }

variable {P : Rules S F O R} {I₀ : S.Db → Prop}

theorem step_cases {w w' : World S F O R} {l : Label S F O R} (h : (lts P I₀).step w l w') :
    Step P w l w' := by
  obtain ⟨hg, ha⟩ := h
  cases l with
  | start p =>
    obtain rfl := Option.some.inj ha
    exact .start hg
  | «begin» i f =>
    simp only [act] at ha
    split at ha
    · rename_i t e hi
      obtain rfl := Option.some.inj ha
      exact .begin hg hi
    · cases ha
  | step i =>
    simp only [act] at ha
    split at ha
    · rename_i o k hi
      obtain rfl := Option.some.inj ha
      exact .call hi
    · rename_i c e hi
      split_ifs at ha with hb
      have hfree := free_of_blocked (Bool.eq_false_iff.2 hb)
      split at ha <;> rename_i hn <;> obtain rfl := Option.some.inj ha
      · exact .go hi hfree (hg c e hi) hn
      · exact .commit hi hn
      · exact .abort hi hn
    · cases ha
  | kill i =>
    simp only [act] at ha
    split at ha
    · obtain rfl := Option.some.inj ha
      exact .kill hg
    · cases ha

/-- A process that has ended stays as it is, unless it is killed. -/
theorem ended_step {w w' : World S F O R} {l : Label S F O R} {i : ℕ}
    {s : Option (Slot S F O R)} (hst : (lts P I₀).step w l w') (hi : w.slots[i]? = some s)
    (hs : s = none ∨ ∃ r, s = some (.idle (.done r))) :
    w'.slots[i]? = some s ∨ w'.slots[i]? = some none := by
  -- a step of another process
  have other : ∀ {j x y}, w.slots[j]? = some (some x) → (∀ r, x ≠ .idle (.done r)) →
      (w.slots.set j y)[i]? = some s := by
    intro j x y hj hx
    rw [List.getElem?_set_ne, hi]
    rintro rfl
    obtain rfl := Option.some.inj (hi.symm.trans hj)
    rcases hs with hs | ⟨r, hs⟩
    · cases hs
    · exact hx r (Option.some.inj hs)
  cases step_cases hst with
  | start _ =>
    obtain ⟨hlt, -⟩ := List.getElem?_eq_some_iff.1 hi
    exact .inl ((List.getElem?_append_left hlt).trans hi)
  | «begin» _ hj => exact .inl (other hj fun r h => by cases h)
  | call hj => exact .inl (other hj fun r h => by cases h)
  | go hj _ _ _ => exact .inl (other hj fun r h => by cases h)
  | commit hj _ => exact .inl (other hj fun r h => by cases h)
  | abort hj _ => exact .inl (other hj fun r h => by cases h)
  | @kill j _ =>
    obtain ⟨hlt, -⟩ := List.getElem?_eq_some_iff.1 hi
    by_cases hij : j = i
    · subst hij
      exact .inr (by rw [List.getElem?_set_self hlt])
    · exact .inl ((List.getElem?_set_ne hij).trans hi)

/-- The condition `N` on the open transaction that takes a step. -/
def Stepping (N : S.Db → Session S (Proc S F O R) → Prop) (w : World S F O R)
    (l : Label S F O R) : Prop :=
  ∀ i c e, l = .step i → w.slots[i]? = some (some (.busy c e)) → N w.db c

/-- The runs whose steps meet a condition are those of a world with further rules. -/
theorem reachable_of_stepping {N : S.Db → Session S (Proc S F O R) → Prop} {w : World S F O R}
    (h : ((lts P I₀).restrict (Stepping N)).Reachable w) :
    (lts { P with next := fun d c => P.next d c ∧ N d c } I₀).Reachable w := by
  obtain ⟨w₀, ls, hi, hr⟩ := h
  refine ⟨w₀, ls, hi, hr.mono ?_⟩
  rintro w l w' ⟨hN, hg, ha⟩
  refine ⟨?_, ha⟩
  cases l with
  | start p => exact hg
  | «begin» i f => exact hg
  | step i => exact fun c e hi => ⟨hg c e hi, hN i c e rfl hi⟩
  | kill i => exact hg

/-- Checking a condition on the open transaction that takes a step. -/
def checks (check : S.Db → Session S (Proc S F O R) → Bool) (w : World S F O R) :
    Label S F O R → Bool
  | .step i =>
    match w.slots[i]? with
    | some (some (.busy c _)) => check w.db c
    | _ => true
  | _ => true

/-- A run whose steps have been checked to meet a condition. -/
theorem run_of_runAct_checks {N : S.Db → Session S (Proc S F O R) → Prop}
    {check : S.Db → Session S (Proc S F O R) → Bool} {w w' : World S F O R}
    {ls : List (Label S F O R)} (hcheck : ∀ d c, check d c → N d c)
    (hguard : ∀ w, ∀ l ∈ ls, P.guard w l)
    (h : LTS.runAct (fun w l => if checks check w l then act w l else none) w ls = some w') :
    ((lts P I₀).restrict (Stepping N)).Run w ls w' := by
  have hr : (LTS.ofAct (fun w => ∃ d, I₀ d ∧ w = idle d)
      (fun w l => Stepping N w l ∧ P.guard w l) act).Run w ls w' := by
    refine LTS.run_of_runAct_check (fun w l hl hc => ⟨?_, hguard w l hl⟩) h
    rintro i c e rfl hi
    simp only [checks, hi] at hc
    exact hcheck _ _ hc
  refine hr.mono ?_
  rintro w l w' ⟨⟨hN, hg⟩, hact⟩
  exact ⟨hN, hg, hact⟩

/-- Checking what a transaction that begins draws. -/
def checksDraw (check : S.Db → F → Bool) (w : World S F O R) : Label S F O R → Bool
  | .begin _ f => check w.db f
  | _ => true

/-- A run of deliveries whose draws have been checked. -/
theorem run_deliveries {Q : S.Db → F → Prop} {check : S.Db → F → Bool} {p : Proc S F O R}
    {d : S.Db} {w : World S F O R} {ls : List (Label S F O R)} (hcheck : ∀ d f, check d f → Q d f)
    (hstart : ∀ q, .start q ∈ ls → q = p) (hkill : ∀ i, .kill i ∉ ls)
    (h : LTS.runAct (fun w l => if checksDraw check w l then act w l else none) (idle d) ls =
      some w) : (lts (Rules.deliveries Q p) (· = d)).Run (idle d) ls w := by
  refine LTS.run_of_runAct_check ?_ h
  intro w l hl hc
  cases l with
  | start q => exact hstart q hl
  | «begin» i f => exact hcheck _ _ hc
  | step i => exact fun _ _ _ => trivial
  | kill i => exact absurd hl (hkill i)

/-! ### Locks -/

section Locks

omit [DecidableEq S.Lock]

/-- No lock has two owners. -/
def Exclusive (slots : List (Option (Slot S F O R))) : Prop :=
  ∀ (i j : ℕ) (s s' : Option (Slot S F O R)), i ≠ j → slots[i]? = some s → slots[j]? = some s' →
    (held s).Disjoint (held s')

/-- The locks recorded at the savepoints of every open transaction are among those it owns. -/
def AllNested (slots : List (Option (Slot S F O R))) : Prop :=
  ∀ c e, some (.busy c e) ∈ slots → c.Nested

variable {slots : List (Option (Slot S F O R))} {i : ℕ} {s s' : Option (Slot S F O R)}

/-- Process `i` may take any locks that no other process owns. -/
theorem Exclusive.set (h : Exclusive slots) (hi : slots[i]? = some s)
    (hs : ∀ j s₁, j ≠ i → slots[j]? = some s₁ → (held s').Disjoint (held s₁)) :
    Exclusive (slots.set i s') := by
  intro j k s₁ s₂ hjk hj hk
  rw [getElem?_set_of_some hi] at hj hk
  split_ifs at hj hk with h₁ h₂
  · omega
  · obtain rfl := Option.some.inj hj
    exact hs k s₂ (Ne.symm h₂) hk
  · obtain rfl := Option.some.inj hk
    exact fun l hl hm => hs j s₁ (Ne.symm h₁) hj hm hl
  · exact h j k s₁ s₂ hjk hj hk

/-- A process that gives up locks, or keeps them, leaves them exclusive. -/
theorem Exclusive.set_subset (h : Exclusive slots) (hi : slots[i]? = some s)
    (hs : held s' ⊆ held s) : Exclusive (slots.set i s') :=
  h.set hi fun j s₁ hj hs₁ => List.disjoint_of_subset_left hs (h i j s s₁ (Ne.symm hj) hi hs₁)

theorem Exclusive.snoc (h : Exclusive slots) (hs : held s' = []) :
    Exclusive (slots ++ [s']) := by
  intro j k s₁ s₂ hjk hj hk
  rw [getElem?_snoc] at hj hk
  split_ifs at hj hk with h₁ h₂
  · omega
  · obtain rfl := Option.some.inj hj
    rw [hs]
    exact List.disjoint_nil_left _
  · obtain rfl := Option.some.inj hk
    rw [hs]
    exact List.disjoint_nil_right _
  · exact h j k s₁ s₂ hjk hj hk

theorem AllNested.set (h : AllNested slots)
    (hs : ∀ c e, s' = some (.busy c e) → c.Nested) : AllNested (slots.set i s') := by
  intro c e hm
  rcases List.mem_or_eq_of_mem_set hm with hm | hm
  · exact h c e hm
  · exact hs c e hm.symm

end Locks

/-- Locks stay exclusive. -/
theorem exclusive_step {w w' : World S F O R} {l : Label S F O R}
    (h : Exclusive w.slots ∧ AllNested w.slots) (hst : (lts P I₀).step w l w') :
    Exclusive w'.slots ∧ AllNested w'.slots := by
  obtain ⟨hx, hn⟩ := h
  cases step_cases hst with
  | start _ =>
    refine ⟨hx.snoc rfl, fun c e hm => ?_⟩
    rcases List.mem_append.1 hm with hm | hm
    · exact hn c e hm
    · simp at hm
  | «begin» _ hi =>
    refine ⟨hx.set_subset hi (by simp [held, Session.start]), hn.set ?_⟩
    rintro c e ⟨⟩
    exact Session.nested_start _
  | call hi => exact ⟨hx.set_subset hi (by simp [held]), hn.set (by simp)⟩
  | go hi hfree _ hgo =>
    -- what the process owns afterwards, it owned before or was free to take
    have hnc := hn _ _ (List.mem_of_getElem? hi)
    refine ⟨hx.set hi fun j s hj hs => ?_, hn.set ?_⟩
    · refine List.disjoint_of_subset_left (hnc.held_next hgo) (List.disjoint_append_left.2 ⟨?_, ?_⟩)
      · exact hx _ _ _ _ (Ne.symm hj) hi hs
      · exact hfree j s hj hs
    · rintro c e ⟨⟩
      exact hnc.next hgo
  | commit hi _ => exact ⟨hx.set_subset hi (by simp [held]), hn.set (by simp)⟩
  | abort hi _ => exact ⟨hx.set_subset hi (by simp [held]), hn.set (by simp)⟩
  | kill _ =>
    refine ⟨fun i j s s' hij hs hs' => ?_, hn.set (by simp)⟩
    rw [List.getElem?_set] at hs hs'
    split_ifs at hs hs' with h₁ h₂ h₃ h₄ <;> first | omega | skip
    · obtain rfl := Option.some.inj hs
      exact List.disjoint_nil_left _
    · obtain rfl := Option.some.inj hs'
      exact List.disjoint_nil_right _
    · exact hx i j s s' hij hs hs'

theorem exclusive {w : World S F O R} (h : (lts P I₀).Reachable w) :
    Exclusive w.slots ∧ AllNested w.slots :=
  h.invariant (I := fun w => Exclusive w.slots ∧ AllNested w.slots)
    (by
      rintro _ ⟨d, _, rfl⟩
      exact ⟨fun i j s s' _ hs _ => by simp [idle] at hs, fun c e hm => by simp [idle] at hm⟩)
    fun _ _ _ h hst => exclusive_step h hst

/-! ### The proof rule -/

/-- The proof rule for invariants of a world: `I` speaks of the committed tables, `J` of an idle
process and `K` of an open transaction.  A commit has to keep `I`, establish `J` for the process
that committed, and keep `J` and `K` for the others, of whose open transactions it is known that
they own none of its locks. -/
theorem invariant (I : S.Db → Prop) (J : S.Db → Proc S F O R → Prop)
    (K : S.Db → Session S (Proc S F O R) → (S.Err → Proc S F O R) → Prop)
    (hinit : ∀ d, I₀ d → I d)
    (hstart : ∀ d p, I d → P.start p → J d p)
    (hbegin : ∀ d f t e, I d → P.draw d f → J d (.txn t e) → K d (.start (t f)) e)
    (hcall : ∀ d o k, I d → J d (.call o k) → J d k)
    (hgo : ∀ d c c' e, I d → K d c e → P.next d c → c.next d = .go c' → K d c' e)
    (hcommit : ∀ d c e p, I d → K d c e → c.next d = .commit p →
      I (c.view d) ∧ J (c.view d) p ∧ (∀ p', J d p' → J (c.view d) p') ∧
        ∀ c' e', c.held.Disjoint c'.held → K d c' e' → K (c.view d) c' e')
    (habort : ∀ d c e x, I d → K d c e → c.next d = .abort x → J d (e x))
    {w : World S F O R} (h : (lts P I₀).Reachable w) :
    I w.db ∧ ∀ s, some s ∈ w.slots → s.Sat J K w.db := by
  have hmain : (Exclusive w.slots ∧ AllNested w.slots) ∧
      I w.db ∧ ∀ s, some s ∈ w.slots → s.Sat J K w.db := by
    refine h.invariant (I := fun w => (Exclusive w.slots ∧ AllNested w.slots) ∧
      I w.db ∧ ∀ s, some s ∈ w.slots → s.Sat J K w.db) ?_ ?_
    · rintro _ ⟨d, hd, rfl⟩
      exact ⟨exclusive (P := P) (.init ⟨d, hd, rfl⟩), hinit d hd, fun s hs => by cases hs⟩
    · rintro w l w' ⟨hx, hI, hS⟩ hst
      refine ⟨exclusive_step hx hst, ?_⟩
      -- the other slots of a step that leaves the tables as they are
      have others : ∀ (i : ℕ) (s' : Option (Slot S F O R)),
          (∀ s, s' = some s → s.Sat J K w.db) →
          ∀ s, some s ∈ w.slots.set i s' → s.Sat J K w.db := by
        intro i s' hs' s hs
        rcases List.mem_or_eq_of_mem_set hs with hs | hs
        · exact hS s hs
        · exact hs' s hs.symm
      cases step_cases hst with
      | start hp =>
        refine ⟨hI, fun s hs => ?_⟩
        rcases List.mem_append.1 hs with hs | hs
        · exact hS s hs
        · obtain rfl := Option.some.inj (List.mem_singleton.1 hs)
          exact hstart _ _ hI hp
      | «begin» hd hi =>
        refine ⟨hI, others _ _ ?_⟩
        rintro s ⟨⟩
        exact hbegin _ _ _ _ hI hd (hS _ (List.mem_of_getElem? hi))
      | call hi =>
        refine ⟨hI, others _ _ ?_⟩
        rintro s ⟨⟩
        exact hcall _ _ _ hI (hS _ (List.mem_of_getElem? hi))
      | go hi _ hnext hn =>
        refine ⟨hI, others _ _ ?_⟩
        rintro s ⟨⟩
        exact hgo _ _ _ _ hI (hS _ (List.mem_of_getElem? hi)) hnext hn
      | @commit i c p e hi hn =>
        -- the tables change for everybody, under locks that nobody else owns
        obtain ⟨hI', hp, hJ, hK⟩ := hcommit _ _ _ _ hI (hS _ (List.mem_of_getElem? hi)) hn
        refine ⟨hI', fun s hs => ?_⟩
        obtain ⟨j, hj⟩ := List.mem_iff_getElem?.1 hs
        rw [getElem?_set_of_some hi] at hj
        split_ifs at hj with hij
        · obtain rfl := Option.some.inj (Option.some.inj hj)
          exact hp
        · have hsat := hS s (List.mem_of_getElem? hj)
          cases s with
          | idle p' => exact hJ p' hsat
          | busy c' e' => exact hK c' e' (hx.1 i j _ _ hij hi hj) hsat
      | abort hi hn =>
        refine ⟨hI, others _ _ ?_⟩
        rintro s ⟨⟩
        exact habort _ _ _ _ hI (hS _ (List.mem_of_getElem? hi)) hn
      | kill _ => exact ⟨hI, others _ _ (by simp)⟩
  exact hmain.2

/-- Transactions that leave the tables `d₀` alone when they run alone leave them alone in any
interleaving. -/
theorem unchanged {d₀ : S.Db} (hproc : ∀ p, P.start p → ∃ t e, p = .txn t e ∧
      (∀ f p' d', (t f).run d₀ = .ok (p', d') → d' = d₀ ∧ ∃ r, p' = .done r) ∧
      ∀ x, ∃ r, e x = .done r)
    {w : World S F O R} (h : (lts P (· = d₀)).Reachable w) : w.db = d₀ := by
  refine (invariant (· = d₀) (fun _ p => P.start p ∨ ∃ r, p = .done r)
    (fun _ c e => ∃ t f, P.start (.txn t e) ∧ c.result d₀ = (t f).run d₀)
    (fun _ hd => hd) (fun _ _ _ hp => .inl hp) ?_ ?_ ?_ ?_ ?_ h).1
  · rintro d f t e - - (hp | ⟨r, hp⟩)
    · exact ⟨t, f, hp, rfl⟩
    · cases hp
  · rintro d o k - (hp | ⟨r, hp⟩)
    · obtain ⟨t, e, he, -⟩ := hproc _ hp
      cases he
    · cases hp
  · rintro d c c' e rfl ⟨t, f, hp, hr⟩ - hn
    exact ⟨t, f, hp, (Session.result_of_go hn).trans hr⟩
  · rintro d c e p rfl ⟨t, f, hp, hr⟩ hn
    obtain ⟨t', e', he, hrun, -⟩ := hproc _ hp
    obtain ⟨rfl, rfl⟩ := Proc.txn.inj he
    obtain ⟨hview, hdone⟩ := hrun f p _ (hr.symm.trans (Session.result_of_commit hn))
    exact ⟨hview, .inr hdone, fun _ h => h, fun _ _ _ h => h⟩
  · rintro d c e x rfl ⟨t, f, hp, hr⟩ hn
    obtain ⟨t', e', he, -, herr⟩ := hproc _ hp
    obtain ⟨rfl, rfl⟩ := Proc.txn.inj he
    exact .inr (herr x)

end World

end FoodFlow
