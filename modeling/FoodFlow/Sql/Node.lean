import FoodFlow.LTS.Basic
import FoodFlow.Sql.Tx
import Mathlib.Algebra.GroupWithZero.Nat

/-!
# Processes sharing a database, transaction by transaction

A `Node` is a database with the processes running on it.  In one step a process runs one whole
transaction in isolation, or makes one external call; between two steps of a process any number
of steps of the others may take place, and a process may be killed at any point.  Processes are
never removed from the list: a process that has returned stays as `Proc.done`, a killed one as
`none`.

* `Node.lts` : the transition system, under `Rules` saying which processes may start, what a
  transaction may draw, and which other changes of the database may happen;
* `Node.invariant` : the proof rule for invariants of the form "the database satisfies `I`, and
  every process satisfies `J` with respect to it";
* `Proc.Finishes` : a process running alone;
* `Owed` : what the processes of a list owe together.
-/

namespace FoodFlow

/-! ### Slots of a list -/

section Slots

variable {σ : Type} {l : List σ} {i : ℕ} {x y : σ}

theorem getElem?_set_of_some (h : l[i]? = some x) (j : ℕ) :
    (l.set i y)[j]? = if i = j then some y else l[j]? := by
  have hi : i < l.length := (List.getElem?_eq_some_iff.1 h).1
  rw [List.getElem?_set]
  simp [hi]

theorem getElem?_snoc (j : ℕ) : (l ++ [x])[j]? = if j = l.length then some x else l[j]? := by
  rcases Nat.lt_trichotomy j l.length with h | h | h
  · rw [List.getElem?_append_left h, if_neg (by omega)]
  · subst h; simp
  · have h' : (l ++ [x]).length ≤ j := by rw [List.length_append, List.length_singleton]; omega
    rw [List.getElem?_eq_none h', if_neg (by omega), List.getElem?_eq_none (by omega)]

/-- Counting, when an element is replaced. -/
theorem countP_set_add (φ : σ → Bool) (h : l[i]? = some x) :
    (l.set i y).countP φ + (if φ x then 1 else 0) = l.countP φ + if φ y then 1 else 0 := by
  obtain ⟨hi, rfl⟩ := List.getElem?_eq_some_iff.1 h
  rw [List.countP_set hi]
  have hpos : (if φ l[i] then 1 else 0) ≤ l.countP φ := by
    split_ifs with hx
    · exact List.countP_pos_iff.2 ⟨_, List.getElem_mem hi, hx⟩
    · exact Nat.zero_le _
  omega

/-- Counting, when an element that does not count is replaced. -/
theorem countP_set_of_some {φ : σ → Bool} (h : l[i]? = some x) (hx : φ x = false) :
    (l.set i y).countP φ = l.countP φ + if φ y then 1 else 0 := by
  simpa [hx] using countP_set_add φ h

/-- A sum over a list, when an element is replaced. -/
theorem sum_map_set_add (g : σ → ℕ) (h : l[i]? = some x) :
    ((l.set i y).map g).sum + g x = (l.map g).sum + g y := by
  induction l generalizing i with
  | nil => cases h
  | cons z l ih =>
    cases i with
    | zero =>
      obtain rfl : z = x := by simpa using h
      simp only [List.set_cons_zero, List.map_cons, List.sum_cons]
      omega
    | succ i =>
      have hrest := ih (i := i) (by simpa using h)
      simp only [List.set_cons_succ, List.map_cons, List.sum_cons]
      omega

/-- `Owed R l n` : the elements of `l` owe `n` in all, where `R k x` says that `x` owes `k`. -/
inductive Owed (R : ℕ → σ → Prop) : List σ → ℕ → Prop
  | nil : Owed R [] 0
  | cons {k n : ℕ} {x : σ} {l : List σ} : R k x → Owed R l n → Owed R (x :: l) (n + k)

namespace Owed

variable {R : ℕ → σ → Prop} {k n : ℕ}

theorem snoc (h : Owed R l n) (hx : R k x) : Owed R (l ++ [x]) (n + k) := by
  induction h with
  | nil => exact .cons hx .nil
  | @cons k' n y l hy _ ih =>
    rw [Nat.add_right_comm]
    exact .cons hy ih

theorem mono {R' : ℕ → σ → Prop} (hR : ∀ k x, R k x → R' k x) (h : Owed R l n) : Owed R' l n := by
  induction h with
  | nil => exact .nil
  | cons hx _ ih => exact .cons (hR _ _ hx) ih

/-- What one element owes, and what the others do, also when `R` gives way to a weaker `R'`. -/
theorem get_mono (h : Owed R l n) (hi : l[i]? = some x) :
    ∃ k m, R k x ∧ n = m + k ∧ ∀ R' : ℕ → σ → Prop, (∀ k x, R k x → R' k x) →
      ∀ k' y, R' k' y → Owed R' (l.set i y) (m + k') := by
  induction h generalizing i with
  | nil => cases hi
  | @cons k n z l hz h ih =>
    cases i with
    | zero =>
      obtain rfl := Option.some.inj hi
      exact ⟨k, n, hz, rfl, fun R' hR k' y hy => .cons hy (h.mono hR)⟩
    | succ i =>
      obtain ⟨k₁, m, hx, rfl, hset⟩ := ih hi
      refine ⟨k₁, m + k, hx, by omega, fun R' hR k' y hy => ?_⟩
      rw [Nat.add_right_comm]
      exact .cons (hR _ _ hz) (hset R' hR k' y hy)

/-- What one element owes, and what the others do. -/
theorem get (h : Owed R l n) (hi : l[i]? = some x) :
    ∃ k m, R k x ∧ n = m + k ∧ ∀ k' y, R k' y → Owed R (l.set i y) (m + k') := by
  obtain ⟨k, m, hx, hn, hset⟩ := h.get_mono hi
  exact ⟨k, m, hx, hn, hset R fun _ _ h => h⟩

/-- Replacing an element by one that owes nothing. -/
theorem forgive (h : Owed R l n) (hy : R 0 y) (i : ℕ) : ∃ n' ≤ n, Owed R (l.set i y) n' := by
  cases hi : l[i]? with
  | none =>
    rw [List.set_eq_of_length_le (List.getElem?_eq_none_iff.1 hi)]
    exact ⟨n, Nat.le_refl _, h⟩
  | some x =>
    obtain ⟨k, m, -, rfl, hset⟩ := h.get hi
    exact ⟨m, Nat.le_add_right _ _, hset 0 y hy⟩

end Owed

end Slots

/-- A database and the processes running on it. -/
structure Node (S : Dbms) (F O R : Type) where
  /-- The committed tables. -/
  db : S.Db
  /-- The processes, in the order in which they started; `none` is a killed process. -/
  procs : List (Option (Proc S F O R))
  /-- The external calls made so far. -/
  calls : List O

/-- The process has returned. -/
def Proc.returned {S : Dbms} {F O R : Type} : Option (Proc S F O R) → Bool
  | some (.done _) => true
  | _ => false

theorem Proc.eq_of_returned {S : Dbms} {F O R : Type} {p : Option (Proc S F O R)}
    (h : Proc.returned p = true) : ∃ r, p = some (.done r) := by
  unfold Proc.returned at h
  split at h
  · exact ⟨_, rfl⟩
  · cases h

namespace Node

variable {S : Dbms} {F O R : Type}

/-- What can happen at a node. -/
inductive Label (S : Dbms) (F O R : Type) : Type
  /-- A process starts. -/
  | start (p : Proc S F O R)
  /-- Process `i` runs its next transaction, drawing `f`, or makes its next call. -/
  | run (i : ℕ) (f : F)
  /-- Process `i` is killed. -/
  | kill (i : ℕ)
  /-- The tables are changed from outside. -/
  | env (g : S.Db → S.Db)

/-- Which labels may occur. -/
structure Rules (S : Dbms) (F O R : Type) where
  /-- The processes that may start. -/
  start : Proc S F O R → Prop
  /-- What a transaction may draw. -/
  draw : S.Db → F → Prop := fun _ _ => True
  /-- The changes from outside. -/
  env : (S.Db → S.Db) → Prop := fun _ => False

/-- The guard of a label. -/
def Rules.guard (P : Rules S F O R) (n : Node S F O R) : Label S F O R → Prop
  | .start p => P.start p
  | .run _ f => P.draw n.db f
  | .kill _ => True
  | .env g => P.env g

/-- Performing a label. -/
def act (n : Node S F O R) : Label S F O R → Option (Node S F O R)
  | .start p => some { n with procs := n.procs ++ [some p] }
  | .run i f =>
    match n.procs[i]? with
    | some (some (.call o k)) =>
      some { n with procs := n.procs.set i (some k), calls := n.calls ++ [o] }
    | some (some (.txn t e)) =>
      match (t f).run n.db with
      | .ok (p, d) => some { n with db := d, procs := n.procs.set i (some p) }
      | .error x => some { n with procs := n.procs.set i (some (e x)) }
    | _ => none
  | .kill i => if n.procs[i]?.isSome then some { n with procs := n.procs.set i none } else none
  | .env g => some { n with db := g n.db }

/-- The node before any process has started. -/
def idle (d : S.Db) : Node S F O R := ⟨d, [], []⟩

/-- What the processes have returned. -/
def replies (n : Node S F O R) : List R := n.procs.filterMap fun
  | some (.done r) => some r
  | _ => none

theorem mem_replies {n : Node S F O R} {r : R} : r ∈ n.replies ↔ some (.done r) ∈ n.procs := by
  rw [replies, List.mem_filterMap]
  constructor
  · rintro ⟨p, hp, hr⟩
    split at hr
    · obtain rfl := Option.some.inj hr
      exact hp
    · cases hr
  · exact fun h => ⟨_, h, rfl⟩

/-- The transition system of a node whose tables satisfy `I₀` at first. -/
def lts (P : Rules S F O R) (I₀ : S.Db → Prop) : LTS (Node S F O R) (Label S F O R) :=
  .ofAct (fun n => ∃ d, I₀ d ∧ n = idle d) P.guard act

/-- What a step can do. -/
inductive Step (P : Rules S F O R) (n : Node S F O R) :
    Label S F O R → Node S F O R → Prop
  | start {p} : P.start p → Step P n (.start p) { n with procs := n.procs ++ [some p] }
  | call {i f o k} : n.procs[i]? = some (some (.call o k)) →
      Step P n (.run i f) { n with procs := n.procs.set i (some k), calls := n.calls ++ [o] }
  | commit {i f t e p d} : P.draw n.db f → n.procs[i]? = some (some (.txn t e)) →
      (t f).run n.db = .ok (p, d) →
      Step P n (.run i f) { n with db := d, procs := n.procs.set i (some p) }
  | abort {i f t e x} : P.draw n.db f → n.procs[i]? = some (some (.txn t e)) →
      (t f).run n.db = .error x →
      Step P n (.run i f) { n with procs := n.procs.set i (some (e x)) }
  | kill {i} : Step P n (.kill i) { n with procs := n.procs.set i none }
  | env {g} : P.env g → Step P n (.env g) { n with db := g n.db }

variable {P : Rules S F O R} {I₀ : S.Db → Prop}

theorem step_cases {n n' : Node S F O R} {l : Label S F O R} (h : (lts P I₀).step n l n') :
    Step P n l n' := by
  obtain ⟨hg, ha⟩ := h
  cases l with
  | start p =>
    obtain rfl := Option.some.inj ha
    exact .start hg
  | run i f =>
    simp only [act] at ha
    split at ha
    · rename_i o k hi
      obtain rfl := Option.some.inj ha
      exact .call hi
    · rename_i t e hi
      split at ha <;> rename_i hr <;> obtain rfl := Option.some.inj ha
      · exact .commit hg hi hr
      · exact .abort hg hi hr
    · cases ha
  | kill i =>
    simp only [act] at ha
    split at ha
    · obtain rfl := Option.some.inj ha
      exact .kill
    · cases ha
  | env g =>
    obtain rfl := Option.some.inj ha
    exact .env hg

theorem mem_set {l : List (Option (Proc S F O R))} {i : ℕ} {q : Option (Proc S F O R)}
    {p : Proc S F O R} (h : some p ∈ l.set i q) : some p ∈ l ∨ q = some p :=
  (List.mem_or_eq_of_mem_set h).imp_right Eq.symm

/-- The proof rule for one step: `C` is what a commit leaves, `J` is known of every process. -/
theorem step_rule {n n' : Node S F O R} {l : Label S F O R} (C : S.Db → Prop)
    (J : S.Db → Proc S F O R → Prop) (hidle : C n.db)
    (hstart : ∀ p, P.start p → J n.db p)
    (hcall : ∀ o k, J n.db (.call o k) → J n.db k)
    (hcommit : ∀ f t e p d', P.draw n.db f → J n.db (.txn t e) → (t f).run n.db = .ok (p, d') →
      C d' ∧ J d' p ∧ ∀ p', J n.db p' → J d' p')
    (habort : ∀ f t e x, P.draw n.db f → J n.db (.txn t e) → (t f).run n.db = .error x →
      J n.db (e x))
    (henv : ∀ g, P.env g → C (g n.db) ∧ ∀ p, J n.db p → J (g n.db) p)
    (hJ : ∀ p, some p ∈ n.procs → J n.db p) (hst : (lts P I₀).step n l n') :
    C n'.db ∧ ∀ p, some p ∈ n'.procs → J n'.db p := by
  cases step_cases hst with
  | start hs =>
    refine ⟨hidle, fun p hp => ?_⟩
    rcases List.mem_append.1 hp with hp | hp
    · exact hJ p hp
    · obtain rfl := Option.some.inj (List.mem_singleton.1 hp)
      exact hstart _ hs
  | call hi =>
    refine ⟨hidle, fun p hp => ?_⟩
    rcases mem_set hp with hp | hp
    · exact hJ p hp
    · obtain rfl := Option.some.inj hp
      exact hcall _ _ (hJ _ (List.mem_of_getElem? hi))
  | commit hd hi hr =>
    obtain ⟨hC, hp', hkeep⟩ := hcommit _ _ _ _ _ hd (hJ _ (List.mem_of_getElem? hi)) hr
    refine ⟨hC, fun p hp => ?_⟩
    rcases mem_set hp with hp | hp
    · exact hkeep p (hJ p hp)
    · obtain rfl := Option.some.inj hp
      exact hp'
  | abort hd hi hr =>
    refine ⟨hidle, fun p hp => ?_⟩
    rcases mem_set hp with hp | hp
    · exact hJ p hp
    · obtain rfl := Option.some.inj hp
      exact habort _ _ _ _ hd (hJ _ (List.mem_of_getElem? hi)) hr
  | kill =>
    refine ⟨hidle, fun p hp => ?_⟩
    rcases mem_set hp with hp | hp
    · exact hJ p hp
    · cases hp
  | env hg =>
    obtain ⟨hC, hkeep⟩ := henv _ hg
    exact ⟨hC, fun p hp => hkeep p (hJ p hp)⟩

/-- The proof rule for invariants of a node: `I` speaks of the tables, `J` of one process and the
tables.  A commit has to keep `I`, establish `J` for the process that committed and keep it for
all others. -/
theorem invariant (I : S.Db → Prop) (J : S.Db → Proc S F O R → Prop)
    (hinit : ∀ d, I₀ d → I d)
    (hstart : ∀ d p, I d → P.start p → J d p)
    (hcall : ∀ d o k, I d → J d (.call o k) → J d k)
    (hcommit : ∀ d f t e p d', I d → P.draw d f → J d (.txn t e) → (t f).run d = .ok (p, d') →
      I d' ∧ J d' p ∧ ∀ p', J d p' → J d' p')
    (habort : ∀ d f t e x, I d → P.draw d f → J d (.txn t e) → (t f).run d = .error x →
      J d (e x))
    (henv : ∀ d g, I d → P.env g → I (g d) ∧ ∀ p, J d p → J (g d) p)
    {n : Node S F O R} (h : (lts P I₀).Reachable n) :
    I n.db ∧ ∀ p, some p ∈ n.procs → J n.db p := by
  refine h.invariant (I := fun n => I n.db ∧ ∀ p, some p ∈ n.procs → J n.db p) ?_ ?_
  · rintro _ ⟨d, hd, rfl⟩
    exact ⟨hinit d hd, fun p hp => by cases hp⟩
  · rintro n l n' ⟨hI, hJ⟩ hst
    exact step_rule I J hI (fun p => hstart _ p hI) (fun o k => hcall _ o k hI)
      (fun f t e p d' => hcommit _ f t e p d' hI) (fun f t e x => habort _ f t e x hI)
      (fun g => henv _ g hI) hJ hst

/-- The rules under which only processes started by the labels `ls` start. -/
def Rules.started (P : Rules S F O R) (ls : List (Label S F O R)) : Rules S F O R :=
  { P with start := fun p => P.start p ∧ .start p ∈ ls }

/-- A run keeps to the processes that its labels start. -/
theorem run_started {n n' : Node S F O R} {ls : List (Label S F O R)}
    (h : (lts P I₀).Run n ls n') : (lts (P.started ls) I₀).Run n ls n' := by
  have sub : ∀ {ls'}, (∀ l ∈ ls, l ∈ ls') → (lts (P.started ls') I₀).Run n ls n' := by
    intro ls'
    induction h with
    | refl => exact fun _ => .refl
    | @snoc ls n₁ n₂ l _ hst ih =>
      intro hsub
      refine (ih fun l hl => hsub l (List.mem_append_left _ hl)).snoc ⟨?_, hst.2⟩
      have hl := hsub l (List.mem_append_right _ (List.mem_singleton_self _))
      have hg : P.guard n₁ l := hst.1
      cases l with
      | start p => exact ⟨hg, hl⟩
      | run i f => exact hg
      | kill i => exact hg
      | env g => exact hg
  exact sub fun l hl => hl

end Node

/-! ### A process running alone -/

/-- `Finishes Q d p d' r os` : running alone from the tables `d`, with draws allowed by `Q`, the
process `p` returns `r`, leaves the tables `d'` and makes the calls `os`. -/
inductive Proc.Finishes {S : Dbms} {F O R : Type} (Q : S.Db → F → Prop) :
    S.Db → Proc S F O R → S.Db → R → List O → Prop
  | done {d r} : Finishes Q d (.done r) d r []
  | call {d o k d' r os} : Finishes Q d k d' r os → Finishes Q d (.call o k) d' r (o :: os)
  | commit {d f t e p d₁ d' r os} : Q d f → (t f).run d = .ok (p, d₁) →
      Finishes Q d₁ p d' r os → Finishes Q d (.txn t e) d' r os
  | abort {d f t e x d' r os} : Q d f → (t f).run d = .error x →
      Finishes Q d (e x) d' r os → Finishes Q d (.txn t e) d' r os

namespace Proc.Finishes

variable {S : Dbms} {F O R : Type} {Q : S.Db → F → Prop} {d d' : S.Db} {r : R} {os : List O}

theorem of_done {r₀ : R} (h : Finishes (F := F) (O := O) Q d (.done r₀) d' r os) :
    d' = d ∧ r = r₀ ∧ os = [] := by
  cases h
  exact ⟨rfl, rfl, rfl⟩

theorem of_call {o : O} {k : Proc S F O R} (h : Finishes Q d (.call o k) d' r os) :
    ∃ os', os = o :: os' ∧ Finishes Q d k d' r os' := by
  cases h with
  | call h => exact ⟨_, rfl, h⟩

theorem of_txn {t : F → Tx S (Proc S F O R)} {e : S.Err → Proc S F O R}
    (h : Finishes Q d (.txn t e) d' r os) : ∃ f, Q d f ∧
      ((∃ p d₁, (t f).run d = .ok (p, d₁) ∧ Finishes Q d₁ p d' r os) ∨
        ∃ x, (t f).run d = .error x ∧ Finishes Q d (e x) d' r os) := by
  cases h with
  | commit hf hrun h => exact ⟨_, hf, .inl ⟨_, _, hrun, h⟩⟩
  | abort hf hrun h => exact ⟨_, hf, .inr ⟨_, hrun, h⟩⟩

end Proc.Finishes

end FoodFlow
