import FoodFlow.Sql.Savepoint

/-!
# Transactions that lock what they depend on

Under `READ COMMITTED` a transaction is in general not atomic.  It is when every statement owns,
until the commit, all that its execution depends on: what it did then is what it would do if all
of it ran at the moment of the commit.

* `Discipline` : what the locks of a database protect, and which executions of statements depend
  on nothing else;
* `Tx.Locking` : a program all of whose statements are executed in this way;
* `Session.Follows` : a transaction in progress that has executed a part of such a program;
* `World.Serial` : the proof rule for worlds whose transactions are such programs, at most after
  one read without locks.  A commit then executes a whole program on the committed tables, as a
  step of a `Node` does (`World.Serial.commits`), so an invariant is proved by looking at the
  programs in isolation (`World.Serial.invariant`).
-/

namespace FoodFlow

/-- What the locks of a database protect. -/
structure Discipline (S : Dbms) where
  /-- What the lock protects is the same in both tables. -/
  Same : S.Lock → S.Db → S.Db → Prop
  /-- The locks under which a write is made. -/
  locks : S.Write → List S.Lock
  /-- The execution of the statement depends only on what the statement locks. -/
  Locks : S.Stmt → S.Db → Prop
  refl : ∀ l d, Same l d d
  trans : ∀ {l d₁ d₂ d₃}, Same l d₁ d₂ → Same l d₂ d₃ → Same l d₁ d₃
  frame : ∀ {l w} d, l ∉ locks w → Same l d (S.apply w d)
  own : ∀ {l w d d'}, (∀ l' ∈ locks w, Same l' d d') → Same l d d' →
    Same l (S.apply w d) (S.apply w d')
  stable : ∀ {q d d'}, Locks q d → (∀ l ∈ S.needs q d, Same l d d') → S.exec q d' = S.exec q d
  writes : ∀ {q d r ws}, Locks q d → S.exec q d = .ok (r, ws) → ∀ w ∈ ws, locks w ⊆ S.needs q d

namespace Discipline

variable {S : Dbms} (Z : Discipline S)

/-- What the locks `ls` protect is the same in both tables. -/
def Agree (ls : List S.Lock) (d d' : S.Db) : Prop := ∀ l ∈ ls, Z.Same l d d'

variable {Z} {ls ls' : List S.Lock} {d d₁ d₂ : S.Db} {ws : List S.Write}

theorem Agree.refl : Z.Agree ls d d := fun l _ => Z.refl l d

theorem Agree.trans (h : Z.Agree ls d d₁) (h' : Z.Agree ls d₁ d₂) : Z.Agree ls d d₂ :=
  fun l hl => Z.trans (h l hl) (h' l hl)

theorem Agree.mono (h : Z.Agree ls d d₁) (hls : ls' ⊆ ls) : Z.Agree ls' d d₁ :=
  fun l hl => h l (hls hl)

variable (Z) in
/-- A transaction that relies on its locks alone. -/
def reliance : Reliance S where
  Agree := Z.Agree
  Own ls w := Z.locks w ⊆ ls
  refl _ _ := .refl
  trans := .trans
  mono hls h := h.mono hls
  own_mono hls hw := List.Subset.trans hw hls
  apply hw h l hl := Z.own (fun l' hl' => h l' (hw hl')) (h l hl)

/-- The writes of another transaction do not touch what `ls` protects. -/
theorem agree_applyAll (h : ∀ w ∈ ws, ls.Disjoint (Z.locks w)) :
    Z.Agree ls d (S.applyAll ws d) :=
  Reliance.agree_applyAll (Z := Z.reliance) fun w hw d _ hl => Z.frame d (h w hw hl)

/-- Writes made under `ls` keep the agreement on `ls`. -/
theorem Agree.applyAll (h : Z.Agree ls d d₁) (hw : ∀ w ∈ ws, Z.locks w ⊆ ls) :
    Z.Agree ls (S.applyAll ws d) (S.applyAll ws d₁) :=
  Reliance.applyAll (Z := Z.reliance) hw h

end Discipline

variable {S : Dbms} {F O R : Type}

/-- Executed on the tables `d`, the program opens no savepoint and locks all that it depends on,
unless it raises an exception right away. -/
def Tx.Locking {A : Type} (Z : Discipline S) : Tx S A → S.Db → Prop
  | .pure _, _ => True
  | .throw _, _ => True
  | .stmt q k, d => ∀ r ws, S.exec q d = .ok (r, ws) →
      (∃ x, k r = .throw x) ∨ (Z.Locks q d ∧ (k r).Locking Z (S.applyAll ws d))
  | .savepoint _, _ => False
  | .release _, _ => False
  | .rollbackTo _, _ => False

namespace Session

variable {A : Type} {Z : Discipline S} {t : Tx S A} {d d' : S.Db} {c c' : Session S A}

/-- The transaction in progress has executed a part of the program `t`, and would have done so in
the same way on any tables that agree with `d` on what it owns. -/
structure Follows (Z : Discipline S) (t : Tx S A) (d : S.Db) (c : Session S A) : Prop where
  locks : ∀ w ∈ c.writes, Z.locks w ⊆ c.held
  result : ∀ d', Z.Agree c.held d d' →
    c.prog.Locking Z (c.view d') ∧ c.result d' = t.run d'

theorem follows_start (h : ∀ d, t.Locking Z d) : (start t).Follows Z t d where
  locks _ hw := by cases hw
  result d' _ := ⟨h d', rfl⟩

/-- The tables may change where the transaction owns nothing. -/
theorem Follows.keep (h : c.Follows Z t d) (hd : Z.Agree c.held d d') : c.Follows Z t d' where
  locks := h.locks
  result d'' hd' := h.result d'' (hd.trans hd')

/-- What is committed by one transaction is of no concern to another that owns none of its
locks. -/
theorem Follows.agree {ls : List S.Lock} (h : c.Follows Z t d) (hls : c.held.Disjoint ls) :
    Z.Agree ls d (c.view d) :=
  Discipline.agree_applyAll fun w hw _ hl hm => hls (h.locks w hw hm) hl

/-- A step goes on in the same way, or leads to an exception. -/
theorem Follows.go (h : c.Follows Z t d) (hn : c.next d = .go c') :
    c'.Follows Z t d ∨ ∃ x, c'.prog = .throw x := by
  obtain ⟨prog, writes, held, saves⟩ := c
  have hL := (h.result d .refl).1
  cases prog with
  | pure a => cases hn
  | throw x => cases hn
  | savepoint k => exact hL.elim
  | release k => exact hL.elim
  | rollbackTo k => exact hL.elim
  | stmt q k =>
    simp only [next] at hn
    split at hn
    · cases hn
    · rename_i r ws hx
      obtain rfl := Next.go.inj hn
      rcases hL r ws hx with ⟨x, hk⟩ | ⟨hq, -⟩
      · exact .inr ⟨x, hk⟩
      · have hws := Z.writes hq hx
        refine .inl ⟨fun w hw => ?_, fun d' hd' => ?_⟩
        · rcases List.mem_append.1 hw with hw | hw
          · exact List.Subset.trans (h.locks w hw) (List.subset_append_left _ _)
          · exact List.Subset.trans (hws w hw) (List.subset_append_right _ _)
        · -- on `d'` the statement gives what it gave on `d`
          have hagree : Z.Agree held d d' := hd'.mono (List.subset_append_left _ _)
          have hview : Z.Agree _ (S.applyAll writes d) (S.applyAll writes d') :=
            hd'.applyAll fun w hw =>
              List.Subset.trans (h.locks w hw) (List.subset_append_left _ _)
          have hx' : S.exec q (S.applyAll writes d') = .ok (r, ws) :=
            (Z.stable hq (hview.mono (List.subset_append_right _ _))).trans hx
          obtain ⟨hL', hres⟩ := h.result d' hagree
          refine ⟨?_, ?_⟩
          · rcases hL' r ws hx' with ⟨x, hk⟩ | ⟨-, hk⟩
            · simp only [hk]
              trivial
            · simp only [view, S.applyAll_append]
              exact hk
          · rw [← hres]
            simp only [Session.result, Tx.eval, view, hx', S.applyAll_append]

/-- At its commit the transaction has done what the whole program does then. -/
theorem Follows.commit {a : A} (h : c.Follows Z t d) (hn : c.next d = .commit a) :
    t.run d = .ok (a, c.view d) :=
  (h.result d .refl).2.symm.trans (result_of_commit hn)

end Session

namespace World

variable {Z : Discipline S} {P : Rules S F O R} {I₀ I : S.Db → Prop}
  {J : S.Db → Proc S F O R → Prop}
  {M : S.Db → Tx S (Proc S F O R) → (S.Err → Proc S F O R) → Prop}

/-- The obligations for worlds whose transactions lock what they depend on.  `M d t e` says of
the program `t` of a transaction, or of what is left of it after a read without locks, what is
needed to know what its commit does. -/
structure Serial (Z : Discipline S) (P : Rules S F O R) (I₀ I : S.Db → Prop)
    (J : S.Db → Proc S F O R → Prop)
    (M : S.Db → Tx S (Proc S F O R) → (S.Err → Proc S F O R) → Prop) : Prop where
  init : ∀ d, I₀ d → I d
  start : ∀ d p, I d → P.start p → J d p
  begin : ∀ d f t e, I d → P.draw d f → J d (.txn t e) → M d (t f) e
  call : ∀ d o k, I d → J d (.call o k) → J d k
  shape : ∀ d t e, I d → M d t e → (∀ d', t.Locking Z d') ∨
    ∃ q k, t = .stmt q k ∧ ∀ r ws, S.exec q d = .ok (r, ws) →
      ws = [] ∧ M d (k r) e ∧ ∀ d', (k r).Locking Z d'
  commit : ∀ d t e p d', I d → M d t e → t.run d = .ok (p, d') →
    I d' ∧ J d' p ∧ (∀ p', J d p' → J d' p') ∧ ∀ t' e', M d t' e' → M d' t' e'
  abort : ∀ d t e x, I d → M d t e → J d (e x)

/-- An open transaction of such a world. -/
inductive Open (Z : Discipline S) (M : S.Db → Tx S (Proc S F O R) → (S.Err → Proc S F O R) → Prop)
    (d : S.Db) (c : Session S (Proc S F O R)) (e : S.Err → Proc S F O R) : Prop
  /-- It has just begun. -/
  | fresh (t) : M d t e → c = .start t → Open Z M d c e
  /-- It has executed a part of a program. -/
  | follows (t) : M d t e → c.Follows Z t d → Open Z M d c e
  /-- It is about to be rolled back. -/
  | doomed (t x) : M d t e → c.prog = .throw x → Open Z M d c e

namespace Open

variable {d d' : S.Db} {c c' : Session S (Proc S F O R)} {e : S.Err → Proc S F O R}

/-- What a commit does is what a whole program does on the committed tables. -/
theorem run_of_commit {p : Proc S F O R} (h : Open Z M d c e) (hn : c.next d = .commit p) :
    ∃ t, M d t e ∧ t.run d = .ok (p, c.view d) ∧
      ∀ ls, c.held.Disjoint ls → Z.Agree ls d (c.view d) := by
  cases h with
  | fresh t hM hc =>
    subst hc
    exact ⟨t, hM, Session.result_of_commit hn, fun ls _ => .refl⟩
  | follows t hM hf => exact ⟨t, hM, hf.commit hn, fun ls => hf.agree⟩
  | doomed t x hM hx =>
    rw [Session.next, hx] at hn
    cases hn

theorem go (hS : Serial Z P I₀ I J M) (hI : I d) (h : Open Z M d c e)
    (hn : c.next d = .go c') : Open Z M d c' e := by
  have follow : ∀ t, M d t e → c.Follows Z t d → Open Z M d c' e := by
    intro t hM hf
    rcases hf.go hn with hf' | ⟨x, hx⟩
    · exact .follows t hM hf'
    · exact .doomed t x hM hx
  cases h with
  | follows t hM hf => exact follow t hM hf
  | doomed t x hM hx =>
    rw [Session.next, hx] at hn
    cases hn
  | fresh t hM hc =>
    subst hc
    rcases hS.shape d t e hI hM with hL | ⟨q, k, rfl, hq⟩
    · exact follow t hM (Session.follows_start hL)
    · -- the read without locks: what is left is a program of its own
      simp only [Session.next, Session.start] at hn
      split at hn
      · cases hn
      · rename_i r ws hx
        obtain rfl := Session.Next.go.inj hn
        obtain ⟨rfl, hM', hL⟩ := hq r ws hx
        refine .follows (k r) hM' ⟨fun w hw => ?_, fun d' _ => ⟨hL d', rfl⟩⟩
        cases hw

/-- The transaction goes on as before when another one, which owns none of its locks, has
committed. -/
theorem keep (h : Open Z M d c e) (hM : ∀ t, M d t e → M d' t e) (hd : Z.Agree c.held d d') :
    Open Z M d' c e := by
  cases h with
  | fresh t ht hc => exact .fresh t (hM t ht) hc
  | follows t ht hf => exact .follows t (hM t ht) (hf.keep hd)
  | doomed t x ht hx => exact .doomed t x (hM t ht) hx

end Open

namespace Serial

variable [DecidableEq S.Lock] {w w' : World S F O R} {l : Label S F O R}

/-- **The invariant of a world whose transactions lock what they depend on.** -/
theorem invariant (hS : Serial Z P I₀ I J M) (h : (lts P I₀).Reachable w) :
    I w.db ∧ ∀ s, some s ∈ w.slots → s.Sat J (Open Z M) w.db := by
  refine World.invariant I J (Open Z M) hS.init hS.start ?_ hS.call ?_ ?_ ?_ h
  · intro d f t e hI hf hJ
    exact .fresh _ (hS.begin d f t e hI hf hJ) rfl
  · intro d c c' e hI hK _ hn
    exact hK.go hS hI hn
  · intro d c e p hI hK hn
    obtain ⟨t, hM, hrun, hagree⟩ := hK.run_of_commit hn
    obtain ⟨hI', hJ', hkeep, hM'⟩ := hS.commit d t e p _ hI hM hrun
    exact ⟨hI', hJ', hkeep, fun c' e' hdisj hK' => hK'.keep (fun t' => hM' t' e') (hagree _ hdisj)⟩
  · intro d c e x hI hK hn
    cases hK with
    | fresh t hM hc => exact hS.abort d t e x hI hM
    | follows t hM hf => exact hS.abort d t e x hI hM
    | doomed t y hM hy => exact hS.abort d t e x hI hM

/-- **Every step leaves the tables as they are, or executes one whole program on them.** -/
theorem commits (hS : Serial Z P I₀ I J M) (h : (lts P I₀).Reachable w)
    (hst : (lts P I₀).step w l w') :
    w'.db = w.db ∨ ∃ t e p, M w.db t e ∧ t.run w.db = .ok (p, w'.db) := by
  obtain ⟨-, hslots⟩ := hS.invariant h
  cases step_cases hst with
  | start _ => exact .inl rfl
  | «begin» _ _ => exact .inl rfl
  | call _ => exact .inl rfl
  | go _ _ _ _ => exact .inl rfl
  | commit hi hn =>
    have hK : Open Z M w.db _ _ := hslots _ (List.mem_of_getElem? hi)
    obtain ⟨t, hM, hrun, -⟩ := hK.run_of_commit hn
    exact .inr ⟨t, _, _, hM, hrun⟩
  | abort _ _ => exact .inl rfl
  | kill _ => exact .inl rfl

end Serial

end World

end FoodFlow
