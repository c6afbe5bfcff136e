import FoodFlow.Sql.ReadCommitted

/-!
# Transactions that rely on others

A statement need not lock all that it depends on, as long as no other transaction changes the
rest.  `Reliance` says what a transaction relies on while it owns certain locks; its statements
are *tracked* when what they do depends on nothing else.  What such a transaction has done when
it commits is what its whole program does then (`Session.Replays`).

A rollback to a savepoint gives up locks before the end of the transaction.  For a transaction
that is one block with a savepoint (`Session.inside`), the program inside the block replays until
the block is left: when it returns, the transaction keeps its locks and its commit is the point at
which all of it happens; when it raises an exception, that point is the rollback.
-/

namespace FoodFlow

/-- What a transaction relies on. -/
structure Reliance (S : Dbms) where
  /-- While it owns the locks, it does not tell the tables apart. -/
  Agree : List S.Lock → S.Db → S.Db → Prop
  /-- It makes the write under the locks. -/
  Own : List S.Lock → S.Write → Prop
  refl : ∀ ls d, Agree ls d d
  trans : ∀ {ls d₁ d₂ d₃}, Agree ls d₁ d₂ → Agree ls d₂ d₃ → Agree ls d₁ d₃
  mono : ∀ {ls ls' d d'}, ls' ⊆ ls → Agree ls d d' → Agree ls' d d'
  own_mono : ∀ {ls ls' w}, ls' ⊆ ls → Own ls' w → Own ls w
  apply : ∀ {ls w d d'}, Own ls w → Agree ls d d' → Agree ls (S.apply w d) (S.apply w d')

variable {S : Dbms}

namespace Reliance

variable (Z : Reliance S)

/-- What the statement does depends only on what the transaction relies on. -/
structure Tracked (q : S.Stmt) : Prop where
  exec : ∀ {d d'}, Z.Agree (S.needs q d) d d' → S.exec q d' = S.exec q d
  own : ∀ {d r ws}, S.exec q d = .ok (r, ws) → ∀ w ∈ ws, Z.Own (S.needs q d) w

variable {Z} {ls : List S.Lock} {d d' : S.Db} {ws : List S.Write}

/-- Its own writes keep the agreement. -/
theorem applyAll (hw : ∀ w ∈ ws, Z.Own ls w) (h : Z.Agree ls d d') :
    Z.Agree ls (S.applyAll ws d) (S.applyAll ws d') := by
  induction ws generalizing d d' with
  | nil => exact h
  | cons w ws ih =>
    exact ih (fun w' hw' => hw w' (List.mem_cons_of_mem _ hw'))
      (Z.apply (hw w List.mem_cons_self) h)

/-- Writes that it does not see. -/
theorem agree_applyAll (hw : ∀ w ∈ ws, ∀ d, Z.Agree ls d (S.apply w d)) :
    Z.Agree ls d (S.applyAll ws d) := by
  induction ws generalizing d with
  | nil => exact Z.refl ls d
  | cons w ws ih =>
    exact Z.trans (hw w List.mem_cons_self d) (ih fun w' hw' => hw w' (List.mem_cons_of_mem _ hw'))

end Reliance

namespace Session

variable {A B : Type} {Z : Reliance S} {t : Tx S A} {d d' : S.Db} {c c' : Session S A}

/-- The transaction in progress has executed a part of the program `t`, and would have done so in
the same way on all tables that it does not tell from `d`. -/
structure Replays (Z : Reliance S) (t : Tx S A) (d : S.Db) (c : Session S A) : Prop where
  uses : c.prog.Uses Z.Tracked
  own : ∀ w ∈ c.writes, Z.Own c.held w
  eval : ∀ d', Z.Agree c.held d d' → c.prog.eval (c.view d') [] = t.eval d' []

theorem replays_start (h : t.Uses Z.Tracked) : (start t).Replays Z t d where
  uses := h
  own _ hw := by cases hw
  eval _ _ := rfl

namespace Replays

/-- The others may change what the transaction does not see. -/
theorem keep (h : c.Replays Z t d) (hd : Z.Agree c.held d d') : c.Replays Z t d' where
  uses := h.uses
  own := h.own
  eval d'' hd' := h.eval d'' (Z.trans hd hd')

/-- A step goes on in the same way. -/
theorem go (h : c.Replays Z t d) (hn : c.next d = .go c') : c'.Replays Z t d := by
  obtain ⟨prog, writes, held, saves⟩ := c
  have ht := h.uses
  cases prog with
  | pure a => cases hn
  | throw x => cases hn
  | savepoint k => exact ht.elim
  | release k => exact ht.elim
  | rollbackTo k => exact ht.elim
  | stmt q k =>
    simp only [next] at hn
    split at hn
    · cases hn
    · rename_i r ws hx
      obtain rfl := Next.go.inj hn
      have hown : ∀ w ∈ writes, Z.Own (held ++ S.needs q (S.applyAll writes d)) w := fun w hw =>
        Z.own_mono (List.subset_append_left _ _) (h.own w hw)
      refine ⟨ht.2 r, fun w hw => ?_, fun d' hd' => ?_⟩
      · rcases List.mem_append.1 hw with hw | hw
        · exact hown w hw
        · exact Z.own_mono (List.subset_append_right _ _) (ht.1.own hx w hw)
      · -- on `d'` the statement gives what it gave on `d`
        have hview := Z.mono (List.subset_append_right _ _) (Reliance.applyAll hown hd')
        have hx' : S.exec q (S.applyAll writes d') = .ok (r, ws) := (ht.1.exec hview).trans hx
        rw [← h.eval d' (Z.mono (List.subset_append_left _ _) hd')]
        simp only [view, S.applyAll_append, Tx.eval, hx']

/-- When the program returns, it has done what the whole program does then. -/
theorem of_pure {a : A} (h : c.Replays Z t d) (hp : c.prog = .pure a)
    (hd : Z.Agree c.held d d') : t.eval d' [] = .ok a (c.view d') [] := by
  rw [← h.eval d' hd, hp]
  rfl

/-- When it raises an exception, so does the whole program. -/
theorem of_throw {x : S.Err} (h : c.Replays Z t d) (hp : c.prog = .throw x) :
    t.eval d [] = .thrown x := by
  rw [← h.eval d (Z.refl _ d), hp]
  rfl

theorem of_commit {a : A} (h : c.Replays Z t d) (hn : c.next d = .commit a) :
    t.run d = .ok (a, c.view d) :=
  Tx.run_eq_ok.2 ⟨[], h.of_pure (prog_of_commit hn) (Z.refl _ d)⟩

end Replays

/-- The transaction that runs the program of `c` in a block with a savepoint, opened before
anything else. -/
def inside (ok : A → Tx S B) (err : S.Err → Tx S B) (c : Session S A) : Session S B :=
  ⟨Tx.nested.inside ok err c.prog, c.writes, c.held, [([], [])]⟩

variable {ok : A → Tx S B} {err : S.Err → Tx S B} {b : Session S B}

/-- What a step inside the block does: it goes on, leaves the block with all that it owns, or
rolls back to the savepoint and owns nothing. -/
theorem inside_go (hc : c.prog.Uses Z.Tracked) (h : (c.inside ok err).next d = .go b) :
    (∃ c', c.next d = .go c' ∧ b = c'.inside ok err) ∨
      (∃ a, c.prog = .pure a ∧ b = ⟨ok a, c.writes, c.held, []⟩) ∨
      ∃ x, c.prog = .throw x ∧ b = .start (err x) := by
  obtain ⟨prog, writes, held, saves⟩ := c
  cases prog with
  | pure a => exact .inr (.inl ⟨a, rfl, (Next.go.inj h).symm⟩)
  | throw x => exact .inr (.inr ⟨x, rfl, (Next.go.inj h).symm⟩)
  | savepoint k => exact hc.elim
  | release k => exact hc.elim
  | rollbackTo k => exact hc.elim
  | stmt q k =>
    simp only [inside, Tx.nested.inside, next] at h
    split at h
    · cases h
    · rename_i r ws hx
      have hx' : S.exec q (S.applyAll writes d) = .ok (r, ws) := hx
      obtain rfl := Next.go.inj h
      exact .inl ⟨⟨k r, writes ++ ws, held ++ S.needs q (S.applyAll writes d), saves⟩,
        by simp only [next, view, hx'], rfl⟩

/-- There is no commit inside the block. -/
theorem inside_not_commit (hc : c.prog.Uses Z.Tracked) (y : B) :
    (c.inside ok err).next d ≠ .commit y := by
  intro h
  have hp : Tx.nested.inside ok err c.prog = .pure y := prog_of_commit h
  cases hprog : c.prog with
  | savepoint k => rw [hprog] at hc; exact hc
  | release k => rw [hprog] at hc; exact hc
  | rollbackTo k => rw [hprog] at hc; exact hc
  | pure a => rw [hprog] at hp; cases hp
  | throw x => rw [hprog] at hp; cases hp
  | stmt q k => rw [hprog] at hp; cases hp

end Session

end FoodFlow
