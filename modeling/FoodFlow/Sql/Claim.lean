import FoodFlow.Sql.ReadCommitted

/-!
# Deliveries of one message

A consumer that handles a message more than once at the same time is idempotent when its handler
first looks the message up in a ledger, does nothing when it is there, and otherwise enters it
into the ledger as the last statement of the transaction: the primary key of the ledger lets at
most one of the transactions commit.

* `Ledger` : a statement that fails once it has been committed by anyone;
* `Tx.Guarded` : a program that can commit only by executing that statement last;
* `Ledger.Protects` : a transaction that looks its message up, and is then either finished
  without any effect or guarded;
* `Ledger.Protects.absorbs` : **any number of interleaved executions of such a process leave what
  a single execution leaves**;
* `Ledger.Absorbing` : such processes, with those that have nothing to do.
-/

namespace FoodFlow

variable {S : Dbms} {F O R : Type}

/-- A statement that claims something, and fails when it has been claimed. -/
structure Ledger (S : Dbms) where
  /-- The statement. -/
  claim : S.Stmt
  /-- A lock that the statement needs. -/
  lock : S.Lock
  /-- The tables in which the claim has been made. -/
  Claimed : S.Db → Prop
  claimed_apply : ∀ w d, Claimed d → Claimed (S.apply w d)
  exec_claim : ∀ d r ws, S.exec claim d = .ok (r, ws) → ¬ Claimed d ∧ Claimed (S.applyAll ws d)
  needs_claim : ∀ d, lock ∈ S.needs claim d

/-- A program whose every commit comes right after the statement `claim`. -/
def Tx.Guarded {A : Type} (claim : S.Stmt) : Tx S A → Prop
  | .pure _ => False
  | .throw _ => True
  | .stmt q k => (q = claim ∧ ∀ r, ∃ a, k r = .pure a) ∨ ∀ r, (k r).Guarded claim
  | .savepoint k => k.Guarded claim
  | .release k => k.Guarded claim
  | .rollbackTo k => k.Guarded claim

namespace Tx

variable {A B : Type} {claim : S.Stmt}

theorem guarded_claim {k : S.Res claim → Tx S A} (h : ∀ r, ∃ a, k r = .pure a) :
    (Tx.stmt claim k).Guarded claim := .inl ⟨rfl, h⟩

theorem guarded_bind {m : Tx S A} {f : A → Tx S B} (h : ∀ a, (f a).Guarded claim) :
    (m.bind f).Guarded claim := by
  induction m with
  | pure a => exact h a
  | throw e => trivial
  | stmt q k ih => exact .inr ih
  | savepoint k ih => exact ih
  | release k ih => exact ih
  | rollbackTo k ih => exact ih

theorem guarded_nested {body : Tx S A} {ok : A → Tx S B} {err : S.Err → Tx S B}
    (hok : ∀ a, (ok a).Guarded claim) (herr : ∀ e, (err e).Guarded claim) :
    (nested body ok err).Guarded claim := by
  show (nested.inside ok err body).Guarded claim
  induction body with
  | pure a => exact hok a
  | throw e => exact herr e
  | stmt q k ih => exact .inr ih
  | savepoint k ih => exact ih
  | release k ih => exact ih
  | rollbackTo k ih => exact ih

end Tx

/-- A program that commits at once and leaves nothing to do. -/
def Tx.Quiet (t : Tx S (Proc S F O R)) : Prop := ∃ r, t = .pure (.done r)

namespace Ledger

variable (L : Ledger S)

theorem claimed_applyAll {ws : List S.Write} {d : S.Db} (h : L.Claimed d) :
    L.Claimed (S.applyAll ws d) := by
  induction ws generalizing d with
  | nil => exact h
  | cons w ws ih => exact ih (L.claimed_apply w d h)

/-- The process begins by looking its message up: it then has nothing to do, or it has not been
claimed and the rest is guarded.  A transaction rolled back is the end of the process. -/
structure Protects (t : F → Tx S (Proc S F O R)) (onErr : S.Err → Proc S F O R) : Prop where
  shape : ∀ f, ∃ q k, t f = .stmt q k ∧ ∀ d, ∃ r, S.exec q d = .ok (r, []) ∧
    ((k r).Quiet ∨ (¬ L.Claimed d ∧ (k r).Guarded L.claim))
  onErr : ∀ x, ∃ r, onErr x = .done r

namespace Protects

/-- Where an open transaction can be before its claim. -/
def Early (t : F → Tx S (Proc S F O R)) (c : Session S (Proc S F O R)) : Prop :=
  (∃ f, c = .start (t f)) ∨ (c.prog.Quiet ∧ c.writes = []) ∨ c.prog.Guarded L.claim

/-- Where it is after its claim. -/
def Late (d : S.Db) (c : Session S (Proc S F O R)) : Prop :=
  (∃ a, c.prog = .pure a) ∧ L.lock ∈ c.held ∧ L.Claimed (c.view d)

variable {L} {t : F → Tx S (Proc S F O R)} {onErr : S.Err → Proc S F O R}
  {Q : S.Db → F → Prop} {d d₀ : S.Db} {c c' : Session S (Proc S F O R)}

/-- Before its claim, a transaction can go on or get to its claim; it does the latter only while
nobody else has made the claim. -/
theorem early_go (h : L.Protects t onErr) (he : Early L t c) (hn : c.next d = .go c') :
    Early L t c' ∨ (¬ L.Claimed d ∧ Late L d c') := by
  rcases he with ⟨f, rfl⟩ | ⟨⟨r, hr⟩, -⟩ | hg
  · obtain ⟨q, k, ht, hq⟩ := h.shape f
    obtain ⟨r, hx, hk⟩ := hq d
    have hs : S.exec q ((Session.start (t f)).view d) = .ok (r, []) := hx
    simp only [Session.next, Session.start, ht] at hn hs
    rw [hs] at hn
    obtain rfl := Session.Next.go.inj hn
    rcases hk with hk | ⟨-, hk⟩
    · exact .inl (.inr (.inl ⟨hk, rfl⟩))
    · exact .inl (.inr (.inr hk))
  · rw [Session.next, hr] at hn
    cases hn
  · obtain ⟨prog, writes, held, saves⟩ := c
    cases prog with
    | pure a => cases hg
    | throw e => cases hn
    | stmt q k =>
      simp only [Session.next] at hn
      split at hn
      · cases hn
      · rename_i r ws hx
        obtain rfl := Session.Next.go.inj hn
        -- the statement just executed is the claim, or the claim is still to come
        rcases hg with ⟨rfl, hk⟩ | hk
        · obtain ⟨hfree, hclaimed⟩ := L.exec_claim _ _ _ hx
          refine .inr ⟨fun hc => hfree (L.claimed_applyAll hc), hk r, ?_, ?_⟩
          · exact List.mem_append_right _ (L.needs_claim _)
          · rw [Session.view, S.applyAll_append]
            exact hclaimed
        · exact .inl (.inr (.inr (hk r)))
    | savepoint k =>
      obtain rfl := Session.Next.go.inj hn
      exact .inl (.inr (.inr hg))
    | release k =>
      obtain rfl := Session.Next.go.inj hn
      exact .inl (.inr (.inr hg))
    | rollbackTo k =>
      obtain rfl := Session.Next.go.inj hn
      exact .inl (.inr (.inr hg))

/-- Before its claim, a transaction commits only when it has nothing to do. -/
theorem early_commit (h : L.Protects t onErr) (he : Early L t c) {p : Proc S F O R}
    (hn : c.next d = .commit p) : c.view d = d ∧ ∃ r, p = .done r := by
  rcases he with ⟨f, rfl⟩ | ⟨⟨r, hr⟩, hw⟩ | hg
  · obtain ⟨q, k, ht, hq⟩ := h.shape f
    obtain ⟨r, hx, -⟩ := hq d
    have hs : S.exec q ((Session.start (t f)).view d) = .ok (r, []) := hx
    simp only [Session.next, Session.start, ht] at hn hs
    rw [hs] at hn
    cases hn
  · rw [Session.next, hr] at hn
    obtain rfl := Session.Next.commit.inj hn
    exact ⟨by rw [Session.view, hw, S.applyAll_nil], r, rfl⟩
  · obtain ⟨prog, writes, held, saves⟩ := c
    cases prog with
    | pure a => cases hg
    | throw e => cases hn
    | stmt q k =>
      simp only [Session.next] at hn
      split at hn <;> cases hn
    | savepoint k => cases hn
    | release k => cases hn
    | rollbackTo k => cases hn

theorem late_commit (hl : Late L d c) : ∃ a, c.next d = .commit a := by
  obtain ⟨⟨a, ha⟩, -⟩ := hl
  exact ⟨a, by rw [Session.next, ha]⟩

/-- A slot while nobody has made the claim. -/
def Before (L : Ledger S) (Q : S.Db → F → Prop) (d₀ : S.Db) (t : F → Tx S (Proc S F O R))
    (onErr : S.Err → Proc S F O R) : Option (Slot S F O R) → Prop
  | none => False
  | some (.idle p) =>
    p = .txn t onErr ∨ ∃ r, p = .done r ∧ Proc.Finishes Q d₀ (.txn t onErr) d₀ r []
  | some (.busy c e) => e = onErr ∧ (Early L t c ∨ Late L d₀ c) ∧
    ∃ f, Q d₀ f ∧ c.result d₀ = (t f).run d₀

/-- A slot when another process has made the claim. -/
def After (L : Ledger S) (t : F → Tx S (Proc S F O R)) (onErr : S.Err → Proc S F O R) :
    Option (Slot S F O R) → Prop
  | none => False
  | some (.idle p) => p = .txn t onErr ∨ ∃ r, p = .done r
  | some (.busy c e) => e = onErr ∧ Early L t c

/-- How the process of a slot can end from the tables `d`. -/
def Resume (Q : S.Db → F → Prop) (d d' : S.Db) (r : R) (os : List O) : Slot S F O R → Prop
  | .idle p => Proc.Finishes Q d p d' r os
  | .busy c e =>
    (∃ p d₁, c.result d = .ok (p, d₁) ∧ Proc.Finishes Q d₁ p d' r os) ∨
      ∃ x, c.result d = .error x ∧ Proc.Finishes Q d (e x) d' r os

/-- Either nobody has made the claim, and the tables are as they were; or one process has made
it, and whatever it ends with is what a single execution ends with. -/
inductive Inv (L : Ledger S) (Q : S.Db → F → Prop) (d₀ : S.Db) (t : F → Tx S (Proc S F O R))
    (onErr : S.Err → Proc S F O R) (w : World S F O R) : Prop
  | before : w.db = d₀ → w.calls = [] →
      (∀ (j : ℕ) s, w.slots[j]? = some s → Before L Q d₀ t onErr s) → Inv L Q d₀ t onErr w
  | after (i : ℕ) (s : Slot S F O R) : w.slots[i]? = some (some s) → L.Claimed w.db →
      (∀ d' r os, Resume Q w.db d' r os s →
        Proc.Finishes Q d₀ (.txn t onErr) d' r (w.calls ++ os)) →
      (∀ (j : ℕ) s', j ≠ i → w.slots[j]? = some s' → After L t onErr s') → Inv L Q d₀ t onErr w

variable {w w' : World S F O R} {l : World.Label S F O R}
  {I₀ : S.Db → Prop}

/-- A step while nobody has made the claim. -/
theorem inv_step_before (h : L.Protects t onErr) (hd : w.db = d₀) (hcalls : w.calls = [])
    (hs : ∀ (j : ℕ) s, w.slots[j]? = some s → Before L Q d₀ t onErr s)
    (hx : World.Exclusive w.slots)
    (hst : World.Step (World.Rules.deliveries Q (.txn t onErr)) w l w') :
    Inv L Q d₀ t onErr w' := by
  subst hd
  -- a step that leaves the tables alone and turns slot `i` into `s'`
  have keep : ∀ (i : ℕ) (s s' : Option (Slot S F O R)), w.slots[i]? = some s →
      Before L Q w.db t onErr s' →
      Inv L Q w.db t onErr { w with slots := w.slots.set i s' } := by
    intro i s s' hi hs'
    refine .before rfl hcalls fun j s₁ hj => ?_
    rw [getElem?_set_of_some hi] at hj
    split_ifs at hj
    · obtain rfl := Option.some.inj hj
      exact hs'
    · exact hs j s₁ hj
  cases hst with
  | @start p hp =>
    refine .before rfl hcalls fun j s hj => ?_
    rw [getElem?_snoc] at hj
    split_ifs at hj
    · obtain rfl := Option.some.inj hj
      exact .inl hp
    · exact hs j s hj
  | @«begin» i f t' e hf hi =>
    rcases hs i _ hi with hp | ⟨r, hp, -⟩ <;> cases hp
    exact keep i _ _ hi ⟨rfl, .inl (.inl ⟨f, rfl⟩), f, hf, rfl⟩
  | @call i o k hi =>
    rcases hs i _ hi with hp | ⟨r, hp, -⟩ <;> cases hp
  | @go i c c' e hi hfree _ hn =>
    obtain ⟨rfl, hel, f, hf, hr⟩ := hs i _ hi
    refine keep i _ _ hi ⟨rfl, ?_, f, hf, (Session.result_of_go hn).trans hr⟩
    rcases hel with he | hl
    · exact (early_go h he hn).imp_right And.right
    · obtain ⟨a, ha⟩ := late_commit hl
      rw [ha] at hn
      cases hn
  | @commit i c p e hi hn =>
    obtain ⟨rfl, hel, f, hf, hr⟩ := hs i _ hi
    rcases hel with he | hl
    · obtain ⟨hv, r, rfl⟩ := early_commit h he hn
      rw [hv]
      refine keep i _ _ hi (.inr ⟨r, rfl, .commit hf ?_ .done⟩)
      rw [← hr, Session.result_of_commit hn, hv]
    · -- the claim is made: process `i` goes on, all others are still before their claim
      refine .after i (.idle p) (by rw [getElem?_set_of_some hi, if_pos rfl]) hl.2.2 ?_ ?_
      · intro d' r os hres
        rw [hcalls, List.nil_append]
        refine .commit hf ?_ hres
        rw [← hr, Session.result_of_commit hn]
      · intro j s' hj hs'
        rw [getElem?_set_of_some hi, if_neg (Ne.symm hj)] at hs'
        have hb := hs j s' hs'
        rcases s' with _ | ⟨p'⟩ | ⟨c', e'⟩
        · exact hb
        · exact hb.imp_right fun ⟨r, hp', _⟩ => ⟨r, hp'⟩
        · obtain ⟨he', hel', -⟩ := hb
          refine ⟨he', hel'.resolve_right fun hl' => ?_⟩
          exact hx i j _ _ (Ne.symm hj) hi hs' hl.2.1 hl'.2.1
  | @abort i c x e hi hn =>
    obtain ⟨rfl, -, f, hf, hr⟩ := hs i _ hi
    obtain ⟨r, hx'⟩ := h.onErr x
    refine keep i _ _ hi (.inr ⟨r, hx', .abort hf (hr ▸ Session.result_of_abort hn) ?_⟩)
    rw [hx']
    exact .done
  | kill hk => exact hk.elim

/-- A step of the process that made the claim. -/
theorem inv_step_winner {i : ℕ} {s : Slot S F O R} (hi : w.slots[i]? = some (some s))
    (hc : L.Claimed w.db)
    (hfin : ∀ d' r os, Resume Q w.db d' r os s →
      Proc.Finishes Q d₀ (.txn t onErr) d' r (w.calls ++ os))
    (hs : ∀ (j : ℕ) s', j ≠ i → w.slots[j]? = some s' → After L t onErr s')
    (s' : Slot S F O R) (ws : List S.Write) (os₁ : List O)
    (hres : ∀ d' r os, Resume Q (S.applyAll ws w.db) d' r os s' →
      Resume Q w.db d' r (os₁ ++ os) s) :
    Inv L Q d₀ t onErr
      ⟨S.applyAll ws w.db, w.slots.set i (some s'), w.calls ++ os₁⟩ := by
  refine .after i s' (by rw [getElem?_set_of_some hi, if_pos rfl]) (L.claimed_applyAll hc) ?_ ?_
  · intro d' r os h
    rw [List.append_assoc]
    exact hfin _ _ _ (hres d' r os h)
  · intro j s₁ hj hs₁
    rw [getElem?_set_of_some hi, if_neg (Ne.symm hj)] at hs₁
    exact hs j s₁ hj hs₁

/-- A step of another process, or the start of one, once the claim is made. -/
theorem inv_step_other (h : L.Protects t onErr) {i : ℕ} {s : Slot S F O R}
    (hi : w.slots[i]? = some (some s)) (hc : L.Claimed w.db)
    (hfin : ∀ d' r os, Resume Q w.db d' r os s →
      Proc.Finishes Q d₀ (.txn t onErr) d' r (w.calls ++ os))
    (hs : ∀ (j : ℕ) s', j ≠ i → w.slots[j]? = some s' → After L t onErr s')
    (hst : World.Step (World.Rules.deliveries Q (.txn t onErr)) w l w') (hstep : l ≠ .step i)
    (hbegin : ∀ f, l ≠ .begin i f) : Inv L Q d₀ t onErr w' := by
  -- a step that leaves the tables alone and turns slot `j` into `s'`
  have keep : ∀ (j : ℕ) (s₀ s' : Option (Slot S F O R)), w.slots[j]? = some s₀ → j ≠ i →
      After L t onErr s' → Inv L Q d₀ t onErr { w with slots := w.slots.set j s' } := by
    intro j s₀ s' hj hji hs'
    refine .after i s (by rw [getElem?_set_of_some hj, if_neg hji]; exact hi) hc hfin ?_
    intro k s₁ hk hs₁
    rw [getElem?_set_of_some hj] at hs₁
    split_ifs at hs₁
    · obtain rfl := Option.some.inj hs₁
      exact hs'
    · exact hs k s₁ hk hs₁
  cases hst with
  | start hp =>
    refine .after i s ?_ hc hfin fun j s₁ hj hs₁ => ?_
    · rw [getElem?_snoc, if_neg (Nat.ne_of_lt (List.getElem?_eq_some_iff.1 hi).1), hi]
    · rw [getElem?_snoc] at hs₁
      split_ifs at hs₁
      · obtain rfl := Option.some.inj hs₁
        exact .inl hp
      · exact hs j s₁ hj hs₁
  | @«begin» j f t' e hf hj =>
    have hji : j ≠ i := fun hji => hbegin f (hji ▸ rfl)
    rcases hs j _ hji hj with hp | ⟨r, hp⟩ <;> cases hp
    exact keep j _ _ hj hji ⟨rfl, .inl ⟨f, rfl⟩⟩
  | @call j o p hj =>
    have hji : j ≠ i := fun hji => hstep (hji ▸ rfl)
    rcases hs j _ hji hj with hp | ⟨r, hp⟩ <;> cases hp
  | @go j c c' e hj hfree _ hn =>
    have hji : j ≠ i := fun hji => hstep (hji ▸ rfl)
    obtain ⟨rfl, he⟩ := hs j _ hji hj
    -- it cannot get past the claim, which has been made
    exact keep j _ _ hj hji ⟨rfl, (early_go h he hn).resolve_right fun hl => hl.1 hc⟩
  | @commit j c p e hj hn =>
    have hji : j ≠ i := fun hji => hstep (hji ▸ rfl)
    obtain ⟨rfl, he⟩ := hs j _ hji hj
    obtain ⟨hv, hp⟩ := early_commit h he hn
    rw [hv]
    exact keep j _ _ hj hji (.inr hp)
  | @abort j c x e hj hn =>
    have hji : j ≠ i := fun hji => hstep (hji ▸ rfl)
    obtain ⟨rfl, -⟩ := hs j _ hji hj
    exact keep j _ _ hj hji (.inr (h.onErr x))
  | kill hk => exact hk.elim

/-- A step once the claim is made. -/
theorem inv_step_after (h : L.Protects t onErr) {i : ℕ} {s : Slot S F O R}
    (hi : w.slots[i]? = some (some s)) (hc : L.Claimed w.db)
    (hfin : ∀ d' r os, Resume Q w.db d' r os s →
      Proc.Finishes Q d₀ (.txn t onErr) d' r (w.calls ++ os))
    (hs : ∀ (j : ℕ) s', j ≠ i → w.slots[j]? = some s' → After L t onErr s')
    (hst : World.Step (World.Rules.deliveries Q (.txn t onErr)) w l w') :
    Inv L Q d₀ t onErr w' := by
  have slot_eq : ∀ {s'}, w.slots[i]? = some (some s') → s' = s := fun hi' =>
    Option.some.inj (Option.some.inj (hi'.symm.trans hi))
  by_cases hstep : l = .step i
  · -- the process that made the claim goes on; what it can end with stays
    subst hstep
    cases hst with
    | @call _ o k hi' =>
      obtain rfl := slot_eq hi'
      exact inv_step_winner hi hc hfin hs (.idle k) [] [o] fun d' r os hr => .call hr
    | @go _ c c' e hi' _ _ hn =>
      obtain rfl := slot_eq hi'
      have := inv_step_winner hi hc hfin hs (.busy c' e) [] [] fun d' r os hr => by
        simpa only [Resume, List.nil_append, S.applyAll_nil, Session.result_of_go hn] using hr
      simpa using this
    | @commit _ c p e hi' hn =>
      obtain rfl := slot_eq hi'
      have := inv_step_winner hi hc hfin hs (.idle p) c.writes [] fun d' r os hr =>
        .inl ⟨p, _, Session.result_of_commit hn, hr⟩
      simpa [Session.view] using this
    | @abort _ c x e hi' hn =>
      obtain rfl := slot_eq hi'
      have := inv_step_winner hi hc hfin hs (.idle (e x)) [] [] fun d' r os hr =>
        .inr ⟨x, Session.result_of_abort hn, hr⟩
      simpa using this
  · by_cases hbegin : ∃ f, l = .begin i f
    · -- it begins another transaction
      obtain ⟨f, rfl⟩ := hbegin
      cases hst with
      | @«begin» _ _ t' e hf hi' =>
        obtain rfl := slot_eq hi'
        have := inv_step_winner hi hc hfin hs (.busy (.start (t' f)) e) [] []
          fun d' r os hr => by
            rcases hr with ⟨p, d₁, hr, hp⟩ | ⟨x, hr, hp⟩
            · exact .commit hf hr hp
            · exact .abort hf hr hp
        simpa using this
    · exact inv_step_other h hi hc hfin hs hst hstep fun f hl => hbegin ⟨f, hl⟩

/-- **Any number of interleaved executions of a protected process leave what a single execution
leaves**: once all of them have returned, the tables and the calls made are those of one process
running alone from the tables at the start. -/
theorem absorbs [DecidableEq S.Lock] (h : L.Protects t onErr)
    (hr : (World.lts (World.Rules.deliveries Q (.txn t onErr)) (· = d₀)).Reachable w)
    (hne : w.slots ≠ []) (hdone : ∀ s ∈ w.slots, ∃ r, s = some (.idle (.done r))) :
    ∃ r, Proc.Finishes Q d₀ (.txn t onErr) w.db r w.calls := by
  have hinv : (World.Exclusive w.slots ∧ World.AllNested w.slots) ∧ Inv L Q d₀ t onErr w := by
    refine hr.invariant (I := fun w => (World.Exclusive w.slots ∧ World.AllNested w.slots) ∧
      Inv L Q d₀ t onErr w) ?_ ?_
    · rintro _ ⟨d, rfl, rfl⟩
      exact ⟨World.exclusive (P := World.Rules.deliveries Q (.txn t onErr)) (.init ⟨d, rfl, rfl⟩),
        .before rfl rfl fun j s hj => by simp [World.idle] at hj⟩
    · rintro w l w' ⟨hx, hi⟩ hst
      refine ⟨World.exclusive_step hx hst, ?_⟩
      cases hi with
      | before hd hcalls hs => exact inv_step_before h hd hcalls hs hx.1 (World.step_cases hst)
      | after i s hi hc hfin hs => exact inv_step_after h hi hc hfin hs (World.step_cases hst)
  cases hinv.2 with
  -- without a claim, every process has ended without an effect
  | before hd hcalls hs =>
    obtain ⟨s, hs'⟩ := List.exists_mem_of_ne_nil _ hne
    obtain ⟨j, hj⟩ := List.mem_iff_getElem?.1 hs'
    obtain ⟨r, rfl⟩ := hdone s hs'
    rcases hs j _ hj with hp | ⟨r', -, hf⟩
    · cases hp
    · exact ⟨r', by rwa [hd, hcalls]⟩
  -- otherwise the process that made it has ended as one that runs alone
  | after i s hi hc hfin hs =>
    obtain ⟨r, hr⟩ := hdone _ (List.mem_of_getElem? hi)
    obtain rfl := Option.some.inj hr
    exact ⟨r, by simpa using hfin w.db r [] .done⟩

end Protects

/-- Processes whose concurrent executions amount to one. -/
inductive Absorbing : Proc S F O R → Prop
  | done (r : R) : Absorbing (.done r)
  | txn {t : F → Tx S (Proc S F O R)} {onErr : S.Err → Proc S F O R} :
      L.Protects t onErr → Absorbing (.txn t onErr)

/-- **Once any number of interleaved executions of an absorbing process have returned, the tables
and the calls made are those of one execution alone.** -/
theorem Absorbing.absorbs {L : Ledger S} [DecidableEq S.Lock] {p : Proc S F O R}
    (h : L.Absorbing p) {Q : S.Db → F → Prop} {d₀ : S.Db} {w : World S F O R}
    (hr : (World.lts (World.Rules.deliveries Q p) (· = d₀)).Reachable w)
    (hne : w.slots ≠ []) (hdone : ∀ s ∈ w.slots, ∃ r, s = some (.idle (.done r))) :
    ∃ r, Proc.Finishes Q d₀ p w.db r w.calls := by
  cases h with
  | txn h => exact h.absorbs hr hne hdone
  | done r =>
    -- a process that has returned makes no step
    have hinv : w.db = d₀ ∧ w.calls = [] ∧ ∀ s ∈ w.slots, s = some (.idle (.done r)) := by
      refine hr.invariant (I := fun w => w.db = d₀ ∧ w.calls = [] ∧
        ∀ s ∈ w.slots, s = some (.idle (.done r))) ?_ ?_
      · rintro _ ⟨d, rfl, rfl⟩
        exact ⟨rfl, rfl, fun s hs => by cases hs⟩
      · rintro w l w' ⟨hd, hcalls, hs⟩ hst
        cases World.step_cases hst with
        | start hp =>
          refine ⟨hd, hcalls, fun s hm => ?_⟩
          rcases List.mem_append.1 hm with hm | hm
          · exact hs s hm
          · rw [List.mem_singleton.1 hm, show _ = _ from hp]
        | «begin» _ hi => cases hs _ (List.mem_of_getElem? hi)
        | call hi => cases hs _ (List.mem_of_getElem? hi)
        | go hi _ _ _ => cases hs _ (List.mem_of_getElem? hi)
        | commit hi _ => cases hs _ (List.mem_of_getElem? hi)
        | abort hi _ => cases hs _ (List.mem_of_getElem? hi)
        | kill hk => exact hk.elim
    exact ⟨r, by rw [hinv.1, hinv.2.1]; exact .done⟩

end Ledger

/-! ### Up to what is drawn -/

/-- The process has returned. -/
def Slot.returned : Option (Slot S F O R) → Bool
  | some (.idle (.done _)) => true
  | _ => false

theorem Slot.eq_of_returned {s : Option (Slot S F O R)} (h : Slot.returned s = true) :
    ∃ r, s = some (.idle (.done r)) := by
  unfold Slot.returned at h
  split at h
  · exact ⟨_, rfl⟩
  · cases h

/-- Some process has been started, and all have returned. -/
def World.Ended (w : World S F O R) : Prop :=
  w.slots ≠ [] ∧ ∀ s ∈ w.slots, ∃ r, s = some (.idle (.done r))

theorem World.Ended.of_returned {w : World S F O R} (hne : w.slots ≠ [])
    (h : w.slots.all Slot.returned) : w.Ended :=
  ⟨hne, fun s hs => Slot.eq_of_returned (List.all_eq_true.1 h s hs)⟩

/-- Up to `forget`, what a process running alone leaves does not depend on what it draws; the
calls it makes do not at all. -/
def Proc.Determined {X : Type} (Q : S.Db → F → Prop) (forget : S.Db → X) (p : Proc S F O R) :
    Prop :=
  ∀ d d₁ d₂ r₁ r₂ os₁ os₂, p.Finishes Q d d₁ r₁ os₁ → p.Finishes Q d d₂ r₂ os₂ →
    forget d₁ = forget d₂ ∧ os₁ = os₂

/-- Once all of any number of interleaved executions of `p` have returned, the tables and the calls
made are those of one of them alone, whichever that is up to `forget`. -/
def Proc.Absorbs {X : Type} [DecidableEq S.Lock] (Q : S.Db → F → Prop) (forget : S.Db → X)
    (p : Proc S F O R) : Prop :=
  ∀ d w, (World.lts (World.Rules.deliveries Q p) (· = d)).Reachable w → w.Ended →
    (∃ r, p.Finishes Q d w.db r w.calls) ∧
      ∀ d' r os, p.Finishes Q d d' r os → forget w.db = forget d' ∧ w.calls = os

theorem Ledger.Absorbing.determined {X : Type} [DecidableEq S.Lock] {L : Ledger S}
    {Q : S.Db → F → Prop} {forget : S.Db → X} {p : Proc S F O R} (h : L.Absorbing p)
    (hdet : p.Determined Q forget) : p.Absorbs Q forget := by
  intro d w hr ⟨hne, hdone⟩
  obtain ⟨r, hfin⟩ := h.absorbs hr hne hdone
  exact ⟨⟨r, hfin⟩, fun d' r' os hfin' => hdet _ _ _ _ _ _ _ hfin hfin'⟩

/-- The tables after a transaction, committed or rolled back. -/
def Tx.after {A : Type} (t : Tx S A) (d : S.Db) : S.Db :=
  match t.run d with
  | .ok (_, d') => d'
  | .error _ => d

/-- What a process of one transaction leaves when it runs alone. -/
theorem Proc.Finishes.after {Q : S.Db → F → Prop} {t : F → Tx S (Proc S F O R)}
    {onErr : S.Err → Proc S F O R} {d d' : S.Db} {r : R} {os : List O}
    (h : Finishes Q d (.txn t onErr) d' r os)
    (hend : ∀ d f p d', (t f).run d = .ok (p, d') → ∃ r, p = .done r)
    (herr : ∀ x, ∃ r, onErr x = .done r) : ∃ f, Q d f ∧ d' = (t f).after d ∧ os = [] := by
  obtain ⟨f, hf, ⟨p, d₁, hrun, h⟩ | ⟨x, hrun, h⟩⟩ := h.of_txn
  · obtain ⟨r', rfl⟩ := hend d f p d₁ hrun
    obtain ⟨hd, -, hos⟩ := h.of_done
    exact ⟨f, hf, by rw [hd, Tx.after, hrun], hos⟩
  · obtain ⟨r', hr⟩ := herr x
    rw [hr] at h
    obtain ⟨hd, -, hos⟩ := h.of_done
    exact ⟨f, hf, by rw [hd, Tx.after, hrun], hos⟩

/-- A process of one transaction. -/
theorem Proc.Determined.of_txn {X : Type} {Q : S.Db → F → Prop} {forget : S.Db → X}
    {t : F → Tx S (Proc S F O R)} {onErr : S.Err → Proc S F O R}
    (hend : ∀ d f p d', (t f).run d = .ok (p, d') → ∃ r, p = .done r)
    (herr : ∀ x, ∃ r, onErr x = .done r)
    (hafter : ∀ d f f', Q d f → Q d f' → forget ((t f).after d) = forget ((t f').after d)) :
    Determined Q forget (.txn t onErr) := by
  intro d d₁ d₂ r₁ r₂ os₁ os₂ h₁ h₂
  obtain ⟨f₁, hf₁, rfl, rfl⟩ := h₁.after hend herr
  obtain ⟨f₂, hf₂, rfl, rfl⟩ := h₂.after hend herr
  exact ⟨hafter d f₁ f₂ hf₁ hf₂, rfl⟩

end FoodFlow
