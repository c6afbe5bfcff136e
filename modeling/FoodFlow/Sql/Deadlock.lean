import FoodFlow.Sql.ReadCommitted
import Mathlib.Data.Finset.Max

/-!
# Locking in an order

A statement waits while another transaction owns what it needs, and so transactions can come to
wait for each other.  They do not when all of them lock in one order, given by a rank of the locks:
a transaction that owns the lock of the highest rank has nobody to wait for.

* `Tx.Ascends` : a program that locks in that order.  What it has locked since a savepoint is given
  up by a rollback, but it does not go back to locks of a lower rank then;
* `World.Ordered` : a world all of whose transactions do, kept by every step
  (`World.Ordered.step`);
* `World.exists_run_alone` : a transaction above which nobody owns anything runs to its end;
* `World.exists_run_idle` : **all open transactions can come to their end**, one after the other;
* `World.Stuck` : nothing can happen any more, except that a process is killed.
-/

namespace FoodFlow

variable {S : Dbms} {α : Type} [LinearOrder α]

/-- The writes keep `I`. -/
def Dbms.Keeps (S : Dbms) (I : S.Db → Prop) (ws : List S.Write) : Prop :=
  ∀ d, I d → I (S.applyAll ws d)

theorem Dbms.keeps_of_forall {I : S.Db → Prop} {ws : List S.Write}
    (h : ∀ w ∈ ws, ∀ d, I d → I (S.apply w d)) : S.Keeps I ws := by
  intro d hd
  induction ws generalizing d with
  | nil => exact hd
  | cons w ws ih =>
    obtain ⟨hw, hws⟩ := List.forall_mem_cons.1 h
    exact ih hws _ (hw d hd)

theorem Dbms.Keeps.append {I : S.Db → Prop} {ws ws' : List S.Write} (h : S.Keeps I ws)
    (h' : S.Keeps I ws') : S.Keeps I (ws ++ ws') := fun d hd => by
  rw [S.applyAll_append]
  exact h' _ (h _ hd)

/-! ### Programs -/

namespace Tx

variable {A B : Type}

/-- The program locks in the order of `rank`: it owns `held`, owned `saved` at its open savepoints,
and what it locks next ranks above `b`, unless it owns it.  The tables it sees satisfy `I`, which it
keeps; `Q` speaks of what it ends with, and of `b` then. -/
def Ascends (rank : S.Lock → α) (I : S.Db → Prop) (Q : Except S.Err A → α → Prop) :
    α → List S.Lock → List (List S.Lock) → Tx S A → Prop
  | b, _, _, .pure a => Q (.ok a) b
  | b, _, _, .throw e => Q (.error e) b
  | b, held, saved, .stmt q k => ∀ d, I d → ∃ b', b ≤ b' ∧
      (∀ l ∈ S.needs q d, l ∈ held ∨ b < rank l ∧ rank l ≤ b') ∧
        ∀ r ws, S.exec q d = .ok (r, ws) → S.Keeps I ws ∧
          Ascends rank I Q b' (held ++ S.needs q d) saved (k r)
  | b, held, saved, .savepoint k => Ascends rank I Q b held (held :: saved) k
  | b, held, saved, .release k => Ascends rank I Q b held saved.tail k
  | b, held, saved, .rollbackTo k => Ascends rank I Q b (saved.headD held) saved.tail k

variable {rank : S.Lock → α} {I : S.Db → Prop} {Q : Except S.Err A → α → Prop}
  {Q' : Except S.Err B → α → Prop} {b c : α} {held : List S.Lock} {saved : List (List S.Lock)}
  {m : Tx S A} {q : S.Stmt} {k : S.Res q → Tx S A}

/-- A statement that locks nothing. -/
theorem ascends_free (hneeds : ∀ d, S.needs q d = []) (hk : ∀ d r ws, I d →
      S.exec q d = .ok (r, ws) → S.Keeps I ws ∧ (k r).Ascends rank I Q b held saved) :
    (Tx.stmt q k).Ascends rank I Q b held saved := by
  refine fun d hd => ⟨b, le_rfl, by simp [hneeds], fun r ws hx => ?_⟩
  obtain ⟨hws, hr⟩ := hk d r ws hd hx
  exact ⟨hws, by rwa [hneeds, List.append_nil]⟩

/-- A statement whose locks are owned or rank above `b`, and at most `c`. -/
theorem ascends_lock (hb : b ≤ c)
    (hneeds : ∀ d, ∀ l ∈ S.needs q d, l ∈ held ∨ b < rank l ∧ rank l ≤ c)
    (hk : ∀ d r ws, I d → S.exec q d = .ok (r, ws) →
      S.Keeps I ws ∧ (k r).Ascends rank I Q c (held ++ S.needs q d) saved) :
    (Tx.stmt q k).Ascends rank I Q b held saved :=
  fun d hd => ⟨c, hb, hneeds d, fun r ws hx => hk d r ws hd hx⟩

theorem Ascends.bind (h : m.Ascends rank I Q b held saved) {f : A → Tx S B}
    (hf : ∀ a b' held' saved', Q (.ok a) b' → (f a).Ascends rank I Q' b' held' saved')
    (herr : ∀ e b', Q (.error e) b' → Q' (.error e) b') :
    (m.bind f).Ascends rank I Q' b held saved := by
  induction m generalizing b held saved with
  | pure a => exact hf a _ _ _ h
  | throw e => exact herr e _ h
  | stmt q k ih =>
    intro d hd
    obtain ⟨b', hb, hneeds, hk⟩ := h d hd
    refine ⟨b', hb, hneeds, fun r ws hx => ?_⟩
    obtain ⟨hws, hr⟩ := hk r ws hx
    exact ⟨hws, ih r hr⟩
  | savepoint k ih => exact ih h
  | release k ih => exact ih h
  | rollbackTo k ih => exact ih h

/-- A block with a savepoint. -/
theorem Ascends.nested (h : m.Ascends rank I Q b held (held :: saved)) {ok : A → Tx S B}
    {err : S.Err → Tx S B}
    (hok : ∀ a b' held' saved', Q (.ok a) b' → (ok a).Ascends rank I Q' b' held' saved')
    (herr : ∀ e b' held' saved', Q (.error e) b' → (err e).Ascends rank I Q' b' held' saved') :
    (nested m ok err).Ascends rank I Q' b held saved := by
  have inside : ∀ (m : Tx S A) (b : α) (held : List S.Lock) (saved : List (List S.Lock)),
      m.Ascends rank I Q b held saved →
        (nested.inside ok err m).Ascends rank I Q' b held saved := by
    intro m
    induction m with
    | pure a => exact fun b held saved h => hok a _ _ _ h
    | throw e => exact fun b held saved h => herr e _ _ _ h
    | stmt q k ih =>
      intro b held saved h d hd
      obtain ⟨b', hb, hneeds, hk⟩ := h d hd
      refine ⟨b', hb, hneeds, fun r ws hx => ?_⟩
      obtain ⟨hws, hr⟩ := hk r ws hx
      exact ⟨hws, ih r _ _ _ hr⟩
    | savepoint k ih => exact fun b held saved h => ih _ _ _ h
    | release k ih => exact fun b held saved h => ih _ _ _ h
    | rollbackTo k ih => exact fun b held saved h => ih _ _ _ h
  exact inside m _ _ _ h

end Tx

/-! ### Transactions in progress -/

namespace Session

variable {A : Type} {rank : S.Lock → α} {I : S.Db → Prop} {Q : Except S.Err A → α → Prop} {b : α}
  {c c' : Session S A} {d : S.Db}

/-- The transaction goes on locking in the order of `rank`, above `b`. -/
structure Ascends (rank : S.Lock → α) (I : S.Db → Prop) (Q : Except S.Err A → α → Prop) (b : α)
    (c : Session S A) : Prop where
  prog : c.prog.Ascends rank I Q b c.held (c.saves.map Prod.snd)
  below : ∀ h ∈ c.held, rank h ≤ b
  savedBelow : ∀ s ∈ c.saves, ∀ h ∈ s.2, rank h ≤ b
  keeps : S.Keeps I c.writes
  savedKeeps : ∀ s ∈ c.saves, S.Keeps I s.1

theorem ascends_start {t : Tx S A} (h : t.Ascends rank I Q b [] []) :
    (start t).Ascends rank I Q b where
  prog := h
  below := by simp [start]
  savedBelow := by simp [start]
  keeps := fun d hd => hd
  savedKeeps := by simp [start]

/-- What the next statement needs is owned, or ranks above all that is. -/
theorem Ascends.needs (h : c.Ascends rank I Q b) (hd : I d) :
    ∀ l ∈ c.needs d, l ∈ c.held ∨ b < rank l := by
  obtain ⟨prog, writes, held, saves⟩ := c
  cases prog with
  | stmt q k =>
    obtain ⟨b', -, hneeds, -⟩ := h.prog _ (h.keeps d hd)
    exact fun l hl => (hneeds l hl).imp_right And.left
  | _ => simp [Session.needs]

theorem Ascends.next (h : c.Ascends rank I Q b) (hd : I d) (hn : c.next d = .go c') :
    ∃ b', b ≤ b' ∧ c'.Ascends rank I Q b' := by
  obtain ⟨prog, writes, held, saves⟩ := c
  obtain ⟨hprog, hbelow, hsaved, hkeeps, hskeeps⟩ := h
  cases prog with
  | pure a => cases hn
  | throw e => cases hn
  | stmt q k =>
    obtain ⟨b', hb, hneeds, hk⟩ := hprog _ (hkeeps d hd)
    simp only [Session.next] at hn
    split at hn
    · cases hn
    · rename_i r ws hx
      obtain rfl := Next.go.inj hn
      obtain ⟨hws, hr⟩ := hk r ws hx
      refine ⟨b', hb, hr, fun l hl => ?_, fun s hs l hl => (hsaved s hs l hl).trans hb,
        hkeeps.append hws, hskeeps⟩
      rcases List.mem_append.1 hl with hl | hl
      · exact (hbelow l hl).trans hb
      · rcases hneeds l hl with hm | ⟨-, hle⟩
        · exact (hbelow l hm).trans hb
        · exact hle
  | savepoint k =>
    obtain rfl := Next.go.inj hn
    exact ⟨b, le_rfl, hprog, hbelow, List.forall_mem_cons.2 ⟨hbelow, hsaved⟩, hkeeps,
      List.forall_mem_cons.2 ⟨hkeeps, hskeeps⟩⟩
  | release k =>
    obtain rfl := Next.go.inj hn
    refine ⟨b, le_rfl, ?_, hbelow, fun s hs => hsaved s (List.mem_of_mem_tail hs), hkeeps,
      fun s hs => hskeeps s (List.mem_of_mem_tail hs)⟩
    rw [List.map_tail]
    exact hprog
  | rollbackTo k =>
    obtain rfl := Next.go.inj hn
    cases saves with
    | nil => exact ⟨b, le_rfl, hprog, hbelow, hsaved, hkeeps, hskeeps⟩
    | cons s saves =>
      -- it keeps to what ranks above `b`, though it owns less
      obtain ⟨hs, hrest⟩ := List.forall_mem_cons.1 hsaved
      obtain ⟨hs', hrest'⟩ := List.forall_mem_cons.1 hskeeps
      exact ⟨b, le_rfl, hprog, hs, hrest, hs', hrest'⟩

theorem Ascends.commit (h : c.Ascends rank I Q b) (hd : I d) {a : A} (hn : c.next d = .commit a) :
    Q (.ok a) b ∧ I (c.view d) := by
  refine ⟨?_, h.keeps d hd⟩
  have hprog := h.prog
  rw [prog_of_commit hn] at hprog
  exact hprog

theorem next_of_stmt {q : S.Stmt} {k : S.Res q → Tx S A} {r : S.Res q} {ws : List S.Write}
    (hp : c.prog = .stmt q k) (hx : S.exec q (c.view d) = .ok (r, ws)) :
    c.next d = .go ⟨k r, c.writes ++ ws, c.held ++ S.needs q (c.view d), c.saves⟩ := by
  rw [next, hp]
  simp only [hx]

/-- A transaction can take only so many steps. -/
theorem next_induction {motive : Session S A → Prop}
    (h : ∀ c, (∀ d c', c.next d = .go c' → motive c') → motive c) (c : Session S A) : motive c := by
  obtain ⟨prog, writes, held, saves⟩ := c
  induction prog generalizing writes held saves with
  | pure a => exact h _ fun d c' hn => by cases hn
  | throw e => exact h _ fun d c' hn => by cases hn
  | stmt q k ih =>
    refine h _ fun d c' hn => ?_
    simp only [Session.next] at hn
    split at hn
    · cases hn
    · obtain rfl := Next.go.inj hn
      exact ih _ _ _ _
  | savepoint k ih =>
    refine h _ fun d c' hn => ?_
    obtain rfl := Next.go.inj hn
    exact ih _ _ _
  | release k ih =>
    refine h _ fun d c' hn => ?_
    obtain rfl := Next.go.inj hn
    exact ih _ _ _
  | rollbackTo k ih =>
    refine h _ fun d c' hn => ?_
    obtain rfl := Next.go.inj hn
    exact ih _ _ _

end Session

/-! ### Worlds -/

namespace World

variable {F O R : Type} {rank : S.Lock → α} {I I₀ : S.Db → Prop} {J : Proc S F O R → Prop}
  {P : Rules S F O R} {w w' : World S F O R} {i : ℕ} {b : α}

/-- A transaction returns one of the processes `J`. -/
def Returns (J : Proc S F O R → Prop) (r : Except S.Err (Proc S F O R)) (_ : α) : Prop :=
  ∀ p, r = .ok p → J p

/-- Every transaction of the processes `J` locks in the order of `rank`. -/
structure Disciplined (rank : S.Lock → α) (I : S.Db → Prop) (J : Proc S F O R → Prop) : Prop where
  call : ∀ o k, J (.call o k) → J k
  txn : ∀ t e f, J (.txn t e) → ∃ b, (t f).Ascends rank I (Returns J) b [] []
  err : ∀ t e x, J (.txn t e) → J (e x)

/-- All transactions go on locking in the order of `rank`. -/
structure Ordered (rank : S.Lock → α) (I : S.Db → Prop) (J : Proc S F O R → Prop)
    (w : World S F O R) : Prop where
  exclusive : Exclusive w.slots
  nested : AllNested w.slots
  db : I w.db
  slots : ∀ s, some s ∈ w.slots → s.Sat (fun _ => J)
    (fun _ c e => (∃ b, c.Ascends rank I (Returns J) b) ∧ ∀ x, J (e x)) w.db

/-- The process is inside a transaction. -/
def isBusy : Option (Slot S F O R) → Bool
  | some (.busy _ _) => true
  | _ => false

theorem isBusy_iff {s : Option (Slot S F O R)} :
    isBusy s = true ↔ ∃ c e, s = some (.busy c e) := by
  cases s with
  | none => simp [isBusy]
  | some s => cases s <;> simp [isBusy]

theorem isBusy_of_held {s : Option (Slot S F O R)} {l : S.Lock} (h : l ∈ held s) :
    isBusy s = true := by
  cases s with
  | none => cases h
  | some s =>
    cases s with
    | idle p => cases h
    | busy c e => rfl

/-- Nobody but process `i` owns a lock that ranks above `b`. -/
def Tops (rank : S.Lock → α) (w : World S F O R) (i : ℕ) (b : α) : Prop :=
  ∀ j s, j ≠ i → w.slots[j]? = some s → ∀ l ∈ held s, rank l ≤ b

/-- A transaction above which nobody owns anything does not wait. -/
theorem Ordered.free (h : w.Ordered rank I J) {c : Session S (Proc S F O R)}
    {e : S.Err → Proc S F O R} (hi : w.slots[i]? = some (some (.busy c e)))
    (hc : c.Ascends rank I (Returns J) b) (htop : Tops rank w i b) :
    w.Free i (c.needs w.db) := by
  intro j s hj hs l hl hm
  rcases hc.needs h.db l hl with hown | hlt
  · exact h.exclusive i j _ _ (Ne.symm hj) hi hs hown hm
  · exact absurd (htop j s hj hs l hm) (not_le.2 hlt)

variable [DecidableEq S.Lock]

theorem Ordered.step (hJ : Disciplined rank I J) (hstart : ∀ p, P.start p → J p)
    (h : w.Ordered rank I J) {l : Label S F O R} (hst : (lts P I₀).step w l w') :
    w'.Ordered rank I J := by
  obtain ⟨hx, hn⟩ := exclusive_step ⟨h.exclusive, h.nested⟩ hst
  -- a step that leaves the tables as they are, and the other processes
  have others {i : ℕ} {s' : Option (Slot S F O R)} (hs' : ∀ s, s' = some s → s.Sat (fun _ => J)
      (fun _ c e => (∃ b, c.Ascends rank I (Returns J) b) ∧ ∀ x, J (e x)) w.db) :
      ∀ s, some s ∈ w.slots.set i s' → s.Sat (fun _ => J)
        (fun _ c e => (∃ b, c.Ascends rank I (Returns J) b) ∧ ∀ x, J (e x)) w.db := by
    intro s hs
    rcases List.mem_or_eq_of_mem_set hs with hs | hs
    · exact h.slots s hs
    · exact hs' s hs.symm
  cases step_cases hst with
  | start hp =>
    refine ⟨hx, hn, h.db, fun s hs => ?_⟩
    rcases List.mem_append.1 hs with hs | hs
    · exact h.slots s hs
    · obtain rfl := Option.some.inj (List.mem_singleton.1 hs)
      exact hstart _ hp
  | @«begin» i f t e _ hi =>
    refine ⟨hx, hn, h.db, others ?_⟩
    rintro s ⟨⟩
    have hp : J (.txn t e) := h.slots _ (List.mem_of_getElem? hi)
    obtain ⟨b, hb⟩ := hJ.txn t e f hp
    exact ⟨⟨b, Session.ascends_start hb⟩, fun x => hJ.err t e x hp⟩
  | call hi =>
    refine ⟨hx, hn, h.db, others ?_⟩
    rintro s ⟨⟩
    exact hJ.call _ _ (h.slots _ (List.mem_of_getElem? hi))
  | go hi _ _ hgo =>
    refine ⟨hx, hn, h.db, others ?_⟩
    rintro s ⟨⟩
    obtain ⟨⟨b, hb⟩, he⟩ := h.slots _ (List.mem_of_getElem? hi)
    obtain ⟨b', -, hb'⟩ := hb.next h.db hgo
    exact ⟨⟨b', hb'⟩, he⟩
  | commit hi hcommit =>
    obtain ⟨⟨b, hb⟩, -⟩ := h.slots _ (List.mem_of_getElem? hi)
    obtain ⟨hp, hdb⟩ := hb.commit h.db hcommit
    refine ⟨hx, hn, hdb, fun s hs => ?_⟩
    rcases List.mem_or_eq_of_mem_set hs with hs | hs
    · exact h.slots s hs
    · obtain rfl := Option.some.inj hs
      exact hp _ rfl
  | abort hi _ =>
    refine ⟨hx, hn, h.db, others ?_⟩
    rintro s ⟨⟩
    exact (h.slots _ (List.mem_of_getElem? hi)).2 _
  | kill _ => exact ⟨hx, hn, h.db, others (by simp)⟩

theorem ordered (hJ : Disciplined rank I J) (hstart : ∀ p, P.start p → J p)
    (hI : ∀ d, I₀ d → I d) (h : (lts P I₀).Reachable w) : w.Ordered rank I J := by
  refine h.invariant ?_ fun _ _ _ hw hst => hw.step hJ hstart hst
  rintro _ ⟨d, hd, rfl⟩
  obtain ⟨hx, hn⟩ := exclusive (P := P) (.init ⟨d, hd, rfl⟩)
  exact ⟨hx, hn, hI d hd, fun s hs => by cases hs⟩

/-! ### One after the other -/

/-- Only open transactions and external calls go on. -/
def Stepped (_ : World S F O R) (l : Label S F O R) : Prop := ∃ i, l = .step i

theorem blocked_iff {ls : List S.Lock} : w.blocked i ls = true ↔
    ∃ j s, j ≠ i ∧ w.slots[j]? = some s ∧ ∃ l ∈ ls, l ∈ held s := by
  simp only [blocked, List.any_eq_true, List.mem_eraseIdx_iff_getElem?, decide_eq_true_eq]
  constructor
  · rintro ⟨s, ⟨j, hj, hs⟩, hl⟩
    exact ⟨j, s, hj, hs, hl⟩
  · rintro ⟨j, s, hj, hs, hl⟩
    exact ⟨s, ⟨j, hj, hs⟩, hl⟩

theorem blocked_of_free {ls : List S.Lock} (h : w.Free i ls) : w.blocked i ls = false := by
  by_contra hb
  obtain ⟨j, s, hj, hs, l, hl, hm⟩ := blocked_iff.1 (Bool.eq_true_of_not_eq_false hb)
  exact h j s hj hs hl hm

/-- It runs to its end. -/
theorem exists_run_alone (hJ : Disciplined rank I J) (hstart : ∀ p, P.start p → J p)
    (hnext : ∀ d c, P.next d c) (c : Session S (Proc S F O R)) :
    ∀ {w : World S F O R} {b : α} {e}, w.Ordered rank I J →
      w.slots[i]? = some (some (.busy c e)) → c.Ascends rank I (Returns J) b → Tops rank w i b →
      ∃ ls w' p, ((lts P I₀).restrict Stepped).Run w ls w' ∧
        w'.slots = w.slots.set i (some (.idle p)) := by
  induction c using Session.next_induction with
  | h c ih =>
    intro w b e hw hi hc htop
    have hb := blocked_of_free (hw.free hi hc htop)
    have hst {w' : World S F O R} (ha : w.act (.step i) = some w') :
        ((lts P I₀).restrict Stepped).step w (.step i) w' :=
      ⟨⟨i, rfl⟩, fun _ _ _ => hnext _ _, ha⟩
    cases hn : c.next w.db with
    | commit p =>
      have ha : w.act (.step i) =
          some { w with db := c.view w.db, slots := w.slots.set i (some (.idle p)) } := by
        simp [act, hi, hb, hn]
      exact ⟨_, _, p, .single (hst ha), rfl⟩
    | abort x =>
      have ha : w.act (.step i) = some { w with slots := w.slots.set i (some (.idle (e x))) } := by
        simp [act, hi, hb, hn]
      exact ⟨_, _, e x, .single (hst ha), rfl⟩
    | go c' =>
      have ha : w.act (.step i) = some { w with slots := w.slots.set i (some (.busy c' e)) } := by
        simp [act, hi, hb, hn]
      have hgo := hst ha
      obtain ⟨b', hle, hc'⟩ := hc.next hw.db hn
      have hi' : (w.slots.set i (some (.busy c' e)))[i]? = some (some (.busy c' e)) := by
        rw [getElem?_set_of_some hi, if_pos rfl]
      have htop' : Tops rank { w with slots := w.slots.set i (some (.busy c' e)) } i b' := by
        intro j s hj hs l hl
        rw [getElem?_set_of_some hi, if_neg (Ne.symm hj)] at hs
        exact (htop j s hj hs l hl).trans hle
      obtain ⟨ls, w', p, hr, hslots⟩ := ih _ _ hn (hw.step hJ hstart hgo.2) hi' hc' htop'
      exact ⟨_, w', p, hr.cons hgo, by rw [hslots, List.set_set]⟩

/-- The owner of the lock of the highest rank has nobody above it. -/
theorem Ordered.exists_top (h : w.Ordered rank I J) {c : Session S (Proc S F O R)}
    {e : S.Err → Proc S F O R} (hbusy : some (.busy c e) ∈ w.slots) :
    ∃ i c e b, w.slots[i]? = some (some (.busy c e)) ∧ c.Ascends rank I (Returns J) b ∧
      Tops rank w i b := by
  by_cases hL : w.slots.flatMap held = []
  · -- nobody owns anything
    obtain ⟨i, hi⟩ := List.mem_iff_getElem?.1 hbusy
    obtain ⟨⟨b, hb⟩, -⟩ := h.slots _ hbusy
    refine ⟨i, c, e, b, hi, hb, fun j s _ hs l hl => ?_⟩
    have hm : l ∈ w.slots.flatMap held := List.mem_flatMap.2 ⟨s, List.mem_of_getElem? hs, hl⟩
    rw [hL] at hm
    cases hm
  · obtain ⟨m, hm, hmax⟩ := (w.slots.flatMap held).toFinset.exists_max_image rank
      (List.toFinset_nonempty_iff _ |>.2 hL)
    obtain ⟨s, hs, hown⟩ := List.mem_flatMap.1 (List.mem_toFinset.1 hm)
    obtain ⟨i, hi⟩ := List.mem_iff_getElem?.1 hs
    obtain ⟨c, e, rfl⟩ := isBusy_iff.1 (isBusy_of_held hown)
    obtain ⟨⟨b, hb⟩, -⟩ := h.slots _ hs
    refine ⟨i, c, e, b, hi, hb, fun j s _ hj l hl => ?_⟩
    have hl : l ∈ (w.slots.flatMap held).toFinset :=
      List.mem_toFinset.2 (List.mem_flatMap.2 ⟨s, List.mem_of_getElem? hj, hl⟩)
    exact (hmax l hl).trans (hb.below m hown)

/-- **All open transactions can come to their end**: nobody has to be killed. -/
theorem exists_run_idle (hJ : Disciplined rank I J) (hstart : ∀ p, P.start p → J p)
    (hnext : ∀ d c, P.next d c) (h : w.Ordered rank I J) :
    ∃ ls w', ((lts P I₀).restrict Stepped).Run w ls w' ∧ ∀ s ∈ w'.slots, isBusy s = false := by
  induction hn : w.slots.countP isBusy using Nat.strongRecOn generalizing w with
  | ind n ih =>
    by_cases hidle : ∀ s ∈ w.slots, isBusy s = false
    · exact ⟨[], w, .refl, hidle⟩
    · obtain ⟨s, hs, hbusy⟩ : ∃ s ∈ w.slots, isBusy s = true := by simpa using hidle
      obtain ⟨c, e, rfl⟩ := isBusy_iff.1 hbusy
      obtain ⟨i, c, e, b, hi, hc, htop⟩ := h.exists_top hs
      obtain ⟨ls, w₁, p, hr, hslots⟩ : ∃ ls w₁ p, ((lts P I₀).restrict Stepped).Run w ls w₁ ∧
          w₁.slots = w.slots.set i (some (.idle p)) :=
        exists_run_alone hJ hstart hnext c h hi hc htop
      have h₁ : w₁.Ordered rank I J :=
        hr.of_restrict.invariant h fun _ _ _ hw hst => hw.step hJ hstart hst
      have hcount : w₁.slots.countP isBusy + 1 = n := by
        rw [hslots, ← hn]
        simpa [isBusy] using countP_set_add (y := some (.idle p)) isBusy hi
      obtain ⟨ls', w', hr', hend⟩ := ih _ (by omega) h₁ rfl
      exact ⟨_, w', hr.trans hr', hend⟩

/-! ### Deadlocks -/

/-- Every process is inside a transaction and waits. -/
def Stuck (w : World S F O R) : Prop :=
  ∀ i s, w.slots[i]? = some s →
    ∃ c e, s = some (.busy c e) ∧ w.blocked i (c.needs w.db) = true

/-- Then somebody has to be killed, unless others start. -/
theorem Stuck.kill (h : w.Stuck) (hstart : ∀ p, ¬ P.start p) {l : Label S F O R}
    (hst : (lts P I₀).step w l w') : ∃ i, l = .kill i := by
  obtain ⟨hg, ha⟩ := hst
  cases l with
  | start p => exact absurd hg (hstart p)
  | «begin» i f =>
    simp only [act] at ha
    split at ha
    · rename_i t e hi
      obtain ⟨c, e, hs, -⟩ := h i _ hi
      cases hs
    · cases ha
  | step i =>
    simp only [act] at ha
    split at ha
    · rename_i o k hi
      obtain ⟨c, e, hs, -⟩ := h i _ hi
      cases hs
    · rename_i c e hi
      obtain ⟨c, e, hs, hb⟩ := h i _ hi
      cases hs
      rw [if_pos hb] at ha
      cases ha
    · cases ha
  | kill i => exact ⟨i, rfl⟩

/-- The world with the transaction `c` in the place of process `i`. -/
def put (w : World S F O R) (i : ℕ) (c : Session S (Proc S F O R)) (e : S.Err → Proc S F O R) :
    World S F O R :=
  { w with slots := w.slots.set i (some (.busy c e)) }

theorem step_put {c c' : Session S (Proc S F O R)} {e : S.Err → Proc S F O R}
    (hi : i < w.slots.length) (hfree : w.Free i (c.needs w.db)) (hn : c.next w.db = .go c')
    (hnext : ∀ d c, P.next d c) : (lts P I₀).step (w.put i c e) (.step i) (w.put i c' e) := by
  refine ⟨fun _ _ _ => hnext _ _, ?_⟩
  have hslot : (w.slots.set i (some (.busy c e)))[i]? = some (some (.busy c e)) :=
    List.getElem?_set_self hi
  have hfree' : (w.put i c e).Free i (c.needs w.db) := by
    intro j s hj hs
    rw [put, List.getElem?_set_ne (Ne.symm hj)] at hs
    exact hfree j s hj hs
  have hb : (w.put i c e).blocked i (c.needs w.db) = false := blocked_of_free hfree'
  simp only [act, put, hslot] at hb ⊢
  simp [hb, hn]

end World

end FoodFlow
