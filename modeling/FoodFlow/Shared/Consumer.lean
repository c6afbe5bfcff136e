import FoodFlow.LTS.Basic
import FoodFlow.Sql.Tx
import Mathlib.Logic.Function.Basic

/-!
# Consumers of a partitioned log

`run_consumer`, the loop that every service has: a batch is fetched from the positions that the
consumer has in the partitions, its messages are handled one after the other, the exceptions of the
handler being logged and swallowed, and after the batch the positions are committed.  A consumer
that is started again begins at the committed offsets.

* `Consumer` : a handler, with what is asked of it;
* `Consumer.lts` : the loop, with failures of the database and crashes at any point;
* `Consumer.Sound` : what a handler does when no failure interrupts it;
* `Consumer.offsets` : **the committed offsets are past settled messages only, in every run in
  which no batch with a failed delivery is committed.**
-/

namespace FoodFlow

/-- A consumer: its handler and its database, and when a message counts as settled. -/
structure Consumer (S : Dbms) (F O R M : Type) where
  /-- `_handle_message` -/
  handle : M → Proc S F O R
  /-- What a transaction may draw. -/
  draws : S.Db → F → Prop
  /-- What the other clients of the database may do. -/
  other : S.Db → S.Db → Prop
  /-- The message has been entered into the ledger. -/
  entered : S.Db → M → Bool
  /-- There is a permanent reason to refuse the message. -/
  Refuses : S.Db → M → Prop
  /-- The message has the entries that its handler reads. -/
  readable : M → Bool
  /-- The statements of the handler accept the values of the message. -/
  storable : S.Db → M → Bool

namespace Consumer

variable {S : Dbms} {F O R M P : Type}

/-- Where the loop is.  `missed` are the messages of the batch whose delivery has met a failure. -/
inductive Mode (S : Dbms) (F O R M P : Type) where
  | down
  | polling (position : P → ℕ)
  | handling (position : P → ℕ) (batch missed : List M)
  | delivering (position : P → ℕ) (m : M) (p : Proc S F O R) (batch missed : List M)

/-- The database, the partitions with the committed offsets, and the loop. -/
structure State (S : Dbms) (F O R M P : Type) where
  db : S.Db
  log : P → List M
  committed : P → ℕ
  mode : Mode S F O R M P

/-- What happens. -/
inductive Label where
  | produce
  | other
  | start
  | poll
  | deliver
  | transaction
  | failure
  | call
  | finish
  | commit
  | crash
  deriving DecidableEq

section Loop

variable [DecidableEq P] (C : Consumer S F O R M)

/-- What `getmany` returns, the next `n q` messages of every partition `q` of `qs`. -/
def fetched (log : P → List M) (position : P → ℕ) (qs : List P) (n : P → ℕ) : List M :=
  qs.flatMap fun q => ((log q).drop (position q)).take (n q)

/-- The positions after `getmany`. -/
def advanced (position : P → ℕ) (qs : List P) (n : P → ℕ) : P → ℕ :=
  fun q => if q ∈ qs then position q + n q else position q

/-- The steps of the loop, and of what surrounds it. -/
inductive Step (s : State S F O R M P) : Label → State S F O R M P → Prop
  | produce (q : P) (m : M) :
      Step s .produce { s with log := Function.update s.log q (s.log q ++ [m]) }
  | other (d : S.Db) : C.other s.db d → Step s .other { s with db := d }
  /-- `create_consumer` -/
  | start : s.mode = .down → Step s .start { s with mode := .polling s.committed }
  | poll (position : P → ℕ) (qs : List P) (n : P → ℕ) : s.mode = .polling position →
      qs.Nodup → (∀ q ∈ qs, position q + n q ≤ (s.log q).length) →
      fetched s.log position qs n ≠ [] →
      Step s .poll { s with
        mode := .handling (advanced position qs n) (fetched s.log position qs n) [] }
  | deliver (position : P → ℕ) (m : M) (batch missed : List M) :
      s.mode = .handling position (m :: batch) missed →
      Step s .deliver { s with
        mode := .delivering position m (C.handle m) batch
          (if C.readable m || C.entered s.db m then missed else m :: missed) }
  | transaction (position : P → ℕ) (m : M) (t : F → Tx S (Proc S F O R))
      (e : S.Err → Proc S F O R) (batch missed : List M) (f : F) (p : Proc S F O R) (d : S.Db) :
      s.mode = .delivering position m (.txn t e) batch missed → C.draws s.db f →
      (t f).run s.db = .ok (p, d) →
      Step s .transaction { s with db := d, mode := .delivering position m p batch missed }
  | exception (position : P → ℕ) (m : M) (t : F → Tx S (Proc S F O R))
      (e : S.Err → Proc S F O R) (batch missed : List M) (f : F) (x : S.Err) :
      s.mode = .delivering position m (.txn t e) batch missed → C.draws s.db f →
      (t f).run s.db = .error x →
      Step s .transaction { s with
        mode := .delivering position m (e x) batch
          (if C.storable s.db m then missed else m :: missed) }
  /-- A failure that is not the handler's, while a transaction has not been committed or just has:
  the exception is swallowed by the loop. -/
  | failure (position : P → ℕ) (m : M) (p : Proc S F O R) (batch missed : List M) (d : S.Db) :
      s.mode = .delivering position m p batch missed →
      (d = s.db ∨ ∃ t e f p', p = .txn t e ∧ C.draws s.db f ∧ (t f).run s.db = .ok (p', d)) →
      Step s .failure { s with
        db := d
        mode := .handling position batch (if C.entered d m then missed else m :: missed) }
  | call (position : P → ℕ) (m : M) (o : O) (k : Proc S F O R) (batch missed : List M) :
      s.mode = .delivering position m (.call o k) batch missed →
      Step s .call { s with mode := .delivering position m k batch missed }
  | finish (position : P → ℕ) (m : M) (r : R) (batch missed : List M) :
      s.mode = .delivering position m (.done r) batch missed →
      Step s .finish { s with mode := .handling position batch missed }
  /-- `commit`, after the last message of the batch, whether or not it has been handled. -/
  | commit (position : P → ℕ) (missed : List M) : s.mode = .handling position [] missed →
      Step s .commit { s with committed := position, mode := .polling position }
  | crash : Step s .crash { s with mode := .down }

/-- The loop, starting with nothing committed. -/
def lts : LTS (State S F O R M P) Label where
  init s := s.mode = .down ∧ ∀ q, s.committed q = 0
  step := C.Step

/-- No delivery of a batch that is committed has met a failure. -/
def Unfailing (s : State S F O R M P) (l : Label) : Prop :=
  l = .commit → ∀ position missed, s.mode = .handling position [] missed → missed = []

/-- The loop, as long as no batch with a failed delivery is committed. -/
def careful : LTS (State S F O R M P) Label := C.lts.restrict Unfailing

variable {C}

/-- The message is being delivered. -/
def State.Delivers (s : State S F O R M P) (m : M) : Prop :=
  ∃ position p batch missed, s.mode = .delivering position m p batch missed

/-- The message has been handled: it is in the ledger, or has been refused for a permanent reason
at some point of the run. -/
def Settled (C : Consumer S F O R M) (tr : List (State S F O R M P × Label))
    (s : State S F O R M P) (m : M) : Prop :=
  C.entered s.db m = true ∨ ∃ x ∈ tr, x.1.Delivers m ∧ C.Refuses x.1.db m

/-- **Every message before the committed offset of its partition is settled.** -/
def OffsetsSettled (C : Consumer S F O R M) (tr : List (State S F O R M P × Label))
    (s : State S F O R M P) : Prop :=
  ∀ q i m, i < s.committed q → (s.log q)[i]? = some m → C.Settled tr s m

end Loop

/-- What a handler does when no failure interrupts it: a readable message is handled in a
transaction that enters it into the ledger, unless it is refused. -/
structure Sound (C : Consumer S F O R M) : Prop where
  other : ∀ {d d' m}, C.other d d' → C.entered d m = true → C.entered d' m = true
  /-- Transactions remove nothing from the ledger. -/
  keeps : ∀ {t : Tx S (Proc S F O R)} {d d' p m}, t.run d = .ok (p, d') →
    C.entered d m = true → C.entered d' m = true
  handle : ∀ m, C.readable m = true → ∃ t e, C.handle m = .txn t e ∧ ∀ d f, C.draws d f →
    (∀ p d', (t f).run d = .ok (p, d') → C.entered d' m = true ∨ C.Refuses d m) ∧
    ∀ x, (t f).run d = .error x → C.storable d m = true → C.Refuses d m

section Below

variable {log : P → List M} {position : P → ℕ} {φ ψ : M → Prop}

/-- Every message before `position` satisfies `φ`. -/
def Below (log : P → List M) (position : P → ℕ) (φ : M → Prop) : Prop :=
  ∀ q, position q ≤ (log q).length ∧ ∀ i m, i < position q → (log q)[i]? = some m → φ m

theorem Below.mono (h : Below log position φ) (hφ : ∀ m, φ m → ψ m) : Below log position ψ :=
  fun q => ⟨(h q).1, fun i m hi hm => hφ m ((h q).2 i m hi hm)⟩

variable [DecidableEq P]

/-- Messages are produced at the end of a partition. -/
theorem Below.produce (h : Below log position φ) (q : P) (m : M) :
    Below (Function.update log q (log q ++ [m])) position φ := by
  intro q'
  obtain ⟨hle, hall⟩ := h q'
  by_cases hq : q' = q
  · subst hq
    rw [Function.update_self]
    refine ⟨Nat.le_trans hle (by simp), fun i m' hi hm' => hall i m' hi ?_⟩
    rwa [List.getElem?_append_left (Nat.lt_of_lt_of_le hi hle)] at hm'
  · rw [Function.update_of_ne hq]
    exact ⟨hle, hall⟩

/-- What `getmany` returns are the messages that the positions move past. -/
theorem Below.fetched {qs : List P} {n : P → ℕ} (h : Below log position φ)
    (hle : ∀ q ∈ qs, position q + n q ≤ (log q).length) :
    Below log (advanced position qs n) fun m => φ m ∨ m ∈ fetched log position qs n := by
  intro q
  obtain ⟨hq, hall⟩ := h q
  simp only [advanced]
  split_ifs with hmem
  · refine ⟨hle q hmem, fun i m hi hm => ?_⟩
    by_cases hlt : i < position q
    · exact .inl (hall i m hlt hm)
    · refine .inr (List.mem_flatMap.2 ⟨q, hmem, ?_⟩)
      refine List.mem_of_getElem? (i := i - position q) ?_
      rw [List.getElem?_take_of_lt (by omega), List.getElem?_drop,
        Nat.add_sub_cancel' (Nat.not_lt.1 hlt), hm]
  · exact ⟨hq, fun i m hi hm => .inl (hall i m hi hm)⟩

end Below

variable [DecidableEq P] {C : Consumer S F O R M} {s s' : State S F O R M P} {l : Label}
  {tr : List (State S F O R M P × Label)}

/-- The ledger only grows. -/
theorem Step.entered (hC : C.Sound) (h : C.Step s l s') {m : M} (hm : C.entered s.db m = true) :
    C.entered s'.db m = true := by
  cases h with
  | other d hd => exact hC.other hd hm
  | transaction _ _ _ _ _ _ _ _ _ _ _ hrun => exact hC.keeps hrun hm
  | failure _ _ _ _ _ d _ hd =>
    obtain rfl | ⟨t, e, f, p', -, -, hrun⟩ := hd
    · exact hm
    · exact hC.keeps hrun hm
  | _ => exact hm

/-- What is settled stays so. -/
theorem Settled.step (hC : C.Sound) (h : C.Step s l s') {m : M} (hm : C.Settled tr s m) :
    C.Settled (tr ++ [(s, l)]) s' m := by
  obtain hm | ⟨x, hx, hm⟩ := hm
  · exact .inl (h.entered hC hm)
  · exact .inr ⟨x, List.mem_append_left _ hx, hm⟩

/-- The invariant of the loop, for each place where it can be. -/
def Inv (C : Consumer S F O R M) (tr : List (State S F O R M P × Label))
    (s : State S F O R M P) : Prop :=
  Below s.log s.committed (C.Settled tr s) ∧ match s.mode with
    | .down => True
    | .polling position => Below s.log position (C.Settled tr s)
    | .handling position batch missed =>
      Below s.log position fun m => C.Settled tr s m ∨ m ∈ batch ∨ m ∈ missed
    | .delivering position m₀ p batch missed =>
      (Below s.log position fun m => C.Settled tr s m ∨ m = m₀ ∨ m ∈ batch ∨ m ∈ missed) ∧
      (C.Settled tr s m₀ ∨ m₀ ∈ missed ∨ p = C.handle m₀ ∧ C.readable m₀ = true)

theorem mem_unless {b : Bool} {m m' : M} {missed : List M} (h : m ∈ missed) :
    m ∈ if b then missed else m' :: missed := by
  split_ifs
  · exact h
  · exact List.mem_cons_of_mem _ h

/-- A step that leaves the partitions, the offsets and the loop as they are. -/
theorem Inv.frame (hC : C.Sound) (h : C.Inv tr s) (hst : C.Step s l s') (hlog : s'.log = s.log)
    (hcommitted : s'.committed = s.committed) (hmode : s'.mode = s.mode) :
    C.Inv (tr ++ [(s, l)]) s' := by
  obtain ⟨hoff, hI⟩ := h
  have hs : ∀ m, C.Settled tr s m → C.Settled (tr ++ [(s, l)]) s' m := fun m => .step hC hst
  rw [Inv, hlog, hcommitted, hmode]
  refine ⟨hoff.mono hs, ?_⟩
  revert hI
  cases s.mode with
  | down => exact id
  | polling position => exact fun hI => hI.mono hs
  | handling position batch missed => exact fun hI => hI.mono fun m => Or.imp_left (hs m)
  | delivering position m₀ p batch missed =>
    exact fun hI => ⟨hI.1.mono fun m => Or.imp_left (hs m), Or.imp_left (hs m₀) hI.2⟩

/-- **A step keeps the invariant**, unless it commits a batch with a failed delivery. -/
theorem Inv.step (hC : C.Sound) (h : C.Inv tr s) (hl : Unfailing s l) (hst : C.Step s l s') :
    C.Inv (tr ++ [(s, l)]) s' := by
  have hs : ∀ m, C.Settled tr s m → C.Settled (tr ++ [(s, l)]) s' m := fun m => .step hC hst
  obtain ⟨hoff, hI⟩ := id h
  have hoff' := hoff.mono hs
  cases hst with
  | produce q m =>
    refine ⟨hoff'.produce q m, ?_⟩
    revert hI
    simp only
    cases s.mode with
    | down => exact id
    | polling position => exact fun hI => (hI.mono hs).produce q m
    | handling position batch missed =>
      exact fun hI => (hI.mono fun m => Or.imp_left (hs m)).produce q m
    | delivering position m₀ p batch missed =>
      exact fun hI => ⟨(hI.1.mono fun m => Or.imp_left (hs m)).produce q m,
        Or.imp_left (hs m₀) hI.2⟩
  | other d hd => exact h.frame hC (.other d hd) rfl rfl rfl
  | start _ => exact ⟨hoff', hoff'⟩
  | poll position qs n hm _ hle _ =>
    rw [hm] at hI
    refine ⟨hoff', (hI.fetched hle).mono fun m hm => ?_⟩
    obtain hm | hm := hm
    · exact .inl (hs m hm)
    · exact .inr (.inl hm)
  | deliver position m₀ batch missed hm =>
    rw [hm] at hI
    refine ⟨hoff', hI.mono fun m hm => ?_, ?_⟩
    · obtain hm | hm | hm := hm
      · exact .inl (hs m hm)
      · obtain rfl | hm := List.mem_cons.1 hm
        · exact .inr (.inl rfl)
        · exact .inr (.inr (.inl hm))
      · exact .inr (.inr (.inr (mem_unless hm)))
    · split_ifs with hr
      · obtain hr | he := Bool.or_eq_true_iff.1 hr
        · exact .inr (.inr ⟨rfl, hr⟩)
        · exact .inl (.inl he)
      · exact .inr (.inl List.mem_cons_self)
  | transaction position m₀ t e batch missed f p d hm hf hrun =>
    rw [hm] at hI
    obtain ⟨hI, hdel⟩ := hI
    refine ⟨hoff', hI.mono fun m => Or.imp_left (hs m), ?_⟩
    obtain hdel | hdel | ⟨heq, hr⟩ := hdel
    · exact .inl (hs m₀ hdel)
    · exact .inr (.inl hdel)
    · -- the handler has committed its first transaction
      obtain ⟨t', e', ht, hspec⟩ := hC.handle m₀ hr
      cases heq.trans ht
      obtain he | href := (hspec _ f hf).1 p d hrun
      · exact .inl (.inl he)
      · exact .inl (.inr ⟨_, List.mem_append_right _ (List.mem_singleton_self _),
          ⟨_, _, _, _, hm⟩, href⟩)
  | exception position m₀ t e batch missed f x hm hf hrun =>
    rw [hm] at hI
    obtain ⟨hI, hdel⟩ := hI
    refine ⟨hoff', hI.mono fun m hm => ?_, ?_⟩
    · exact hm.imp (hs m) (Or.imp_right (Or.imp_right mem_unless))
    · obtain hdel | hdel | ⟨heq, hr⟩ := hdel
      · exact .inl (hs m₀ hdel)
      · exact .inr (.inl (mem_unless hdel))
      · -- the exception of the handler is a refusal, if the values could be stored
        obtain ⟨t', e', ht, hspec⟩ := hC.handle m₀ hr
        cases heq.trans ht
        split_ifs with hst
        · exact .inl (.inr ⟨_, List.mem_append_right _ (List.mem_singleton_self _),
            ⟨_, _, _, _, hm⟩, (hspec _ f hf).2 x hrun hst⟩)
        · exact .inr (.inl List.mem_cons_self)
  | failure position m₀ p batch missed d hm hd =>
    rw [hm] at hI
    refine ⟨hoff', hI.1.mono fun m hm => ?_⟩
    obtain hm | rfl | hm | hm := hm
    · exact .inl (hs m hm)
    · split_ifs with he
      · exact .inl (.inl he)
      · exact .inr (.inr List.mem_cons_self)
    · exact .inr (.inl hm)
    · exact .inr (.inr (mem_unless hm))
  | call position m₀ o k batch missed hm =>
    rw [hm] at hI
    obtain ⟨hI, hdel⟩ := hI
    refine ⟨hoff', hI.mono fun m => Or.imp_left (hs m), ?_⟩
    obtain hdel | hdel | ⟨heq, hr⟩ := hdel
    · exact .inl (hs m₀ hdel)
    · exact .inr (.inl hdel)
    · obtain ⟨t, e, ht, -⟩ := hC.handle m₀ hr
      cases heq.trans ht
  | finish position m₀ r batch missed hm =>
    rw [hm] at hI
    obtain ⟨hI, hdel⟩ := hI
    refine ⟨hoff', hI.mono fun m hm => ?_⟩
    obtain hm | rfl | hm := hm
    · exact .inl (hs m hm)
    · obtain hdel | hdel | ⟨heq, hr⟩ := hdel
      · exact .inl (hs m hdel)
      · exact .inr (.inr hdel)
      · obtain ⟨t, e, ht, -⟩ := hC.handle m hr
        cases heq.trans ht
    · exact .inr hm
  | commit position missed hm =>
    rw [hm] at hI
    obtain rfl := hl rfl position missed hm
    have hall := hI.mono fun m hm => hs m (by simpa using hm)
    exact ⟨hall, hall⟩
  | crash => exact ⟨hoff', trivial⟩

/-- **The committed offsets are past settled messages only, in every run in which no batch with a
failed delivery is committed.** -/
theorem offsets (hC : C.Sound) {s₀ : State S F O R M P} (h₀ : C.careful.init s₀)
    (h : C.careful.Trace s₀ tr s) : C.OffsetsSettled tr s := by
  have hI : C.Inv tr s := by
    refine h.invariant (I := C.Inv) ?_ fun tr s l s' _ hI hst => hI.step hC hst.1 hst.2
    obtain ⟨hmode, hcommitted⟩ := h₀
    refine ⟨fun q => ⟨by simp [hcommitted q], fun i m hi => ?_⟩, ?_⟩
    · rw [hcommitted q] at hi
      exact absurd hi (Nat.not_lt_zero i)
    · rw [hmode]
      trivial
  exact fun q => (hI.1 q).2

end Consumer

end FoodFlow
