import Mathlib.Data.List.Basic

/-!
# Runs of labelled transition systems

Every component of the development is given its meaning as a *labelled transition system*: a set
of initial states and a relation `step s l s'`.  The file collects what the later proofs use:

* `LTS.Run` : finite runs with the list of their labels, and `LTS.Reachable`;
* `LTS.Run.invariant`, `LTS.Reachable.invariant` : what holds at first and is kept by every step
  holds of every state of every run;
* `LTS.restrict` : the runs whose steps all meet a condition;
* `LTS.Run.length_le`, `LTS.exists_run_of_measure` : a measure that every step makes smaller bounds
  the runs, and they come to their end; `LTS.exists_run_of_tasks` : a list of tasks is done by
  doing one after the other;
* `LTS.Trace`, `LTS.tally` : the steps of a run, and how many of them are of a kind; a step that
  changes nothing can be inserted anywhere its state is passed (`LTS.Trace.insert`);
* `LTS.Changes` : how often an observation changes along a run, bounded by any rank that grows at
  every change (`LTS.Changes.le_rank`).
-/

namespace FoodFlow

/-- A labelled transition system with states `S` and labels `L`. -/
structure LTS (S L : Type*) where
  /-- The states in which a run can start. -/
  init : S → Prop
  /-- `step s l s'` : the system can move from `s` to `s'` performing `l`. -/
  step : S → L → S → Prop

namespace LTS

variable {S L T M : Type*} (A : LTS S L)

/-- `Run s ls s'` : performing the labels `ls` one after the other leads from `s` to `s'`. -/
inductive Run (s : S) : List L → S → Prop
  | refl : Run s [] s
  | snoc {ls : List L} {s₁ s₂ : S} {l : L} :
      Run s ls s₁ → A.step s₁ l s₂ → Run s (ls ++ [l]) s₂

/-- The states of the runs that start in an initial state. -/
def Reachable (s : S) : Prop := ∃ s₀ ls, A.init s₀ ∧ A.Run s₀ ls s

/-- The system whose steps are those of `A` that meet `C`. -/
def restrict (C : S → L → Prop) : LTS S L where
  init := A.init
  step s l s' := C s l ∧ A.step s l s'

/-- The system given by a partial successor function, under a guard on state and label. -/
def ofAct (init : S → Prop) (guard : S → L → Prop) (act : S → L → Option S) : LTS S L where
  init := init
  step s l s' := guard s l ∧ act s l = some s'

variable {A}

namespace Run

theorem single {s s' : S} {l : L} (h : A.step s l s') : A.Run s [l] s' := .snoc .refl h

theorem trans {s₁ s₂ s₃ : S} {ls ls' : List L} (h : A.Run s₁ ls s₂) (h' : A.Run s₂ ls' s₃) :
    A.Run s₁ (ls ++ ls') s₃ := by
  induction h' with
  | refl => simpa using h
  | snoc _ hst ih => rw [← List.append_assoc]; exact ih.snoc hst

theorem cons {s s₁ s' : S} {l : L} {ls : List L} (hst : A.step s l s₁) (h : A.Run s₁ ls s') :
    A.Run s (l :: ls) s' :=
  (single hst).trans h

/-- What holds at the start and is kept by every step holds at the end of the run. -/
theorem invariant {I : S → Prop} {s s' : S} {ls : List L} (h : A.Run s ls s') (h₀ : I s)
    (hstep : ∀ s l s', I s → A.step s l s' → I s') : I s' := by
  induction h with
  | refl => exact h₀
  | snoc _ hst ih => exact hstep _ _ _ ih hst

theorem mono {B : LTS S L} (hAB : ∀ s l s', A.step s l s' → B.step s l s') {s s' : S}
    {ls : List L} (h : A.Run s ls s') : B.Run s ls s' := by
  induction h with
  | refl => exact .refl
  | snoc _ hst ih => exact ih.snoc (hAB _ _ _ hst)

theorem of_restrict {C : S → L → Prop} {s s' : S} {ls : List L}
    (h : (A.restrict C).Run s ls s') : A.Run s ls s' := by
  refine h.mono fun s l s' hst => ?_
  exact And.right hst

/-- A run whose labels meet a condition in every state. -/
theorem restrict {C : S → L → Prop} {s s' : S} {ls : List L} (h : A.Run s ls s')
    (hC : ∀ s, ∀ l ∈ ls, C s l) : (A.restrict C).Run s ls s' := by
  induction h with
  | refl => exact .refl
  | snoc _ hst ih =>
    refine (ih fun s l hl => hC s l (List.mem_append_left _ hl)).snoc ⟨hC _ _ ?_, hst⟩
    exact List.mem_append_right _ (List.mem_singleton_self _)

end Run

namespace Reachable

theorem init {s : S} (h : A.init s) : A.Reachable s := ⟨s, [], h, .refl⟩

theorem tail {s s' : S} {l : L} (h : A.Reachable s) (hst : A.step s l s') : A.Reachable s' := by
  obtain ⟨s₀, ls, h₀, hr⟩ := h
  exact ⟨s₀, _, h₀, hr.snoc hst⟩

theorem trans {s s' : S} {ls : List L} (h : A.Reachable s) (hr : A.Run s ls s') :
    A.Reachable s' := by
  obtain ⟨s₀, ls₀, h₀, hr₀⟩ := h
  exact ⟨s₀, _, h₀, hr₀.trans hr⟩

/-- Reachable states satisfy every predicate that holds initially and is kept by every step. -/
theorem invariant {I : S → Prop} {s : S} (h : A.Reachable s) (h₀ : ∀ s, A.init s → I s)
    (hstep : ∀ s l s', I s → A.step s l s' → I s') : I s := by
  obtain ⟨s₀, ls, hi, hr⟩ := h
  exact hr.invariant (h₀ s₀ hi) hstep

end Reachable

/-! ### Termination -/

section Measure

variable {I : S → Prop} {m : S → ℕ} {s s' : S} {ls : List L}

/-- The length of a run is bounded by a measure that every step makes smaller. -/
theorem Run.length_le (h : A.Run s ls s') (h₀ : I s) (hI : ∀ s l s', I s → A.step s l s' → I s')
    (hm : ∀ s l s', I s → A.step s l s' → m s' < m s) : ls.length + m s' ≤ m s := by
  induction h with
  | refl => simp
  | snoc h hst ih =>
    have hlt := hm _ _ _ (h.invariant h₀ hI) hst
    rw [List.length_append, List.length_singleton]
    omega

/-- When every step makes the measure smaller, and some step is possible unless `D` holds, a run
leads to `D`. -/
theorem exists_run_of_measure {D : S → Prop} (hI : ∀ s l s', I s → A.step s l s' → I s')
    (hm : ∀ s l s', I s → A.step s l s' → m s' < m s)
    (hgo : ∀ s, I s → ¬ D s → ∃ l s', A.step s l s') (h₀ : I s) :
    ∃ ls s', A.Run s ls s' ∧ D s' := by
  induction hn : m s using Nat.strongRecOn generalizing s with
  | ind n ih =>
    by_cases hD : D s
    · exact ⟨[], s, .refl, hD⟩
    · obtain ⟨l, s₁, hst⟩ := hgo s h₀ hD
      obtain ⟨ls, s', hr, hD'⟩ := ih (m s₁) (hn ▸ hm s l s₁ h₀ hst) (hI s l s₁ h₀ hst) rfl
      exact ⟨l :: ls, s', hr.cons hst, hD'⟩

/-- Tasks each of which can be done, by a run along which `R` holds and which thus undoes none of
the others, can all be done by one run. -/
theorem exists_run_of_tasks {R : S → S → Prop} {D : T → S → Prop} (hrefl : ∀ s, R s s)
    (htrans : ∀ {s₁ s₂ s₃}, R s₁ s₂ → R s₂ s₃ → R s₁ s₃)
    (hkeep : ∀ {t s s'}, R s s' → D t s → D t s') (ts : List T)
    (hdo : ∀ t ∈ ts, ∀ s, I s → ∃ ls s', A.Run s ls s' ∧ I s' ∧ R s s' ∧ D t s') (h₀ : I s) :
    ∃ ls s', A.Run s ls s' ∧ I s' ∧ R s s' ∧ ∀ t ∈ ts, D t s' := by
  induction ts generalizing s with
  | nil => exact ⟨[], s, .refl, h₀, hrefl s, List.forall_mem_nil _⟩
  | cons t ts ih =>
    obtain ⟨ls, s₁, hr, h₁, hR, hD⟩ := hdo t List.mem_cons_self s h₀
    obtain ⟨ls', s', hr', h', hR', hD'⟩ :=
      ih (fun t' ht' => hdo t' (List.mem_cons_of_mem _ ht')) h₁
    refine ⟨ls ++ ls', s', hr.trans hr', h', htrans hR hR', fun t' ht' => ?_⟩
    rcases List.mem_cons.1 ht' with rfl | ht'
    · exact hkeep hR' hD
    · exact hD' t' ht'

end Measure

/-! ### Runs of systems given by a successor function -/

/-- The state after performing `ls`, if every label can be performed. -/
def runAct (act : S → L → Option S) : S → List L → Option S
  | s, [] => some s
  | s, l :: ls => (act s l).bind fun s' => runAct act s' ls

theorem run_of_runAct {init : S → Prop} {guard : S → L → Prop} {act : S → L → Option S}
    {ls : List L} : ∀ {s s' : S}, (∀ s, ∀ l ∈ ls, guard s l) → runAct act s ls = some s' →
      (ofAct init guard act).Run s ls s' := by
  induction ls with
  | nil =>
    intro s s' _ h
    obtain rfl : s = s' := by simpa [runAct] using h
    exact .refl
  | cons l ls ih =>
    intro s s' hg h
    obtain ⟨s₁, h₁, h₂⟩ := Option.bind_eq_some_iff.1 h
    have hst : (ofAct init guard act).step s l s₁ := ⟨hg _ _ List.mem_cons_self, h₁⟩
    exact (Run.single hst).trans (ih (fun s l hl => hg s l (List.mem_cons_of_mem _ hl)) h₂)

/-- The same with a guard that holds where `check` succeeds along the run. -/
theorem run_of_runAct_check {init : S → Prop} {guard : S → L → Prop} {act : S → L → Option S}
    {check : S → L → Bool} {ls : List L} : ∀ {s s' : S},
      (∀ s, ∀ l ∈ ls, check s l → guard s l) →
      runAct (fun s l => if check s l then act s l else none) s ls = some s' →
      (ofAct init guard act).Run s ls s' := by
  induction ls with
  | nil =>
    intro s s' _ h
    obtain rfl : s = s' := by simpa [runAct] using h
    exact .refl
  | cons l ls ih =>
    intro s s' hg h
    obtain ⟨s₁, h₁, h₂⟩ := Option.bind_eq_some_iff.1 h
    simp only at h₁
    split_ifs at h₁ with hc
    have hst : (ofAct init guard act).step s l s₁ := ⟨hg _ _ List.mem_cons_self hc, h₁⟩
    exact (Run.single hst).trans (ih (fun s l hl => hg s l (List.mem_cons_of_mem _ hl)) h₂)

/-- A successful run of the successor function from an initial state ends in a reachable one. -/
theorem reachable_of_runAct {init : S → Prop} {guard : S → L → Prop} {act : S → L → Option S}
    {ls : List L} {s s' : S} (h₀ : init s) (hg : ∀ s, ∀ l ∈ ls, guard s l)
    (h : runAct act s ls = some s') : (ofAct init guard act).Reachable s' :=
  ⟨s, ls, h₀, run_of_runAct hg h⟩

/-! ### Counting steps -/

/-- `Trace A s tr s'` : the steps `tr`, each given by its label and the state before it, lead from
`s` to `s'`. -/
inductive Trace (A : LTS S L) (s : S) : List (S × L) → S → Prop
  | refl : Trace A s [] s
  | snoc {tr : List (S × L)} {s₁ s₂ : S} {l : L} :
      Trace A s tr s₁ → A.step s₁ l s₂ → Trace A s (tr ++ [(s₁, l)]) s₂

namespace Trace

variable {tr : List (S × L)} {s s' : S}

theorem run (h : Trace A s tr s') : A.Run s (tr.map Prod.snd) s' := by
  induction h with
  | refl => exact .refl
  | snoc _ hst ih =>
    rw [List.map_append]
    exact ih.snoc hst

/-- The state before a step is reached. -/
theorem run_of_mem (h : Trace A s tr s') {x : S × L} (hx : x ∈ tr) : ∃ ls, A.Run s ls x.1 := by
  induction h with
  | refl => cases hx
  | snoc h _ ih =>
    rcases List.mem_append.1 hx with hx | hx
    · exact ih hx
    · obtain rfl := List.mem_singleton.1 hx
      exact ⟨_, h.run⟩

theorem reachable (h : Trace A s tr s') (h₀ : A.init s) : A.Reachable s' := ⟨s, _, h₀, h.run⟩

/-- So are the states passed. -/
theorem reachable_of_mem (h : Trace A s tr s') (h₀ : A.init s) {x : S × L} (hx : x ∈ tr) :
    A.Reachable x.1 := by
  obtain ⟨ls, hr⟩ := h.run_of_mem hx
  exact ⟨s, ls, h₀, hr⟩

/-- What holds of the steps taken so far and the state reached. -/
theorem invariant {I : List (S × L) → S → Prop} (h : Trace A s tr s') (h₀ : I [] s)
    (hstep : ∀ tr s₁ l s₂, A.Run s (tr.map Prod.snd) s₁ → I tr s₁ → A.step s₁ l s₂ →
      I (tr ++ [(s₁, l)]) s₂) : I tr s' := by
  induction h with
  | refl => exact h₀
  | snoc h hst ih => exact hstep _ _ _ _ h.run ih hst

/-- A step that changes nothing can be put where the trace passes its state. -/
theorem insert {u : S} {l : L} (h : Trace A s tr s') (hst : A.step u l u)
    (hu : u = s' ∨ u ∈ tr.map Prod.fst) : ∃ tr', Trace A s tr' s' ∧ tr'.Perm ((u, l) :: tr) := by
  have last : ∀ {tr s₁}, Trace A s tr s₁ → u = s₁ →
      ∃ tr', Trace A s tr' s₁ ∧ tr'.Perm ((u, l) :: tr) := by
    rintro tr s₁ h rfl
    exact ⟨_, h.snoc hst, List.perm_append_singleton _ _⟩
  induction h with
  | refl => exact last .refl (hu.resolve_right (by simp))
  | @snoc tr s₁ s₂ l₁ h hst₁ ih =>
    by_cases hlast : u = s₂
    · exact last (h.snoc hst₁) hlast
    · -- before the last step, or further back
      have hu' : u = s₁ ∨ u ∈ tr.map Prod.fst := by
        have := hu.resolve_left hlast
        rw [List.map_append, List.mem_append] at this
        exact this.symm.imp_left List.mem_singleton.1
      obtain ⟨tr', htr', hperm⟩ := ih hu'
      exact ⟨_, htr'.snoc hst₁, hperm.append_right _⟩

end Trace

/-- The steps of a run given by its labels. -/
theorem Run.trace {s s' : S} {ls : List L} (h : A.Run s ls s') :
    ∃ tr, A.Trace s tr s' ∧ tr.map Prod.snd = ls := by
  induction h with
  | refl => exact ⟨[], .refl, rfl⟩
  | snoc _ hst ih =>
    obtain ⟨tr, htr, rfl⟩ := ih
    exact ⟨_, htr.snoc hst, by rw [List.map_append]; rfl⟩

open Classical in
/-- How many of the steps are of the kind `φ`. -/
noncomputable def tally (φ : S → L → Prop) (tr : List (S × L)) : ℕ :=
  tr.countP fun x => φ x.1 x.2

section Tally

variable {φ ψ : S → L → Prop} {tr : List (S × L)} {s : S} {l : L}

@[simp] theorem tally_nil : tally φ [] = 0 := rfl

theorem tally_snoc_of (h : φ s l) : tally φ (tr ++ [(s, l)]) = tally φ tr + 1 := by
  rw [tally, List.countP_append, List.countP_singleton, if_pos (by simpa using h)]
  rfl

theorem tally_snoc_not (h : ¬ φ s l) : tally φ (tr ++ [(s, l)]) = tally φ tr := by
  rw [tally, List.countP_append, List.countP_singleton, if_neg (by simpa using h)]
  rfl

theorem tally_le_snoc : tally φ tr ≤ tally φ (tr ++ [(s, l)]) := by
  rw [tally, tally, List.countP_append]
  exact Nat.le_add_right _ _

theorem tally_or_le : tally (fun s l => φ s l ∨ ψ s l) tr ≤ tally φ tr + tally ψ tr := by
  induction tr with
  | nil => simp
  | cons x tr ih =>
    simp only [tally, List.countP_cons] at ih ⊢
    by_cases hφ : φ x.1 x.2
    · simp only [hφ, true_or, decide_true, if_true]
      omega
    · by_cases hψ : ψ x.1 x.2
      · simp only [hφ, hψ, or_true, decide_true, if_true]
        omega
      · simp only [hφ, hψ, or_self, decide_false]
        omega

end Tally

/-! ### Counting changes of an observation -/

/-- `Changes obs s n s'` : some run from `s` to `s'` changes the value of `obs` exactly `n`
times. -/
inductive Changes {α : Type*} (A : LTS S L) (obs : S → α) (s : S) : ℕ → S → Prop
  | refl : Changes A obs s 0 s
  | same {n : ℕ} {s₁ s₂ : S} {l : L} : Changes A obs s n s₁ → A.step s₁ l s₂ →
      obs s₂ = obs s₁ → Changes A obs s n s₂
  | diff {n : ℕ} {s₁ s₂ : S} {l : L} : Changes A obs s n s₁ → A.step s₁ l s₂ →
      obs s₂ ≠ obs s₁ → Changes A obs s (n + 1) s₂

namespace Changes

variable {α : Type*} {obs : S → α} {n : ℕ} {s s' : S}

theorem run (h : Changes A obs s n s') : ∃ ls, A.Run s ls s' := by
  induction h with
  | refl => exact ⟨[], .refl⟩
  | same _ hst _ ih => obtain ⟨ls, hls⟩ := ih; exact ⟨_, hls.snoc hst⟩
  | diff _ hst _ ih => obtain ⟨ls, hls⟩ := ih; exact ⟨_, hls.snoc hst⟩

theorem eq_of_zero (h : Changes A obs s 0 s') : obs s' = obs s := by
  generalize hn : 0 = n at h
  induction h with
  | refl => rfl
  | same _ _ heq ih => exact heq.trans (ih hn)
  | diff _ _ _ _ => exact absurd hn (Nat.succ_ne_zero _).symm

/-- An observation whose rank grows whenever it changes changes at most as often as its rank can
grow. -/
theorem le_rank (rank : α → ℕ) (hs : A.Reachable s)
    (hrank : ∀ s l s', A.Reachable s → A.step s l s' → obs s' ≠ obs s →
      rank (obs s) < rank (obs s')) (h : Changes A obs s n s') :
    n + rank (obs s) ≤ rank (obs s') := by
  induction h with
  | refl => simp
  | same _ _ heq ih => rwa [heq]
  | diff h hst hne ih =>
    obtain ⟨ls, hls⟩ := h.run
    have := hrank _ _ _ (hs.trans hls) hst hne
    omega

end Changes

end LTS

end FoodFlow
