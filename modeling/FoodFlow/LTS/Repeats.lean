import FoodFlow.LTS.Basic
import Mathlib.Data.List.Induction

/-!
# Repeated inputs

A transition system whose labels are inputs, and an input that may come again.  When an input that
has been taken once is `Settled`, and stays so, taking it again changes nothing:

* `LTS.firsts` : a list of inputs without the repetitions;
* `LTS.Absorbs.run_firsts` : a run over a list of inputs is one over its first occurrences;
* `LTS.Run.congr` : what is observed of a run depends on its inputs only.
-/

namespace FoodFlow

namespace LTS

variable {S L K O : Type*} {A : LTS S L}

/-- The list without the elements whose key has occurred before. -/
def firsts [DecidableEq K] (key : L → K) (ls : List L) : List L :=
  ls.foldl (fun acc l => if key l ∈ acc.map key then acc else acc ++ [l]) []

section Firsts

variable [DecidableEq K] {key : L → K} {ls : List L} {l : L}

theorem firsts_snoc (key : L → K) (ls : List L) (l : L) : firsts key (ls ++ [l]) =
    if key l ∈ (firsts key ls).map key then firsts key ls else firsts key ls ++ [l] := by
  rw [firsts, List.foldl_append]
  rfl

/-- The keys that occur are those of the first occurrences. -/
theorem mem_keys_firsts {k : K} : k ∈ (firsts key ls).map key ↔ k ∈ ls.map key := by
  induction ls using List.reverseRecOn with
  | nil => rfl
  | append_singleton ls l ih =>
    rw [firsts_snoc, List.map_append, List.mem_append, ← ih]
    split_ifs with hl
    · refine ⟨.inl, fun h => h.elim id fun hk => ?_⟩
      rw [List.map_singleton, List.mem_singleton] at hk
      exact hk ▸ hl
    · rw [List.map_append, List.mem_append]

/-- A list that repeats the beginning of another one before it. -/
theorem firsts_append_of_prefix {pre : List L} (h : pre <+: ls) :
    firsts key (pre ++ ls) = firsts key ls := by
  obtain ⟨rest, rfl⟩ := h
  -- what follows a list whose keys have all occurred
  have skip : ∀ ls', (∀ l ∈ ls', key l ∈ (firsts key pre).map key) →
      firsts key (pre ++ ls') = firsts key pre := by
    intro ls'
    induction ls' using List.reverseRecOn with
    | nil => intro _; rw [List.append_nil]
    | append_singleton ls' l ih =>
      intro hls
      have hkeep := ih fun x hx => hls x (List.mem_append_left _ hx)
      rw [← List.append_assoc, firsts_snoc, hkeep, if_pos (hls l (by simp))]
  have hpre : firsts key (pre ++ pre) = firsts key pre :=
    skip pre fun l hl => mem_keys_firsts.2 (List.mem_map_of_mem hl)
  rw [← List.append_assoc, firsts, List.foldl_append]
  change List.foldl _ (firsts key (pre ++ pre)) rest = firsts key (pre ++ rest)
  rw [hpre, firsts, firsts, List.foldl_append]

end Firsts

/-- An input that has been taken once is settled, and then changes nothing. -/
structure Absorbs (A : LTS S L) (Settled : L → S → Prop) : Prop where
  idle : ∀ l s s', Settled l s → A.step s l s' → s' = s
  settles : ∀ l s s', A.step s l s' → Settled l s'
  keeps : ∀ l l' s s', Settled l s → A.step s l' s' → Settled l s'

variable {Settled : L → S → Prop} {s s' t t' : S} {ls : List L}

/-- What has been taken stays settled. -/
theorem Absorbs.run_settled (h : A.Absorbs Settled) (hr : A.Run s ls s') :
    ∀ l ∈ ls, Settled l s' := by
  induction hr with
  | refl => exact fun l hl => by cases hl
  | snoc _ hst ih =>
    intro l hl
    rcases List.mem_append.1 hl with hl | hl
    · exact h.keeps _ _ _ _ (ih l hl) hst
    · exact List.mem_singleton.1 hl ▸ h.settles _ _ _ hst

/-- **Repeated inputs change nothing**: the run over a list of inputs is one over the first
occurrences of its elements. -/
theorem Absorbs.run_firsts [DecidableEq K] (h : A.Absorbs Settled) {key : L → K}
    (hkey : ∀ l ∈ ls, ∀ l' ∈ ls, key l = key l' → l = l') (hr : A.Run s ls s') :
    A.Run s (firsts key ls) s' := by
  induction hr with
  | refl => exact .refl
  | @snoc ls s₁ s₂ l hr hst ih =>
    have hfirsts := ih fun x hx y hy =>
      hkey x (List.mem_append_left _ hx) y (List.mem_append_left _ hy)
    rw [firsts_snoc]
    split_ifs with hl
    · -- the input has been taken before
      obtain ⟨l', hl', he⟩ := List.mem_map.1 (mem_keys_firsts.1 hl)
      obtain rfl := hkey l' (List.mem_append_left _ hl') l (by simp) he
      rwa [h.idle _ _ _ (h.run_settled hr l' hl') hst]
    · exact hfirsts.snoc hst

theorem run_nil_inv (h : A.Run s [] s') : s' = s := by
  generalize hls : ([] : List L) = ls at h
  cases h with
  | refl => rfl
  | snoc _ _ => simp at hls

theorem run_snoc_inv {l : L} (h : A.Run s (ls ++ [l]) s') :
    ∃ s₁, A.Run s ls s₁ ∧ A.step s₁ l s' := by
  generalize hls : ls ++ [l] = ls' at h
  cases h with
  | refl => simp at hls
  | snoc hr hst =>
    obtain ⟨rfl, hl⟩ := List.append_inj' hls rfl
    obtain rfl := List.singleton_inj.1 hl
    exact ⟨_, hr, hst⟩

/-- What is observed of the end of a run depends only on its inputs and on what is observed of its
start, if that holds of every step. -/
theorem Run.congr {obs : S → O} (hstep : ∀ l s s' t t', obs s = obs t → A.step s l s' →
    A.step t l t' → obs s' = obs t') (hobs : obs s = obs t) (h : A.Run s ls s')
    (h' : A.Run t ls t') : obs s' = obs t' := by
  induction h generalizing t' with
  | refl => rw [run_nil_inv h', hobs]
  | snoc _ hst ih =>
    obtain ⟨t₁, ht, hst'⟩ := run_snoc_inv h'
    exact hstep _ _ _ _ _ (ih ht) hst hst'

end LTS

end FoodFlow
