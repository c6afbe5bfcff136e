import FoodFlow.Shared.Drain

/-!
# Rows that cannot be published

`run_outbox_relay` calls `_poll_and_publish` in a loop and catches what the call raises.  When the
sends of some rows always raise, each call begins again with the oldest row that is left, so that
it never gets past the oldest of those rows.

* `Relay.Iterations` : iterations of the loop;
* `Relay.exists_stalled` : a row that is not older than one of those rows may never be published;
* `Relay.unblocked_iff` : all other rows get published exactly when they are older.
-/

namespace FoodFlow

namespace Relay

open Calls

variable {fails : UUID → Bool} {t t' t'' : Table OutboxRow.id} {r p : OutboxRow} {n : ℕ}

/-- An iteration of the loop of `run_outbox_relay`: a call of `_poll_and_publish`, to its end. -/
def Iteration (fails : UUID → Bool) (t t' : Table OutboxRow.id) : Prop :=
  ∃ ls s, (draining fails).Run (start 1 t) ls s ∧ s.Ended ∧ s.relay.outbox = t'

/-- `n` iterations of the loop. -/
inductive Iterations (fails : UUID → Bool) (t : Table OutboxRow.id) : ℕ → Table OutboxRow.id → Prop
  | zero : Iterations fails t 0 t
  | succ {n : ℕ} {t' t'' : Table OutboxRow.id} :
      Iterations fails t n t' → Iteration fails t' t'' → Iterations fails t (n + 1) t''

/-- From `N` iterations on, every row whose send does not raise has been published. -/
def Unblocked (fails : UUID → Bool) (t : Table OutboxRow.id) (N : ℕ) : Prop :=
  ∀ n, N ≤ n → ∀ t', Iterations fails t n t' → ∀ r ∈ t.rows, fails r.id = false →
    ∃ r', t'.get? r.id = some r' ∧ r'.publishedAt ≠ none

/-! ### What an iteration leaves -/

/-- The rows of `t`, some of them published in `t'`. -/
def Progress (t t' : Table OutboxRow.id) : Prop :=
  (∀ r ∈ t.rows, ∃ r', t'.get? r.id = some r' ∧ (r' = r ∨ r'.publishedAt ≠ none)) ∧
    ∀ r ∈ unpublished t', r ∈ unpublished t

theorem Progress.refl (t : Table OutboxRow.id) : Progress t t :=
  ⟨fun r hr => ⟨r, Table.get?_of_mem hr, .inl rfl⟩, fun _ hr => hr⟩

theorem Progress.trans (h : Progress t t') (h' : Progress t' t'') : Progress t t'' := by
  refine ⟨fun r hr => ?_, fun r hr => h.2 r (h'.2 r hr)⟩
  obtain ⟨r', hg, hr'⟩ := h.1 r hr
  obtain ⟨r'', hg', hr''⟩ := h'.1 r' (Table.mem_of_get? hg)
  rw [Table.key_of_get? hg] at hg'
  refine ⟨r'', hg', ?_⟩
  rcases hr'' with rfl | hp
  · exact hr'
  · exact .inr hp

theorem Iteration.progress (h : Iteration fails t t') : Progress t t' := by
  obtain ⟨ls, s, hr, -, rfl⟩ := h
  have hkept := run_kept hr
  refine ⟨fun r hr => ?_, fun r hr => ?_⟩
  · rcases hkept.kept r hr with hg | ⟨-, now, hg⟩
    · exact ⟨r, hg, .inl rfl⟩
    · exact ⟨_, hg, .inr (Option.some_ne_none now)⟩
  · exact mem_unpublished.2 ⟨hkept.old r hr, (mem_unpublished.1 hr).2⟩

theorem Iterations.progress (h : Iterations fails t n t') : Progress t t' := by
  induction h with
  | zero => exact .refl t
  | succ _ hit ih => exact ih.trans hit.progress

/-- An iteration ends when nothing is left, or when the send of the oldest row raises. -/
theorem Iteration.stop (h : Iteration fails t t') :
    unpublished t' = [] ∨ ∃ p, Oldest t' p ∧ fails p.id := by
  obtain ⟨ls, s, hr, he, rfl⟩ := h
  obtain ⟨c, p, hcalls, -, hfits⟩ := (run_solo hr).alone
  cases c with
  | running n => cases he (.running n) (hcalls ▸ List.mem_singleton_self _)
  | returned n => exact .inl hfits
  | raised => exact .inr hfits

theorem exists_iteration (fails : UUID → Bool) (t : Table OutboxRow.id) :
    ∃ t', Iteration fails t t' := by
  obtain ⟨ls, s, hr, he⟩ := exists_run fails 1 t
  exact ⟨_, ls, s, hr, he, rfl⟩

theorem exists_iterations (fails : UUID → Bool) (t : Table OutboxRow.id) (n : ℕ) :
    ∃ t', Iterations fails t n t' := by
  induction n with
  | zero => exact ⟨t, .zero⟩
  | succ n ih =>
    obtain ⟨t', ht'⟩ := ih
    obtain ⟨t'', hit⟩ := exists_iteration fails t'
    exact ⟨t'', ht'.succ hit⟩

/-! ### Rows that stay behind -/

/-- A call that is alone, between two transactions. -/
def between (t : Table OutboxRow.id) (sends : List OutboxRow) (n : ℕ) : Calls :=
  ⟨⟨t, [], [.idle], sends, []⟩, [.running n]⟩

variable {sends : List OutboxRow}

/-- The call locks one of the oldest rows. -/
theorem run_lock (h : Oldest t r) (sends : List OutboxRow) (n : ℕ) :
    ∃ ls, (draining fails).Run (between t sends n) ls
      ⟨⟨t, [], [.locked 0 r], sends, []⟩, [.running n]⟩ := by
  let s : State := ⟨t, [], [.idle], sends, []⟩
  obtain ⟨candidates, hsnap⟩ := h.exists_snapshot (s := s)
  obtain ⟨hr, hn⟩ := mem_unpublished.1 h.mem
  have hg : t.get? r.id = some r := Table.get?_of_mem hr
  have hsel : State.Selectable ⟨t, [], [.selecting 0 (r :: candidates)], sends, []⟩ r.id :=
    ⟨by simp [hg, hn], by simp [Phase.Holds, Phase.row?]⟩
  refine ⟨[.poll 0 0 (r :: candidates), .select 0], LTS.run_of_runAct (fun _ _ _ => trivial) ?_⟩
  simp [LTS.runAct, act, State.act, between, State.setRelay, s, hsnap, hg, hsel]

theorem run_publish (h : Oldest t r) (hf : fails r.id = false) (sends : List OutboxRow) (n : ℕ) :
    ∃ ls, (draining fails).Run (between t sends n) ls
      (between (markPublished r.id 0 t) (sends ++ [r]) (n + 1)) := by
  obtain ⟨ls, hlock⟩ := run_lock h sends n
  refine ⟨ls ++ [.send 0, .update 0, .finish 0], hlock.trans ?_⟩
  refine LTS.run_of_runAct (fun _ _ _ => trivial) ?_
  simp [LTS.runAct, act, State.act, between, State.setRelay, hf]

theorem run_raise (h : Oldest t r) (hf : fails r.id) (sends : List OutboxRow) (n : ℕ) :
    ∃ ls, (draining fails).Run (between t sends n) ls ⟨⟨t, [], [.idle], sends, []⟩, [.raised]⟩ := by
  obtain ⟨ls, hlock⟩ := run_lock h sends n
  refine ⟨ls ++ [.send 0], hlock.trans ?_⟩
  refine LTS.run_of_runAct (fun _ _ _ => trivial) ?_
  simp [LTS.runAct, act, State.act, State.setRelay, Phase.acked?, hf]

/-- A row that is not older than one whose sends raise can stay behind it for an iteration. -/
theorem exists_stalled_iteration (hp : p ∈ unpublished t) (hr : r ∈ unpublished t)
    (hfp : fails p.id) (hle : p.createdAt ≤ r.createdAt) :
    ∃ t', Iteration fails t t' ∧ p ∈ unpublished t' ∧ r ∈ unpublished t' := by
  have go : ∀ m sends n t, (unpublished t).length = m → p ∈ unpublished t → r ∈ unpublished t →
      ∃ ls s, (draining fails).Run (between t sends n) ls s ∧ s.Ended ∧
        p ∈ unpublished s.relay.outbox ∧ r ∈ unpublished s.relay.outbox := by
    intro m
    induction m with
    | zero =>
      intro sends n t hm hp
      rw [List.length_eq_zero_iff.1 hm] at hp
      cases hp
    | succ m ih =>
      intro sends n t hm hp hr
      -- the row whose sends raise is taken as soon as it is one of the oldest
      obtain ⟨x, hx, hxp⟩ : ∃ x, Oldest t x ∧ (x = p ∨ x.createdAt < p.createdAt) := by
        by_cases hold : Oldest t p
        · exact ⟨p, hold, .inl rfl⟩
        · obtain ⟨x, hx⟩ := exists_oldest (List.ne_nil_of_mem hp)
          refine ⟨x, hx, .inr (lt_of_not_ge fun hge => hold ⟨hp, fun y hy => ?_⟩)⟩
          exact le_trans hge (hx.le y hy)
      by_cases hfx : fails x.id
      · obtain ⟨ls, hraise⟩ := run_raise hx hfx sends n
        exact ⟨ls, _, hraise, fun c hc => List.mem_singleton.1 hc ▸ rfl, hp, hr⟩
      · have hlt : x.createdAt < p.createdAt := hxp.resolve_left fun he => hfx (he ▸ hfp)
        obtain ⟨hxm, hxn⟩ := mem_unpublished.1 hx.mem
        have hne : ∀ y ∈ unpublished t, p.createdAt ≤ y.createdAt → y.id ≠ x.id := by
          intro y hy hpy hid
          have hyx : y = x :=
            List.inj_on_of_nodup_map t.nodup (mem_unpublished.1 hy).1 hxm hid
          exact absurd (lt_of_lt_of_le hlt hpy) (hyx ▸ lt_irrefl _)
        obtain ⟨ls, hpub⟩ := run_publish hx (by simpa using hfx) sends n
        have hlen := length_unpublished_mark 0 (Table.get?_of_mem hxm) hxn
        obtain ⟨ls', s, hrun, hend⟩ := ih (sends ++ [x]) (n + 1) (markPublished x.id 0 t) (by omega)
          (mem_unpublished_mark.2 ⟨hp, hne p hp le_rfl⟩)
          (mem_unpublished_mark.2 ⟨hr, hne r hr hle⟩)
        exact ⟨_, s, hpub.trans hrun, hend⟩
  obtain ⟨ls, s, hrun, hend, hp', hr'⟩ := go _ [] 0 t rfl hp hr
  exact ⟨_, ⟨ls, s, hrun, hend, rfl⟩, hp', hr'⟩

/-- And for any number of them. -/
theorem exists_stalled (hp : p ∈ unpublished t) (hr : r ∈ unpublished t) (hfp : fails p.id)
    (hle : p.createdAt ≤ r.createdAt) (n : ℕ) :
    ∃ t', Iterations fails t n t' ∧ p ∈ unpublished t' ∧ r ∈ unpublished t' := by
  induction n with
  | zero => exact ⟨t, .zero, hp, hr⟩
  | succ n ih =>
    obtain ⟨t', ht', hp', hr'⟩ := ih
    obtain ⟨t'', hit, hp'', hr''⟩ := exists_stalled_iteration hp' hr' hfp hle
    exact ⟨t'', ht'.succ hit, hp'', hr''⟩

/-! ### When the other rows get published -/

theorem not_unblocked (hp : p ∈ unpublished t) (hr : r ∈ unpublished t) (hfp : fails p.id)
    (hfr : fails r.id = false) (hle : p.createdAt ≤ r.createdAt) (N : ℕ) :
    ¬ Unblocked fails t N := by
  intro h
  obtain ⟨t', ht', -, hr'⟩ := exists_stalled hp hr hfp hle N
  obtain ⟨hmem, hn⟩ := mem_unpublished.1 hr'
  obtain ⟨r', hg, hpub⟩ := h N le_rfl t' ht' r (mem_unpublished.1 hr).1 hfr
  rw [Table.get?_of_mem hmem] at hg
  exact hpub (Option.some.inj hg ▸ hn)

/-- When the others are older, one iteration publishes them. -/
theorem unblocked_of_older (h : ∀ r ∈ unpublished t, fails r.id = false →
    ∀ p ∈ unpublished t, fails p.id → r.createdAt < p.createdAt) : Unblocked fails t 1 := by
  intro n hn t' hit r hr hfr
  obtain ⟨r', hg, hr'⟩ := hit.progress.1 r hr
  refine ⟨r', hg, ?_⟩
  rcases hr' with rfl | hpub
  · intro hnone
    have hmem := mem_unpublished_of_get? hg hnone
    cases hit with
    | zero => omega
    | succ hits hit =>
      rcases hit.stop with hnil | ⟨p, hp, hfp⟩
      · rw [hnil] at hmem
        cases hmem
      · -- the row at which the last iteration stopped is older
        have hrt := (hits.progress.trans hit.progress).2
        have hlt := h r' (hrt r' hmem) hfr p (hrt p hp.mem) hfp
        exact absurd (hp.le r' hmem) (not_le_of_gt hlt)
  · exact hpub

/-- **Rows that cannot be published** let all others be published, by whatever iteration, exactly
when these are all older. -/
theorem unblocked_iff (fails : UUID → Bool) (t : Table OutboxRow.id) :
    (∀ n, ∃ t', Iterations fails t n t') ∧
      (Unblocked fails t (t.rows.length + 1) ↔ ∀ r ∈ unpublished t, fails r.id = false →
        ∀ p ∈ unpublished t, fails p.id → r.createdAt < p.createdAt) ∧
      ((∃ N, Unblocked fails t N) ↔ ∀ r ∈ unpublished t, fails r.id = false →
        ∀ p ∈ unpublished t, fails p.id → r.createdAt < p.createdAt) := by
  have honly : ∀ N, Unblocked fails t N → ∀ r ∈ unpublished t, fails r.id = false →
      ∀ p ∈ unpublished t, fails p.id → r.createdAt < p.createdAt := by
    intro N h r hr hfr p hp hfp
    by_contra hlt
    exact not_unblocked hp hr hfp hfr (le_of_not_gt hlt) N h
  refine ⟨exists_iterations fails t, ⟨honly _, fun h n hn => ?_⟩, ⟨?_, fun h => ?_⟩⟩
  · exact unblocked_of_older h n (by omega)
  · rintro ⟨N, hN⟩
    exact honly N hN
  · exact ⟨1, unblocked_of_older h⟩

/-- Two rows, of which the older one is too large for the producer. -/
theorem unblocked_stuck :
    let a : OutboxRow := ⟨1, .orderPlaced, 7, ⟨11, .orderPlaced, 0, { orderId := some 7 }⟩, 0, none⟩
    let b : OutboxRow := ⟨2, .orderPlaced, 8, ⟨12, .orderPlaced, 1, { orderId := some 8 }⟩, 1, none⟩
    let t : Table OutboxRow.id := (Table.empty.insert a).insert b
    ¬ Unblocked (· = a.id) t (t.rows.length + 1) := by
  intro a b t
  have ha : a ∈ unpublished t := by decide
  have hb : b ∈ unpublished t := by decide
  exact not_unblocked ha hb (by decide) (by decide) (by decide) _

end Relay

end FoodFlow
