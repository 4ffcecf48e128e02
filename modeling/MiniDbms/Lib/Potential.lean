import Mathlib.Algebra.GroupWithZero.Nat
import Mathlib.Algebra.BigOperators.Group.Finset.Piecewise
import Mathlib.Data.Fintype.BigOperators
import Mathlib.Algebra.Order.BigOperators.Group.Finset

/-!
# Potentials

A system takes steps, and `cost a` is what step `a` brings in from outside; the steps that cost
nothing are the system's own.  A potential *pays* for the steps when every step takes one off it
(`Pays`).  Then a run is at most as long as the potential at its start and what came in on its way
(`Pays.length_le`), so the system cannot go on by itself for ever, and it can go on by itself until
it is at rest (`Pays.comes_to_rest`), also when it has to keep clear of some of its steps
(`Pays.comes_to_rest_in`).

For a system of threads the potential is a sum of the ranks of their places (`sumOf`).
-/

namespace Potential

/-! ### Runs -/

section Runs

variable {σ α : Type*}

/-- The state behind a list of steps. -/
def run (step : σ → α → Option σ) (s : σ) : List α → Option σ
  | [] => some s
  | a :: actions => do run step (← step s a) actions

variable {step : σ → α → Option σ} {cost : α → ℕ}

/-- The system can take no step of its own. -/
def AtRest (step : σ → α → Option σ) (cost : α → ℕ) (s : σ) : Prop :=
  ∀ a, cost a = 0 → step s a = none

/-- The system leads from `s` to `s'` by `actions`, all of them its own. -/
structure Leads (step : σ → α → Option σ) (cost : α → ℕ) (s : σ) (actions : List α) (s' : σ) :
    Prop where
  own : ∀ a ∈ actions, cost a = 0
  run : run step s actions = some s'

theorem Leads.nil (s : σ) : Leads step cost s [] s := ⟨by simp, rfl⟩

theorem Leads.cons {s s₁ s' : σ} {a : α} {actions : List α} (ha : cost a = 0)
    (h : step s a = some s₁) (h' : Leads step cost s₁ actions s') :
    Leads step cost s (a :: actions) s' where
  own := List.forall_mem_cons.mpr ⟨ha, h'.own⟩
  run := Option.bind_eq_some_iff.mpr ⟨s₁, h, h'.run⟩

/-- A potential pays for the steps from states in `inv`. -/
structure Pays (step : σ → α → Option σ) (cost : α → ℕ) (inv : σ → Prop) (potential : σ → ℕ) :
    Prop where
  keeps : ∀ {s a s'}, inv s → step s a = some s' → inv s'
  pays : ∀ {s a s'}, inv s → step s a = some s' → potential s' + 1 ≤ potential s + cost a

variable {inv : σ → Prop} {potential : σ → ℕ}

/-- What is left of the potential and the length of the run are paid for. -/
theorem Pays.length_le (hp : Pays step cost inv potential) {s s' : σ} {actions : List α}
    (hs : inv s) (h : run step s actions = some s') :
    potential s' + actions.length ≤ potential s + (actions.map cost).sum := by
  induction actions generalizing s with
  | nil =>
    cases h
    exact Nat.le_refl _
  | cons a actions ih =>
    obtain ⟨s₁, hfirst, hrest⟩ := Option.bind_eq_some_iff.mp h
    have hfirst' := hp.pays hs hfirst
    have hrest' := ih (hp.keeps hs hfirst) hrest
    rw [List.length_cons, List.map_cons, List.sum_cons]
    omega

theorem Pays.length_le_of_own (hp : Pays step cost inv potential) {s s' : σ} {actions : List α}
    (hs : inv s) (h : Leads step cost s actions s') :
    potential s' + actions.length ≤ potential s := by
  have hlength := hp.length_le hs h.run
  rwa [List.sum_eq_zero (List.forall_mem_map.mpr h.own), Nat.add_zero] at hlength

/-- The system goes on by itself until it is at rest, and on its way it stays in `safe`, when one of
the steps of its own always does. -/
theorem Pays.comes_to_rest_in (hp : Pays step cost inv potential) (safe : σ → Prop)
    (hsafe : ∀ {s a}, inv s → safe s → cost a = 0 → step s a ≠ none →
      ∃ a' s', cost a' = 0 ∧ step s a' = some s' ∧ safe s')
    {s : σ} (hs : inv s) (h : safe s) :
    ∃ actions s', Leads step cost s actions s' ∧ AtRest step cost s' ∧ safe s' := by
  induction hpotential : potential s using Nat.strong_induction_on generalizing s with
  | _ bound ih =>
    by_cases hrest : AtRest step cost s
    · exact ⟨[], s, .nil s, hrest, h⟩
    · obtain ⟨a, ha, hstep⟩ : ∃ a, cost a = 0 ∧ step s a ≠ none := by
        simpa only [AtRest, not_forall, exists_prop] using hrest
      obtain ⟨a', s₁, ha', hstep', h₁⟩ := hsafe hs h ha hstep
      have hpaid := hp.pays hs hstep'
      obtain ⟨actions, s', hleads, hrest', h'⟩ :=
        ih (potential s₁) (by omega) (hp.keeps hs hstep') h₁ rfl
      exact ⟨a' :: actions, s', hleads.cons ha' hstep', hrest', h'⟩

/-- The system goes on by itself until it is at rest. -/
theorem Pays.comes_to_rest (hp : Pays step cost inv potential) {s : σ} (hs : inv s) :
    ∃ actions s', Leads step cost s actions s' ∧ AtRest step cost s' := by
  obtain ⟨actions, s', hleads, hrest, -⟩ := hp.comes_to_rest_in (fun _ => True)
    (fun {_ a} _ _ ha hstep => by
      obtain ⟨s', hstep⟩ := Option.ne_none_iff_exists'.mp hstep
      exact ⟨a, s', ha, hstep, trivial⟩) hs trivial
  exact ⟨actions, s', hleads, hrest⟩

end Runs

/-! ### Ranks -/

section Ranks

variable {ι α : Type*} [Fintype ι]

/-- The sum of the ranks of the threads' places. -/
def sumOf (rank : α → ℕ) (places : ι → α) : ℕ := ∑ t, rank (places t)

/-- One thread moves. -/
theorem sumOf_update [DecidableEq ι] (rank : α → ℕ) (places : ι → α) (t : ι) (place : α) :
    sumOf rank (Function.update places t place) + rank (places t) =
      sumOf rank places + rank place := by
  have hrest : ∑ t' ∈ Finset.univ.erase t, rank (Function.update places t place t') =
      ∑ t' ∈ Finset.univ.erase t, rank (places t') := by
    apply Finset.sum_congr rfl
    intro t' ht'
    rw [Function.update_of_ne (Finset.ne_of_mem_erase ht')]
  unfold sumOf
  rw [← Finset.add_sum_erase _ _ (Finset.mem_univ t), hrest, Function.update_self,
    ← Finset.add_sum_erase Finset.univ (fun t' => rank (places t')) (Finset.mem_univ t)]
  omega

/-- Every thread moves, and none of them rises by more than `rise`. -/
theorem sumOf_le {rank : α → ℕ} {places places' : ι → α} {rise : ℕ}
    (h : ∀ t, rank (places' t) ≤ rank (places t) + rise) :
    sumOf rank places' ≤ sumOf rank places + Fintype.card ι * rise := by
  calc sumOf rank places' ≤ ∑ t, (rank (places t) + rise) := Finset.sum_le_sum fun t _ => h t
    _ = sumOf rank places + Fintype.card ι * rise := by
      rw [Finset.sum_add_distrib, Finset.sum_const_nat fun _ _ => rfl, Finset.card_univ]
      rfl

theorem sumOf_const {rank : α → ℕ} {places : ι → α} {value : ℕ}
    (h : ∀ t, rank (places t) = value) : sumOf rank places = Fintype.card ι * value := by
  rw [sumOf, Finset.sum_const_nat fun t _ => h t, Finset.card_univ]

end Ranks

end Potential
