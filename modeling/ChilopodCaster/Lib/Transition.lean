import Mathlib.Logic.Relation

/-!
# Transition systems

A system is a set of initial states and a partial step function: `f s l` is the state after the
step `l`, or `none` if it cannot be taken from `s`. A guard restricts the steps further, so that
runs in which every step meets a condition are the runs of a guarded system.

## Main definitions

* `Step` — one guarded step
* `Reachable` — the states of all runs

## Main results

* `Reachable.invariant` — what holds initially and is kept by each step holds in every state reached
* `reachable_of_foldlM` — the last state of an explicit run
-/

namespace ChilopodCaster

namespace Transition

variable {σ ℓ : Type*} {init : σ → Prop} {ok : σ → ℓ → Prop} {f : σ → ℓ → Option σ}

/-- One step that meets the guard. -/
def Step (ok : σ → ℓ → Prop) (f : σ → ℓ → Option σ) (s s' : σ) : Prop :=
  ∃ l, ok s l ∧ f s l = some s'

/-- The states reached by steps that all meet the guard. -/
def Reachable (init : σ → Prop) (ok : σ → ℓ → Prop) (f : σ → ℓ → Option σ) (s : σ) : Prop :=
  ∃ s₀, init s₀ ∧ Relation.ReflTransGen (Step ok f) s₀ s

theorem Reachable.refl {s : σ} (h : init s) : Reachable init ok f s := ⟨s, h, .refl⟩

theorem Reachable.step {s s' : σ} {l : ℓ} (h : Reachable init ok f s) (hok : ok s l)
    (hstep : f s l = some s') : Reachable init ok f s' := by
  obtain ⟨s₀, hinit, hrun⟩ := h
  exact ⟨s₀, hinit, hrun.tail ⟨l, hok, hstep⟩⟩

/-- **The invariant rule.** -/
theorem Reachable.invariant {Inv : σ → Prop} {s : σ} (h : Reachable init ok f s)
    (hinit : ∀ s, init s → Inv s)
    (hstep : ∀ s l s', Inv s → ok s l → f s l = some s' → Inv s') : Inv s := by
  obtain ⟨s₀, hs₀, hrun⟩ := h
  induction hrun with
  | refl => exact hinit s₀ hs₀
  | tail _ hlast ih =>
    obtain ⟨l, hok, hlast⟩ := hlast
    exact hstep _ l _ ih hok hlast

/-- A run given by its steps. -/
theorem reachable_of_foldlM [∀ s l, Decidable (ok s l)] {s s' : σ} {ls : List ℓ}
    (h : Reachable init ok f s)
    (hrun : ls.foldlM (fun s l => if ok s l then f s l else none) s = some s') :
    Reachable init ok f s' := by
  induction ls generalizing s with
  | nil =>
    obtain rfl := Option.some.inj hrun
    exact h
  | cons l ls ih =>
    rw [List.foldlM_cons] at hrun
    obtain ⟨s₁, hstep, hrun⟩ := Option.bind_eq_some_iff.mp hrun
    split at hstep
    · next hok => exact ih (h.step hok hstep) hrun
    · contradiction

end Transition

end ChilopodCaster
