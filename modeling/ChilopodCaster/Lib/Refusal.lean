import Mathlib.Data.List.Basic

/-!
# Steps that can be refused

A request is carried out in steps. Each step is looked at first, and refused with a message or
carried out; the first refusal is the end. What was carried out before it stays.

## Main definitions

* `run` — the steps, one after the other
* `after` — what the steps do when none is refused
* `carried` — the steps before the first refusal
* `Accepted` — none of them is refused
* `StopsAt` — some steps are accepted and the next one is refused

## Main results

* `run_eq_none_iff` — a run that ends without a message
* `run_fst` — what a run leaves behind
-/

namespace ChilopodCaster

namespace Refusal

variable {σ τ ε : Type*} (refusal : τ → σ → Option ε) (effect : τ → σ → σ)

/-- The steps, one after the other, up to the first refusal. -/
def run : List τ → σ → σ × Option ε
  | [], s => (s, none)
  | step :: steps, s =>
    match refusal step s with
    | some message => (s, some message)
    | none => run steps (effect step s)

/-- What the steps do when none is refused. -/
def after (steps : List τ) (s : σ) : σ := steps.foldl (fun s step => effect step s) s

/-- The steps that are carried out. -/
def carried : List τ → σ → List τ
  | [], _ => []
  | step :: steps, s =>
    match refusal step s with
    | some _ => []
    | none => step :: carried steps (effect step s)

/-- None of the steps is refused when its turn comes. -/
def Accepted : List τ → σ → Prop
  | [], _ => True
  | step :: steps, s => refusal step s = none ∧ Accepted steps (effect step s)

/-- The steps `done` are accepted and carried out, and the next one is refused. -/
def StopsAt (steps done : List τ) (message : ε) (s : σ) : Prop :=
  ∃ step rest, steps = done ++ step :: rest ∧ Accepted refusal effect done s ∧
    refusal step (after effect done s) = some message

variable {refusal effect}

theorem run_of_refused {step : τ} {s : σ} {message : ε} (h : refusal step s = some message)
    (steps : List τ) : run refusal effect (step :: steps) s = (s, some message) := by
  rw [run, h]

theorem run_of_accepted {step : τ} {s : σ} (h : refusal step s = none) (steps : List τ) :
    run refusal effect (step :: steps) s = run refusal effect steps (effect step s) := by
  rw [run, h]

theorem run_of_forall {steps : List τ} {s : σ} (h : Accepted refusal effect steps s) :
    run refusal effect steps s = (after effect steps s, none) := by
  induction steps generalizing s with
  | nil => rfl
  | cons step steps ih => rw [run_of_accepted h.1, ih h.2, after, after, List.foldl_cons]

theorem run_of_stopsAt {steps done : List τ} {message : ε} {s : σ}
    (h : StopsAt refusal effect steps done message s) :
    run refusal effect steps s = (after effect done s, some message) := by
  obtain ⟨step, rest, rfl, haccepted, hrefused⟩ := h
  induction done generalizing s with
  | nil => exact run_of_refused hrefused rest
  | cons first done ih =>
    rw [List.cons_append, run_of_accepted haccepted.1, ih haccepted.2 hrefused, after, after,
      List.foldl_cons]

variable (refusal effect) in
/-- Either every step is accepted, or the run stops at one. -/
theorem accepted_or_stopsAt (steps : List τ) (s : σ) :
    Accepted refusal effect steps s ∨
      ∃ done message, StopsAt refusal effect steps done message s := by
  induction steps generalizing s with
  | nil => exact .inl trivial
  | cons step steps ih =>
    cases hstep : refusal step s with
    | some message => exact .inr ⟨[], message, step, steps, rfl, trivial, hstep⟩
    | none =>
      rcases ih (effect step s) with haccepted | ⟨done, message, next, rest, rfl, hdone, hnext⟩
      · exact .inl ⟨hstep, haccepted⟩
      · exact .inr ⟨step :: done, message, next, rest, rfl, ⟨hstep, hdone⟩, hnext⟩

/-- **A run that ends without a message** has carried out every step. -/
theorem run_eq_none_iff {steps : List τ} {s s' : σ} :
    run refusal effect steps s = (s', none) ↔
      Accepted refusal effect steps s ∧ after effect steps s = s' := by
  constructor
  · intro h
    rcases accepted_or_stopsAt refusal effect steps s with
      haccepted | ⟨done, message, hstops⟩
    · rw [run_of_forall haccepted] at h
      exact ⟨haccepted, (Prod.mk.inj h).1⟩
    · rw [run_of_stopsAt hstops] at h
      exact absurd (Prod.mk.inj h).2 (Option.some_ne_none message)
  · rintro ⟨haccepted, rfl⟩
    exact run_of_forall haccepted

/-- **A run ends in the state** after the steps that were carried out. -/
theorem run_fst (steps : List τ) (s : σ) :
    (run refusal effect steps s).1 = after effect (carried refusal effect steps s) s := by
  induction steps generalizing s with
  | nil => rfl
  | cons step steps ih =>
    rw [run, carried]
    cases refusal step s with
    | some message => rfl
    | none => exact ih (effect step s)

theorem accepted_carried (steps : List τ) (s : σ) :
    Accepted refusal effect (carried refusal effect steps s) s := by
  induction steps generalizing s with
  | nil => trivial
  | cons step steps ih =>
    rw [carried]
    cases hstep : refusal step s with
    | some message => trivial
    | none => exact ⟨hstep, ih (effect step s)⟩

theorem carried_subset (steps : List τ) (s : σ) : carried refusal effect steps s ⊆ steps := by
  induction steps generalizing s with
  | nil => exact List.Subset.refl []
  | cons step steps ih =>
    rw [carried]
    cases refusal step s with
    | some message => exact List.nil_subset _
    | none => exact List.cons_subset_cons step (ih (effect step s))

/-- Steps that are refused or not whatever the state. -/
theorem accepted_iff_forall (hstate : ∀ step s s', refusal step s = refusal step s')
    {steps : List τ} {s : σ} :
    Accepted refusal effect steps s ↔ ∀ step ∈ steps, refusal step s = none := by
  induction steps generalizing s with
  | nil => exact iff_of_true trivial fun step h => absurd h List.not_mem_nil
  | cons step steps ih =>
    rw [List.forall_mem_cons, Accepted, ih]
    refine and_congr_right fun _ => forall₂_congr fun step' _ => ?_
    rw [hstate step' (effect step s) s]

end Refusal

end ChilopodCaster
