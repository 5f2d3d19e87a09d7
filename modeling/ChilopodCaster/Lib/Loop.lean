import Mathlib.Data.Nat.Notation

/-!
# Loops that leave by a return

A C function whose body is `while (1) { ... return ...; ... continue; }` is one *body*, a function
from the loop's variables to either new variables (go round again) or the value returned. `Loop.run`
iterates a body with a bound on the number of rounds, and answers `none` when the bound is used up.

The bound is never an excuse: `Loop.run_total` is the rule of total correctness. It asks for an
invariant and a measure that every round lowers, and gives back both a result and what holds of it.

`Loop.trace` lists the states a loop goes through. Where an invariant holds only if these states
meet a condition, `Loop.run_of_trace` is the rule of partial correctness.
-/

namespace ChilopodCaster

namespace Loop

variable {σ β : Type}

/-- At most `n` rounds of `body`, stopping at the first one that returns. -/
def run (body : σ → σ ⊕ β) : ℕ → σ → Option β
  | 0, _ => none
  | n + 1, s =>
    match body s with
    | .inl s' => run body n s'
    | .inr b => some b

/-- A loop that has returned does not use more rounds. -/
theorem run_mono {body : σ → σ ⊕ β} {n m : ℕ} {s : σ} {b : β} (h : run body n s = some b)
    (hle : n ≤ m) : run body m s = some b := by
  induction n generalizing m s with
  | zero => exact absurd h (by simp [run])
  | succ n ih =>
    obtain ⟨m, rfl⟩ : ∃ m', m = m' + 1 := ⟨m - 1, by omega⟩
    rw [run] at h ⊢
    cases hb : body s with
    | inl s' =>
      rw [hb] at h
      exact ih h (by omega)
    | inr b' =>
      rw [hb] at h
      exact h

/-- What one round must do: keep the invariant and lower the measure, or return what is wanted. -/
def Round (body : σ → σ ⊕ β) (inv : σ → Prop) (measure : σ → ℕ) (post : β → Prop) (s : σ) : Prop :=
  match body s with
  | .inl s' => inv s' ∧ measure s' < measure s
  | .inr b => post b

/-- **Total correctness of a loop.** An invariant, a measure that each round lowers, and more rounds
than the measure: the loop returns, and the value returned satisfies the postcondition. -/
theorem run_total {body : σ → σ ⊕ β} (inv : σ → Prop) (measure : σ → ℕ) {post : β → Prop}
    (hround : ∀ s, inv s → Round body inv measure post s) :
    ∀ (n : ℕ) (s : σ), inv s → measure s < n → ∃ b, run body n s = some b ∧ post b := by
  intro n
  induction n with
  | zero => intro s _ hn; exact absurd hn (Nat.not_lt_zero _)
  | succ n ih =>
    intro s hs hn
    have hr := hround s hs
    rw [Round] at hr
    rw [run]
    cases hb : body s with
    | inl s' =>
      rw [hb] at hr
      exact ih s' hr.1 (Nat.lt_of_lt_of_le hr.2 (Nat.le_of_lt_succ hn))
    | inr b =>
      rw [hb] at hr
      exact ⟨b, rfl, hr⟩

/-- The states in which the rounds of `run` start. -/
def trace (body : σ → σ ⊕ β) : ℕ → σ → List σ
  | 0, _ => []
  | n + 1, s =>
    s :: match body s with
    | .inl s' => trace body n s'
    | .inr _ => []

/-- What one round must do for an invariant: keep it, or return what is wanted. -/
def Keeps (body : σ → σ ⊕ β) (inv : σ → Prop) (post : β → Prop) (s : σ) : Prop :=
  match body s with
  | .inl s' => inv s'
  | .inr b => post b

/-- **Partial correctness of a loop.** An invariant that is kept by every round that starts in a
state of the trace. -/
theorem run_of_trace {body : σ → σ ⊕ β} {inv : σ → Prop} (ok : σ → Prop) {post : β → Prop}
    (hround : ∀ s, inv s → ok s → Keeps body inv post s) {n : ℕ} {s : σ} {b : β} (hs : inv s)
    (htrace : ∀ s' ∈ trace body n s, ok s') (hrun : run body n s = some b) : post b := by
  induction n generalizing s with
  | zero => exact absurd hrun (by simp [run])
  | succ n ih =>
    have hr := hround s hs (htrace s (by rw [trace]; exact List.mem_cons_self))
    rw [Keeps] at hr
    rw [run] at hrun
    cases hb : body s with
    | inl s' =>
      rw [hb] at hr hrun
      refine ih hr (fun s'' hs'' => htrace s'' ?_) hrun
      rw [trace, hb]
      exact List.mem_cons_of_mem s hs''
    | inr b' =>
      rw [hb] at hr hrun
      rwa [← Option.some.inj hrun]

/-- Such an invariant holds in a state of the trace, whatever the rounds after it do. -/
theorem trace_at {body : σ → σ ⊕ β} {inv ok : σ → Prop}
    (hround : ∀ s s', inv s → ok s → body s = .inl s' → inv s') {n : ℕ} {s s' : σ}
    {before after : List σ} (hs : inv s) (htrace : trace body n s = before ++ s' :: after)
    (hbefore : ∀ s'' ∈ before, ok s'') : inv s' := by
  induction n generalizing s before with
  | zero => exact absurd htrace (by simp [trace])
  | succ n ih =>
    rw [trace] at htrace
    cases before with
    | nil =>
      obtain ⟨rfl, -⟩ := List.cons.inj htrace
      exact hs
    | cons s₀ before =>
      obtain ⟨rfl, htail⟩ := List.cons.inj htrace
      cases hb : body s with
      | inl s₁ =>
        rw [hb] at htail
        exact ih (hround s s₁ hs (hbefore s List.mem_cons_self) hb) htail
          fun s'' hs'' => hbefore s'' (List.mem_cons_of_mem s hs'')
      | inr b =>
        rw [hb] at htail
        exact absurd htail (by simp)

/-- Such an invariant holds in all states of the trace. -/
theorem trace_all {body : σ → σ ⊕ β} {inv ok : σ → Prop}
    (hround : ∀ s s', inv s → ok s → body s = .inl s' → inv s') {n : ℕ} {s : σ} (hs : inv s)
    (htrace : ∀ s' ∈ trace body n s, ok s') : ∀ s' ∈ trace body n s, inv s' := by
  intro s' hs'
  obtain ⟨before, after, heq⟩ := List.append_of_mem hs'
  exact trace_at hround hs heq fun s'' hs'' => htrace s'' (heq ▸ List.mem_append_left _ hs'')

/-- The same, for an invariant that every round keeps. -/
theorem run_of_keeps {body : σ → σ ⊕ β} (inv : σ → Prop) (post : β → Prop)
    (hround : ∀ s, inv s → Keeps body inv post s) {n : ℕ} {s : σ} {b : β} (hs : inv s)
    (hrun : run body n s = some b) : post b :=
  run_of_trace (fun _ => True) (fun s hs _ => hround s hs) hs (fun _ _ => trivial) hrun

end Loop

end ChilopodCaster
