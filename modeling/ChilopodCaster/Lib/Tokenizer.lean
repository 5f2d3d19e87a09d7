import Mathlib.Data.Nat.Notation
import Mathlib.Tactic.Common

/-!
# Cutting a stream into tokens

A stream arrives in pieces, and a receiver takes off its front the tokens that are complete. A
`Tokenizer` is the rule it cuts by: `cut` takes one token off the front of a buffer, or answers
that the buffer must grow first. A rule that never changes its mind when more arrives (`stable`)
makes the tokens of a stream independent of the pieces it arrives in: `Tokenizer.tokens_append`.
-/

namespace ChilopodCaster

variable {α τ : Type}

/-- A rule for cutting a stream into tokens. -/
structure Tokenizer (α τ : Type) where
  /-- The first token of the buffer and the rest of it, if a whole token is there. -/
  cut : List α → Option (τ × List α)
  /-- A token is never empty. -/
  progress : ∀ {x t r}, cut x = some (t, r) → r.length < x.length
  /-- What follows a token does not change it. -/
  stable : ∀ {x t r} (y), cut x = some (t, r) → cut (x ++ y) = some (t, r ++ y)

namespace Tokenizer

variable (T : Tokenizer α τ)

/-- All the tokens that are complete in a buffer, and what is left of it. -/
def tokens (x : List α) : List τ × List α :=
  match h : T.cut x with
  | none => ([], x)
  | some (t, r) =>
    have := T.progress h
    (t :: (tokens r).1, (tokens r).2)
termination_by x.length

theorem tokens_of_cut_none {x : List α} (h : T.cut x = none) : T.tokens x = ([], x) := by
  rw [tokens]
  split
  · rfl
  · next h' => rw [h] at h'; contradiction

theorem tokens_of_cut {x r : List α} {t : τ} (h : T.cut x = some (t, r)) :
    T.tokens x = (t :: (T.tokens r).1, (T.tokens r).2) := by
  rw [tokens]
  split
  · next h' => rw [h] at h'; contradiction
  · next h' =>
    rw [h] at h'
    obtain ⟨rfl, rfl⟩ := Prod.mk.injEq .. ▸ Option.some.inj h'
    rfl

/-- What every token that is cut off is like, the tokens of a stream are like. -/
theorem forall_mem_tokens {P : τ → Prop} (hcut : ∀ {x t r}, T.cut x = some (t, r) → P t)
    (x : List α) : ∀ t ∈ (T.tokens x).1, P t := by
  induction hlength : x.length using Nat.strongRecOn generalizing x with
  | ind n ih =>
    cases h : T.cut x with
    | none =>
      rw [T.tokens_of_cut_none h]
      exact List.forall_mem_nil P
    | some s =>
      obtain ⟨t, r⟩ := s
      rw [T.tokens_of_cut h]
      exact List.forall_mem_cons.mpr ⟨hcut h, ih r.length (hlength ▸ T.progress h) r rfl⟩

/-- **Tokens do not depend on how the stream is split.** Cutting a first piece and then what is left
of it with the next piece gives the tokens of both pieces together. -/
theorem tokens_append (x y : List α) :
    T.tokens (x ++ y) =
      ((T.tokens x).1 ++ (T.tokens ((T.tokens x).2 ++ y)).1,
        (T.tokens ((T.tokens x).2 ++ y)).2) := by
  induction hn : x.length using Nat.strongRecOn generalizing x with
  | ind n ih =>
    cases hcut : T.cut x with
    | none => rw [T.tokens_of_cut_none hcut, List.nil_append]
    | some tr =>
      obtain ⟨t, r⟩ := tr
      have hlt := T.progress hcut
      rw [T.tokens_of_cut (T.stable y hcut), T.tokens_of_cut hcut, ih r.length (by omega) r rfl,
        List.cons_append]

end Tokenizer

end ChilopodCaster
