import Mathlib.Data.List.Perm.Basic
import Mathlib.Tactic.Common

/-!
# Rings

A ring has a fixed number of slots. The elements of a sequence are written to them in turn, so an
element goes to the slot of its place modulo the number of slots, over an older one.

## Main definitions

* `Ring.Holds` — what a ring holds of a sequence that was written to it: the last elements

## Main results

* `Ring.Holds.write` — one element more
-/

namespace ChilopodCaster

namespace Ring

variable {α : Type*} {c : ℕ} {init : α} {slots xs : List α}

/-- The slots hold the last elements of the sequence, each one at its place; those that have not
been written hold what they held at first. -/
structure Holds (c : ℕ) (init : α) (slots xs : List α) : Prop where
  length_eq : slots.length = c
  written : ∀ j < xs.length, xs.length ≤ j + c → slots[j % c]? = xs[j]?
  unwritten : ∀ i < c, xs.length ≤ i → slots[i]? = some init
  perm : slots.Perm (xs.drop (xs.length - c) ++ List.replicate (c - xs.length) init)

/-- A ring to which nothing has been written. -/
theorem holds_replicate (c : ℕ) (init : α) : Holds c init (List.replicate c init) [] where
  length_eq := List.length_replicate
  written j h := absurd h (Nat.not_lt_zero j)
  unwritten i hi _ := by rw [List.getElem?_replicate, if_pos hi]
  perm := by rw [List.drop_nil, List.nil_append, List.length_nil, Nat.sub_zero]

/-- What is at the slot that is written next, and what is elsewhere. -/
theorem Holds.next_perm (h : Holds c init slots xs) (hc : 0 < c) (x : α) :
    (slots.set (xs.length % c) x).Perm
      ((xs ++ [x]).drop ((xs ++ [x]).length - c) ++
        List.replicate (c - (xs ++ [x]).length) init) := by
  have hlt : xs.length % c < slots.length := by
    rw [h.length_eq]
    exact Nat.mod_lt _ hc
  have hset := List.set_perm_cons_eraseIdx hlt x
  have herase := List.getElem_cons_eraseIdx_perm hlt
  rw [List.length_append, List.length_singleton]
  by_cases hfull : xs.length < c
  · -- the slot has not been written
    have hslot : slots[xs.length % c] = init := by
      have hinit := h.unwritten xs.length hfull (Nat.le_refl _)
      rw [Nat.mod_eq_of_lt hfull] at hlt
      rw [List.getElem?_eq_getElem hlt] at hinit
      simpa only [Nat.mod_eq_of_lt hfull] using Option.some.inj hinit
    have hperm := h.perm
    rw [Nat.sub_eq_zero_of_le (Nat.le_of_lt hfull), List.drop_zero] at hperm
    have hrep : List.replicate (c - xs.length) init =
        init :: List.replicate (c - (xs.length + 1)) init := by
      rw [← List.replicate_succ]
      congr 1
      omega
    rw [hrep] at hperm
    rw [hslot] at herase
    have hrest : (slots.eraseIdx (xs.length % c)).Perm
        (xs ++ List.replicate (c - (xs.length + 1)) init) :=
      ((herase.trans hperm).trans List.perm_middle).cons_inv
    rw [Nat.sub_eq_zero_of_le hfull, List.drop_zero, List.append_assoc]
    exact (hset.trans (hrest.cons x)).trans List.perm_middle.symm
  · -- the slot holds the oldest element
    have hle : c ≤ xs.length := Nat.le_of_not_lt hfull
    have hold : xs.length - c < xs.length := by omega
    have hslot : slots[xs.length % c] = xs[xs.length - c] := by
      have hwritten := h.written (xs.length - c) hold (by omega)
      have hmod : (xs.length - c) % c = xs.length % c := (Nat.mod_eq_sub_mod hle).symm
      rw [hmod, List.getElem?_eq_getElem hlt, List.getElem?_eq_getElem hold] at hwritten
      exact Option.some.inj hwritten
    have hperm := h.perm
    rw [Nat.sub_eq_zero_of_le hle, List.replicate_zero, List.append_nil,
      List.drop_eq_getElem_cons hold] at hperm
    rw [hslot] at herase
    have hrest : (slots.eraseIdx (xs.length % c)).Perm (xs.drop (xs.length - c + 1)) :=
      (herase.trans hperm).cons_inv
    have hdrop : xs.length + 1 - c = xs.length - c + 1 := by omega
    have hnone : c - (xs.length + 1) = 0 := by omega
    rw [hnone, List.replicate_zero, List.append_nil, hdrop,
      List.drop_append_of_le_length (by omega)]
    exact (hset.trans (hrest.cons x)).trans (List.perm_append_singleton x _).symm

/-- **One element more.** -/
theorem Holds.write (h : Holds c init slots xs) (hc : 0 < c) (x : α) :
    Holds c init (slots.set (xs.length % c) x) (xs ++ [x]) where
  length_eq := by rw [List.length_set, h.length_eq]
  written j hj hwindow := by
    rw [List.length_append, List.length_singleton] at hj hwindow
    have hmod := Nat.mod_lt xs.length hc
    rcases Nat.lt_succ_iff_lt_or_eq.mp hj with hj | rfl
    · have hne : xs.length % c ≠ j % c := by
        intro heq
        have hzero := Nat.sub_mod_eq_zero_of_mod_eq heq
        rw [Nat.mod_eq_of_lt (by omega)] at hzero
        omega
      rw [List.getElem?_set_ne hne, h.written j hj (by omega), List.getElem?_append_left hj]
    · rw [List.getElem?_set_self (by rw [h.length_eq]; exact hmod), List.getElem?_concat_length]
  unwritten i hi hle := by
    rw [List.length_append, List.length_singleton] at hle
    rw [Nat.mod_eq_of_lt (by omega), List.getElem?_set_ne (by omega)]
    exact h.unwritten i hi (by omega)
  perm := h.next_perm hc x

end Ring

end ChilopodCaster
