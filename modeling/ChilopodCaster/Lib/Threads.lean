import Mathlib.Algebra.BigOperators.Group.Finset.Piecewise
import Mathlib.Algebra.Order.BigOperators.Group.Finset
import Mathlib.Data.Fintype.BigOperators

/-!
# Counting threads

Finitely many threads, each of which is somewhere in a program. A weight for each place gives a
total, which changes by what the thread that moves leaves and reaches.

## Main results

* `total_update` — the total after a thread has moved
-/

namespace ChilopodCaster

namespace Threads

variable {W α : Type*} [Fintype W] (weight : α → ℕ) (pc : W → α)

/-- The sum of the weights of the places where the threads are. -/
def total : ℕ := ∑ w, weight (pc w)

theorem total_update [DecidableEq W] (w : W) (a : α) :
    total weight (Function.update pc w a) + weight (pc w) = total weight pc + weight a := by
  have hcomp : (fun w' => weight (Function.update pc w a w')) =
      Function.update (fun w' => weight (pc w')) w (weight a) := by
    funext w'
    by_cases hw : w' = w
    · rw [hw, Function.update_self, Function.update_self]
    · rw [Function.update_of_ne hw, Function.update_of_ne hw]
  rw [total, hcomp, Finset.sum_update_of_mem (Finset.mem_univ w), total,
    Finset.sum_eq_add_sum_sdiff_singleton_of_mem (Finset.mem_univ w)]
  omega

variable {weight pc}

theorem total_le_total {pc' : W → α} (h : ∀ w, weight (pc w) ≤ weight (pc' w)) :
    total weight pc ≤ total weight pc' :=
  Finset.sum_le_sum fun w _ => h w

theorem total_eq_zero (h : ∀ w, weight (pc w) = 0) : total weight pc = 0 :=
  Finset.sum_eq_zero fun w _ => h w

end Threads

end ChilopodCaster
