import Mathlib.Algebra.Order.Field.Basic

/-!
# Extended numbers with NaN

The values of a floating-point format without its rounding: the numbers of a field, two infinities,
and a value that is not a number. The comparisons are those of the format. None of them holds of
NaN, so that a range check written as a rejection lets it through.

## Main results

* `exists_fin_of_range` — what is neither NaN nor out of a range is a number in it
-/

namespace ChilopodCaster

/-- The numbers, the infinities (`inf true` is the negative one), and NaN. -/
inductive Extended (K : Type*)
  | nan
  | inf (neg : Bool)
  | fin (q : K)
  deriving DecidableEq, Repr

namespace Extended

variable {K : Type*}

section Operations

variable [Field K]

/-- The opposite. -/
def neg : Extended K → Extended K
  | nan => nan
  | inf s => inf !s
  | fin a => fin (-a)

/-- The sum. Infinities of opposite signs have none. -/
def add : Extended K → Extended K → Extended K
  | nan, _ => nan
  | _, nan => nan
  | inf s, inf t => if s = t then inf s else nan
  | inf s, fin _ => inf s
  | fin _, inf t => inf t
  | fin a, fin b => fin (a + b)

/-- The quotient by a positive number. -/
def divPos (x : Extended K) (b : K) : Extended K :=
  match x with
  | nan => nan
  | inf s => inf s
  | fin a => fin (a / b)

end Operations

variable [LinearOrder K]

/-- The comparison `x < y`. -/
def lt : Extended K → Extended K → Bool
  | nan, _ => false
  | _, nan => false
  | inf s, inf t => s && !t
  | inf s, fin _ => s
  | fin _, inf t => !t
  | fin a, fin b => a < b

/-- The comparison `x <= y`. -/
def le : Extended K → Extended K → Bool
  | nan, _ => false
  | _, nan => false
  | inf s, inf t => s || !t
  | inf s, fin _ => s
  | fin _, inf t => !t
  | fin a, fin b => a ≤ b

/-- No comparison holds of NaN. -/
@[simp] theorem nan_lt (x : Extended K) : lt nan x = false := by cases x <;> rfl

@[simp] theorem lt_nan (x : Extended K) : lt x nan = false := by cases x <;> rfl

@[simp] theorem le_nan (x : Extended K) : le x nan = false := by cases x <;> rfl

/-- **A range.** What is not NaN, and is not found out of a range, is a number of the range. -/
theorem exists_fin_of_range {x : Extended K} (hnan : x ≠ nan) {lo hi : K}
    (hlo : lt x (fin lo) = false) (hhi : lt (fin hi) x = false) :
    ∃ q, x = fin q ∧ lo ≤ q ∧ q ≤ hi := by
  cases x with
  | nan => exact absurd rfl hnan
  | inf s => cases s <;> contradiction
  | fin q =>
    rw [lt, decide_eq_false_iff_not, not_lt] at hlo hhi
    exact ⟨q, rfl, hlo, hhi⟩

/-- A range whose upper bound is left out. -/
theorem exists_fin_of_range_lt {x : Extended K} (hnan : x ≠ nan) {lo hi : K}
    (hlo : lt x (fin lo) = false) (hhi : le (fin hi) x = false) :
    ∃ q, x = fin q ∧ lo ≤ q ∧ q < hi := by
  cases x with
  | nan => exact absurd rfl hnan
  | inf s => cases s <;> contradiction
  | fin q =>
    rw [lt, decide_eq_false_iff_not, not_lt] at hlo
    rw [le, decide_eq_false_iff_not, not_le] at hhi
    exact ⟨q, rfl, hlo, hhi⟩

end Extended

end ChilopodCaster
