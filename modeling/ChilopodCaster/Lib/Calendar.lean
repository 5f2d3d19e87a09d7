import Mathlib.Algebra.Order.Ring.Int
import Mathlib.Tactic.Common

/-!
# The Gregorian calendar

Days are counted from 1 January 1970, forwards and backwards, in the calendar of today. A date is a
year, a month from 1 to 12 and a day from 1; a day too large for its month runs on into the next
one.

## Main definitions

* `yearStart` — the first day of a year
* `days` — the number of a date
* `civilYear`, `civilMonth`, `civilDay` — the date of a number

## Main results

* `days_civil` — the number of the date of a number
* `civilMonth_mem`, `civilDay_mem` — months and days are within their ranges
-/

namespace ChilopodCaster

namespace Calendar

/-! ### From a date to a number -/

/-- A leap year. -/
def isLeap (y : ℤ) : Bool := y % 4 = 0 ∧ (y % 100 ≠ 0 ∨ y % 400 = 0)

/-- The number of 1 January: 365 days a year and one for each leap year, 477 of which come before
1970. -/
def yearStart (y : ℤ) : ℤ :=
  365 * (y - 1970) + ((y - 1) / 4 - (y - 1) / 100 + (y - 1) / 400 - 477)

/-- The days of a year before a month. -/
def monthStart (leap : Bool) (m : ℕ) : ℕ :=
  [0, 31, 59, 90, 120, 151, 181, 212, 243, 273, 304, 334].getD (m - 1) 0 +
    if leap ∧ 2 < m then 1 else 0

/-- The number of a date. -/
def days (y : ℤ) (m d : ℕ) : ℤ := yearStart y + monthStart (isLeap y) m + (d - 1)

theorem yearStart_succ (y : ℤ) :
    yearStart (y + 1) = yearStart y + 365 + if isLeap y then 1 else 0 := by
  rw [yearStart, yearStart, isLeap]
  split
  · next h =>
    rw [decide_eq_true_iff] at h
    omega
  · next h =>
    rw [decide_eq_true_iff] at h
    omega

/-! ### From a number to a date -/

/-- The year of a day: 400 years are 146097 days, which gives the year to within one. -/
def civilYear (n : ℤ) : ℤ :=
  let y := 1970 + 400 * n / 146097
  if n < yearStart y then y - 1 else if yearStart (y + 1) ≤ n then y + 1 else y

/-- The days of the year before a day. -/
def yearDay (n : ℤ) : ℕ := (n - yearStart (civilYear n)).toNat

/-- The month of a day of a year: how many months have started. -/
def monthOf (leap : Bool) (yday : ℕ) : ℕ :=
  (List.range' 1 12).countP fun m => monthStart leap m ≤ yday

/-- The month of a day. -/
def civilMonth (n : ℤ) : ℕ := monthOf (isLeap (civilYear n)) (yearDay n)

/-- The day of the month. -/
def civilDay (n : ℤ) : ℕ :=
  yearDay n - monthStart (isLeap (civilYear n)) (civilMonth n) + 1

/-- **The year of a day** is the one that has started and is not over. -/
theorem yearStart_civilYear (n : ℤ) :
    yearStart (civilYear n) ≤ n ∧ n < yearStart (civilYear n + 1) := by
  have hnear : yearStart (1970 + 400 * n / 146097 - 1) ≤ n ∧
      n < yearStart (1970 + 400 * n / 146097 + 1 + 1) := by
    rw [yearStart, yearStart]
    omega
  rw [civilYear]
  split
  · next hlt =>
    rw [Int.sub_add_cancel]
    exact ⟨hnear.1, hlt⟩
  · next hge =>
    split
    · next hle => exact ⟨hle, hnear.2⟩
    · next hlt => exact ⟨Int.not_lt.mp hge, Int.not_le.mp hlt⟩

theorem yearDay_lt (n : ℤ) :
    yearDay n < 365 + if isLeap (civilYear n) then 1 else 0 := by
  obtain ⟨hle, hlt⟩ := yearStart_civilYear n
  rw [yearStart_succ] at hlt
  rw [yearDay]
  split at hlt
  · next h =>
    rw [if_pos h]
    omega
  · next h =>
    rw [if_neg h]
    omega

/-- How many values of a function that grows are at most `y`: those before are, and the next one is
not. -/
theorem countP_range'_spec {f : ℕ → ℕ} {y k : ℕ} (hf : ∀ m, m < k → f m ≤ f (m + 1)) :
    (List.range' 1 k).countP (fun m => f m ≤ y) ≤ k ∧
      (∀ m, 1 ≤ m → m ≤ (List.range' 1 k).countP (fun m => f m ≤ y) → f m ≤ y) ∧
      ((List.range' 1 k).countP (fun m => f m ≤ y) < k →
        y < f ((List.range' 1 k).countP (fun m => f m ≤ y) + 1)) := by
  induction k with
  | zero =>
    exact ⟨le_rfl, fun m h h' => absurd (h.trans h') (Nat.not_succ_le_zero 0),
      fun h => absurd h (lt_irrefl 0)⟩
  | succ k ih =>
    obtain ⟨hle, hbefore, hnext⟩ := ih fun m hm => hf m (by omega)
    rw [List.range'_concat, List.countP_append, List.countP_singleton, Nat.one_mul,
      Nat.add_comm 1 k]
    generalize (List.range' 1 k).countP (fun m => f m ≤ y) = n at *
    by_cases hy : f (k + 1) ≤ y
    · have hn : n = k := by
        by_contra hne
        have hmono : ∀ j, n + 1 ≤ j → j ≤ k + 1 → f (n + 1) ≤ f j := by
          intro j hj
          induction j, hj using Nat.le_induction with
          | base => exact fun _ => le_rfl
          | succ j _ ih => exact fun hjk => (ih (by omega)).trans (hf j (by omega))
        have := hmono (k + 1) (by omega) le_rfl
        have := hnext (by omega)
        omega
      rw [if_pos (decide_eq_true hy), hn]
      refine ⟨le_rfl, fun m h h' => ?_, fun h => absurd h (lt_irrefl _)⟩
      rcases h'.lt_or_eq with hlt | rfl
      · exact hbefore m h (by omega)
      · exact hy
    · rw [if_neg (mt of_decide_eq_true hy)]
      refine ⟨by omega, hbefore, fun _ => ?_⟩
      rcases hle.lt_or_eq with hlt | rfl
      · exact hnext hlt
      · exact Nat.lt_of_not_le hy

/-- A month that has started and is not over. -/
theorem monthOf_spec (leap : Bool) {yday : ℕ} (h : yday < 365 + if leap then 1 else 0) :
    1 ≤ monthOf leap yday ∧ monthOf leap yday ≤ 12 ∧
      monthStart leap (monthOf leap yday) ≤ yday ∧
      yday < monthStart leap (monthOf leap yday) + 31 := by
  have hgrows : ∀ leap, ∀ m < 12, monthStart leap m ≤ monthStart leap (m + 1) := by decide
  have hlong : ∀ leap, ∀ m < 12, monthStart leap (m + 1) ≤ monthStart leap m + 31 := by decide
  have hend : ∀ leap, monthStart leap 12 + 31 = 365 + (if leap then 1 else 0) := by decide
  obtain ⟨hle, hbefore, hnext⟩ := @countP_range'_spec _ yday _ (hgrows leap)
  have hone : 1 ≤ monthOf leap yday := by
    by_contra hzero
    have hstart : ∀ leap, monthStart leap 1 = 0 := by decide
    have hzero' : monthOf leap yday = 0 := by omega
    rw [monthOf] at hzero'
    rw [hzero'] at hnext
    have := hnext (by decide)
    rw [Nat.zero_add, hstart] at this
    omega
  refine ⟨hone, hle, hbefore _ hone le_rfl, ?_⟩
  rcases hle.lt_or_eq with hlt | heq
  · exact (hnext hlt).trans_le (hlong leap _ hlt)
  · rw [monthOf, heq, hend]
    exact h

theorem civilMonth_mem (n : ℤ) : 1 ≤ civilMonth n ∧ civilMonth n ≤ 12 :=
  have h := monthOf_spec _ (yearDay_lt n)
  ⟨h.1, h.2.1⟩

theorem civilDay_mem (n : ℤ) : 1 ≤ civilDay n ∧ civilDay n ≤ 31 := by
  obtain ⟨-, -, hle, hlt⟩ := monthOf_spec _ (yearDay_lt n)
  rw [civilDay, civilMonth]
  omega

/-- **The date of a number has that number.** -/
theorem days_civil (n : ℤ) : days (civilYear n) (civilMonth n) (civilDay n) = n := by
  obtain ⟨-, -, hle, -⟩ := monthOf_spec _ (yearDay_lt n)
  have hyear := (yearStart_civilYear n).1
  rw [days, civilDay, civilMonth]
  have hday : (yearDay n : ℤ) = n - yearStart (civilYear n) := by
    rw [yearDay, Int.toNat_of_nonneg (by omega)]
  omega

end Calendar

end ChilopodCaster
