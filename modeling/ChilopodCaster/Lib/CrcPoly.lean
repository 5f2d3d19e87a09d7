import ChilopodCaster.Lib.Crc
import Mathlib.Algebra.Polynomial.Div
import Mathlib.Algebra.Field.ZMod
import Mathlib.RingTheory.Coprime.Lemmas
import Mathlib.Algebra.CharP.Two
import Mathlib.Tactic.LinearCombination

/-!
# Cyclic redundancy checks as polynomials

A string of bits is a polynomial over the field of two elements, the first bit being the coefficient
of the highest power. The checksum of a string is the remainder of its polynomial, times `X ^ w`, by
the generator, which is the polynomial of the register with a leading term. A string with its
checksum behind it is then a multiple of the generator; so is the difference of two such strings,
and a short difference cannot be one.

## Main definitions

* `toPoly` — the polynomial of a number written in binary
* `generator` — the generator of a register of `w` bits

## Main results

* `toPoly_ofBits` — the checksum is a remainder
* `generator_dvd_iff` — what follows a string is its checksum when both together are a multiple
* `eq_of_generator_dvd` — two multiples that differ in a short stretch only are equal
-/

namespace ChilopodCaster

namespace Crc

open Polynomial

/-- The coefficient that a bit stands for. -/
def coefficient (b : Bool) : ZMod 2 := if b then 1 else 0

theorem coefficient_xor (a b : Bool) :
    coefficient (a ^^ b) = coefficient a + coefficient b := by
  revert a b
  decide

theorem coefficient_injective : Function.Injective coefficient := by decide

/-- The polynomial of a number written in binary. -/
noncomputable def toPoly (n : ℕ) : (ZMod 2)[X] :=
  ∑ i ∈ Finset.range n, monomial i (coefficient (n.testBit i))

theorem coeff_toPoly (n i : ℕ) : (toPoly n).coeff i = coefficient (n.testBit i) := by
  rw [toPoly, finsetSum_coeff]
  simp only [coeff_monomial, Finset.sum_ite_eq', Finset.mem_range]
  split
  · rfl
  · next hle =>
    rw [Nat.testBit_lt_two_pow (Nat.lt_two_pow_self.trans_le
      (Nat.pow_le_pow_right (by decide) (Nat.le_of_not_lt hle)))]
    rfl

theorem toPoly_injective : Function.Injective toPoly := by
  intro m n h
  refine Nat.eq_of_testBit_eq fun i => coefficient_injective ?_
  rw [← coeff_toPoly, h, coeff_toPoly]

@[simp] theorem toPoly_zero : toPoly 0 = 0 := by
  ext i
  rw [coeff_toPoly, Nat.zero_testBit]
  rfl

theorem toPoly_xor (m n : ℕ) : toPoly (m ^^^ n) = toPoly m + toPoly n := by
  ext i
  rw [coeff_add, coeff_toPoly, coeff_toPoly, coeff_toPoly, Nat.testBit_xor, coefficient_xor]

theorem degree_toPoly_lt {n k : ℕ} (h : n < 2 ^ k) : (toPoly n).degree < k := by
  rw [degree_lt_iff_coeff_zero]
  intro i hi
  rw [coeff_toPoly, Nat.testBit_lt_two_pow (h.trans_le (Nat.pow_le_pow_right (by decide) hi))]
  rfl

/-- Bits side by side. -/
theorem toPoly_mul_two_pow_add {v k : ℕ} (h : v < 2 ^ k) (n : ℕ) :
    toPoly (n * 2 ^ k + v) = toPoly n * X ^ k + toPoly v := by
  ext i
  rw [coeff_add, coeff_mul_X_pow', coeff_toPoly, coeff_toPoly, Nat.mul_comm]
  split
  · next hi =>
    rw [coeff_toPoly, Nat.testBit_two_pow_mul_add n h, if_neg (Nat.not_lt.mpr hi),
      Nat.testBit_lt_two_pow (h.trans_le (Nat.pow_le_pow_right (by decide) hi))]
    exact (add_zero _).symm
  · next hi =>
    rw [Nat.testBit_two_pow_mul_add n h, if_pos (Nat.lt_of_not_le hi), zero_add, coeff_toPoly]

theorem toPoly_ofBits_append (l l' : List Bool) :
    toPoly (Bits.ofBits (l ++ l')) =
      toPoly (Bits.ofBits l) * X ^ l'.length + toPoly (Bits.ofBits l') := by
  rw [Bits.ofBits_append, toPoly_mul_two_pow_add (Bits.ofBits_lt l')]

theorem toPoly_toNat (b : Bool) : toPoly b.toNat = C (coefficient b) := by
  cases b with
  | false => exact (map_zero C).symm
  | true =>
    rw [Bool.toNat_true, toPoly, Finset.sum_range_one]
    rfl

section

variable {w : ℕ} (poly : BitVec w)

/-- The generator: the polynomial of the register, with a leading term. -/
noncomputable def generator : (ZMod 2)[X] := toPoly (2 ^ w + poly.toNat)

theorem generator_eq : generator poly = X ^ w + toPoly poly.toNat := by
  have hone : toPoly 1 = 1 := toPoly_toNat true
  rw [generator, ← Nat.one_mul (2 ^ w), toPoly_mul_two_pow_add poly.isLt, hone, one_mul]

theorem generator_monic : (generator poly).Monic := by
  rw [generator_eq]
  exact monic_X_pow_add (degree_toPoly_lt poly.isLt)

theorem degree_generator : (generator poly).degree = w := by
  rw [generator_eq, degree_add_eq_left_of_degree_lt, degree_X_pow]
  rw [degree_X_pow]
  exact degree_toPoly_lt poly.isLt

/-- The bit that a shift loses is the one on top. -/
theorem toNat_mul_two (c : BitVec w) :
    c.toNat * 2 = c.msb.toNat * 2 ^ w + (c <<< 1).toNat := by
  have hdiv : c.toNat * 2 / 2 ^ w = c.msb.toNat := by
    rw [BitVec.msb_eq_decide]
    rcases w with - | w
    · rw [BitVec.eq_nil c]
      rfl
    · have hlt := c.isLt
      rw [Nat.add_sub_cancel, pow_succ, Nat.mul_div_mul_right _ _ (by decide)]
      rw [pow_succ] at hlt
      by_cases hle : 2 ^ w ≤ c.toNat
      · rw [decide_eq_true hle, Bool.toNat_true]
        exact Nat.div_eq_of_lt_le (by omega) (by omega)
      · rw [decide_eq_false hle, Bool.toNat_false]
        exact Nat.div_eq_of_lt (by omega)
  rw [BitVec.toNat_shiftLeft, Nat.shiftLeft_eq, pow_one, ← hdiv, Nat.mul_comm _ (2 ^ w)]
  exact (Nat.div_add_mod _ _).symm

/-- One step of the register, as polynomials. -/
theorem toPoly_step (c : BitVec w) (b : Bool) :
    toPoly c.toNat * X + C (coefficient b) * X ^ w =
      toPoly (step poly c b).toNat + C (coefficient (c.msb ^^ b)) * generator poly := by
  have hshift : toPoly c.toNat * X = C (coefficient c.msb) * X ^ w + toPoly (c <<< 1).toNat := by
    have hdouble := toPoly_mul_two_pow_add (pow_pos (by decide : 0 < 2) 1) c.toNat
    rw [pow_one, pow_one, add_zero, toPoly_zero, add_zero] at hdouble
    rw [← hdouble, toNat_mul_two, toPoly_mul_two_pow_add (c <<< 1).isLt, toPoly_toNat]
  have htop : C (coefficient c.msb) * X ^ w + C (coefficient b) * X ^ w =
      C (coefficient (c.msb ^^ b)) * X ^ w := by
    rw [coefficient_xor, C_add, add_mul]
  rw [hshift, add_right_comm, htop, step]
  cases c.msb ^^ b with
  | false =>
    rw [if_neg Bool.false_ne_true, coefficient, if_neg Bool.false_ne_true, C_0, zero_mul, zero_add,
      zero_mul, add_zero]
  | true =>
    have hself : toPoly poly.toNat + toPoly poly.toNat = 0 := CharTwo.add_self_eq_zero _
    rw [if_pos rfl, BitVec.toNat_xor, toPoly_xor, generator_eq, coefficient, if_pos rfl, C_1,
      one_mul, one_mul]
    linear_combination -hself

theorem generator_dvd_sub (l : List Bool) :
    generator poly ∣ toPoly (Bits.ofBits l) * X ^ w - toPoly (ofBits poly l).toNat := by
  induction l using List.reverseRecOn with
  | nil =>
    rw [Bits.ofBits_nil, ofBits, List.foldl_nil, BitVec.toNat_zero, toPoly_zero, zero_mul, sub_zero]
    exact dvd_zero _
  | append_singleton l b ih =>
    have hlast : ofBits poly (l ++ [b]) = step poly (ofBits poly l) b := by
      rw [ofBits, List.foldl_append]
      rfl
    have hbit : Bits.ofBits [b] = b.toNat := by
      cases b with
      | false => rfl
      | true => rfl
    obtain ⟨q, hq⟩ := ih
    have hstep := toPoly_step poly (ofBits poly l) b
    rw [toPoly_ofBits_append, hlast, hbit, toPoly_toNat]
    refine ⟨q * X + C (coefficient ((ofBits poly l).msb ^^ b)), ?_⟩
    rw [List.length_singleton, pow_one, mul_add, ← mul_assoc, ← hq]
    linear_combination hstep

/-- **The checksum is a remainder.** -/
theorem toPoly_ofBits (l : List Bool) :
    toPoly (ofBits poly l).toNat = toPoly (Bits.ofBits l) * X ^ w %ₘ generator poly := by
  rw [modByMonic_eq_of_dvd_sub (generator_monic poly) (generator_dvd_sub poly l)]
  refine ((modByMonic_eq_self_iff (generator_monic poly)).mpr ?_).symm
  rw [degree_generator]
  exact degree_toPoly_lt (ofBits poly l).isLt

/-- **A string with its checksum behind it** is a multiple of the generator. -/
theorem generator_dvd_iff {l l' : List Bool} (hlength : l'.length = w) :
    generator poly ∣ toPoly (Bits.ofBits (l ++ l')) ↔
      (ofBits poly l).toNat = Bits.ofBits l' := by
  have hlt : Bits.ofBits l' < 2 ^ w := hlength ▸ Bits.ofBits_lt l'
  have hsplit : toPoly (Bits.ofBits (l ++ l')) =
      (toPoly (Bits.ofBits l) * X ^ w - toPoly (ofBits poly l).toNat) +
        (toPoly (ofBits poly l).toNat + toPoly (Bits.ofBits l')) := by
    rw [toPoly_ofBits_append, hlength]
    ring
  have hdegree : (toPoly (ofBits poly l).toNat + toPoly (Bits.ofBits l')).degree <
      (generator poly).degree := by
    rw [degree_generator]
    exact (degree_add_le _ _).trans_lt
      (max_lt (degree_toPoly_lt (ofBits poly l).isLt) (degree_toPoly_lt hlt))
  rw [hsplit, dvd_add_right (generator_dvd_sub poly l), ← toPoly_injective.eq_iff,
    ← CharTwo.add_eq_zero]
  constructor
  · intro hdvd
    by_contra hne
    exact (generator_monic poly).not_dvd_of_degree_lt hne hdegree hdvd
  · intro heq
    rw [heq]
    exact dvd_zero _

/-- A generator with a constant term has no factor `X`. -/
theorem isCoprime_generator (hodd : poly.getLsbD 0 = true) (hw : 0 < w) (n : ℕ) :
    IsCoprime (generator poly) (X ^ n) := by
  have hdvd : X ∣ generator poly - 1 := by
    rw [X_dvd_iff, generator_eq, coeff_sub, coeff_add, coeff_X_pow, if_neg hw.ne, zero_add,
      coeff_toPoly, BitVec.testBit_toNat, hodd, coeff_one_zero]
    rfl
  obtain ⟨q, hq⟩ := hdvd
  exact IsCoprime.pow_right ⟨1, -q, by linear_combination hq⟩

end

/-! ### Bursts -/

/-- Two strings differ in a stretch of `n` bits only. -/
def DifferWithin {α : Type*} (n : ℕ) (l l' : List α) : Prop :=
  ∃ s, ∀ i, l[i]? ≠ l'[i]? → s ≤ i ∧ i < s + n

/-- What two strings that differ in a stretch only are made of. -/
theorem DifferWithin.exists_eq_append {α : Type*} {n : ℕ} {l l' : List α} (h : DifferWithin n l l')
    (hlength : l.length = l'.length) :
    ∃ a m m' z, l = a ++ (m ++ z) ∧ l' = a ++ (m' ++ z) ∧ m.length = m'.length ∧ m.length ≤ n := by
  obtain ⟨s, hs⟩ := h
  have htake : l.take s = l'.take s := by
    refine List.ext_getElem? fun i => ?_
    rw [List.getElem?_take, List.getElem?_take]
    split
    · next hi => exact by_contra fun hne => Nat.not_le.mpr hi (hs i hne).1
    · rfl
  have hdrop : l.drop (s + n) = l'.drop (s + n) := by
    refine List.ext_getElem? fun i => ?_
    rw [List.getElem?_drop, List.getElem?_drop]
    exact by_contra fun hne => by have := (hs _ hne).2; omega
  refine ⟨l.take s, (l.drop s).take n, (l'.drop s).take n, l.drop (s + n), ?_, ?_, ?_, ?_⟩
  · rw [← List.drop_drop, List.take_append_drop, List.take_append_drop]
  · rw [htake, hdrop, ← List.drop_drop, List.take_append_drop, List.take_append_drop]
  · rw [List.length_take, List.length_take, List.length_drop, List.length_drop, hlength]
  · exact List.length_take_le _ _

/-- **Short bursts are found.** Two multiples of a generator with a constant term that differ in a
stretch no longer than the register are equal. -/
theorem eq_of_generator_dvd {w : ℕ} {poly : BitVec w} (hodd : poly.getLsbD 0 = true) {n : ℕ}
    (hn : n ≤ w) {l l' : List Bool} (hlength : l.length = l'.length) (h : DifferWithin n l l')
    (hl : generator poly ∣ toPoly (Bits.ofBits l))
    (hl' : generator poly ∣ toPoly (Bits.ofBits l')) : l = l' := by
  obtain ⟨a, m, m', z, rfl, rfl, hm, hmn⟩ := h.exists_eq_append hlength
  have hdiff : toPoly (Bits.ofBits (a ++ (m ++ z))) - toPoly (Bits.ofBits (a ++ (m' ++ z))) =
      (toPoly (Bits.ofBits m) - toPoly (Bits.ofBits m')) * X ^ z.length := by
    rw [toPoly_ofBits_append, toPoly_ofBits_append, toPoly_ofBits_append, toPoly_ofBits_append,
      List.length_append, List.length_append, hm]
    ring
  have hdvd : generator poly ∣ toPoly (Bits.ofBits m) - toPoly (Bits.ofBits m') := by
    rcases Nat.eq_zero_or_pos w with rfl | hw
    · rw [BitVec.eq_nil poly] at hodd
      contradiction
    · refine (isCoprime_generator poly hodd hw z.length).dvd_of_dvd_mul_right ?_
      rw [← hdiff]
      exact dvd_sub hl hl'
  have hdegree {k : List Bool} (hk : k.length ≤ w) :
      (toPoly (Bits.ofBits k)).degree < (generator poly).degree := by
    rw [degree_generator]
    exact degree_toPoly_lt ((Bits.ofBits_lt k).trans_le (Nat.pow_le_pow_right (by decide) hk))
  have heq : Bits.ofBits m = Bits.ofBits m' := by
    by_contra hne
    refine (generator_monic poly).not_dvd_of_degree_lt
      (sub_ne_zero.mpr (toPoly_injective.ne hne)) ?_ hdvd
    exact (degree_sub_le _ _).trans_lt
      (max_lt (hdegree (hmn.trans hn)) (hdegree ((hm ▸ hmn).trans hn)))
  rw [← Bits.toBits_ofBits m, heq, hm, Bits.toBits_ofBits]

end Crc

end ChilopodCaster
