import ChilopodCaster.Lib.Bits

/-!
# Cyclic redundancy checks

The checksum of a bit string by a generator polynomial of degree `w`, as the shift register of the
textbooks computes it: no initial value, no final complement, most significant bit first. A
table-driven implementation takes a byte at a time; `foldl_step_byte` says what its table must hold
for it to compute the same checksum.

## Main results

* `step_xor`, `zeros_xor` — the register is linear in exclusive or
* `foldl_step_zero` — feeding bits is having them on top of the register
* `foldl_step_byte` — one table lookup does the work of eight bits
-/

namespace ChilopodCaster

namespace Crc

open Bits

variable {w : ℕ} (poly : BitVec w)

/-- One bit through the shift register; `poly` is the polynomial without its leading term. -/
def step (crc : BitVec w) (b : Bool) : BitVec w :=
  if crc.msb ^^ b then (crc <<< 1) ^^^ poly else crc <<< 1

/-- The checksum of a bit string. -/
def ofBits (l : List Bool) : BitVec w := l.foldl (step poly) 0#w

/-- The register after `n` zero bits. -/
def zeros (n : ℕ) (crc : BitVec w) : BitVec w := (List.replicate n false).foldl (step poly) crc

@[simp] theorem zeros_zero (crc : BitVec w) : zeros poly 0 crc = crc := rfl

theorem zeros_succ (n : ℕ) (crc : BitVec w) :
    zeros poly (n + 1) crc = zeros poly n (step poly crc false) := rfl

theorem step_xor (c c' : BitVec w) (b b' : Bool) :
    step poly (c ^^^ c') (b ^^ b') = step poly c b ^^^ step poly c' b' := by
  have hcancel : ∀ x y : BitVec w, x ^^^ poly ^^^ (y ^^^ poly) = x ^^^ y := fun x y => by
    rw [BitVec.xor_comm y, BitVec.xor_assoc, ← BitVec.xor_assoc poly, BitVec.xor_self,
      BitVec.zero_xor]
  simp only [step]
  rw [BitVec.msb_xor, BitVec.shiftLeft_xor_distrib]
  cases c.msb <;> cases c'.msb <;> cases b <;> cases b' <;> simp [hcancel] <;> ac_rfl

/-- What a bit string does to the register, apart from what was there before. -/
theorem foldl_step_xor (l : List Bool) (c c' : BitVec w) :
    l.foldl (step poly) (c ^^^ c') = l.foldl (step poly) c ^^^ zeros poly l.length c' := by
  induction l generalizing c c' with
  | nil => rfl
  | cons b l ih =>
    have hstep := step_xor poly c c' b false
    rw [Bool.xor_false] at hstep
    rw [List.foldl_cons, hstep, ih, List.foldl_cons, List.length_cons, zeros_succ]

theorem zeros_xor (n : ℕ) (c c' : BitVec w) :
    zeros poly n (c ^^^ c') = zeros poly n c ^^^ zeros poly n c' := by
  rw [zeros, foldl_step_xor, List.length_replicate]
  rfl

/-- Bits that do not reach the top of the register are only shifted. -/
theorem zeros_of_lt {n : ℕ} {crc : BitVec w} (hn : n ≤ w) (h : crc.toNat < 2 ^ (w - n)) :
    zeros poly n crc = crc <<< n := by
  induction n generalizing crc with
  | zero => rw [zeros_zero, BitVec.shiftLeft_zero]
  | succ n ih =>
    have hhalf : crc.toNat * 2 < 2 ^ (w - n) := by
      rw [show w - n = w - (n + 1) + 1 by omega, pow_succ]
      omega
    have hpow : 2 ^ (w - n) ≤ 2 ^ w := Nat.pow_le_pow_right (by decide) (by omega)
    have hmsb : crc.msb = false := by
      rw [BitVec.msb_eq_false_iff_two_mul_lt]
      omega
    have hval : (crc <<< 1).toNat = crc.toNat * 2 := by
      rw [BitVec.toNat_shiftLeft, Nat.shiftLeft_eq, pow_one, Nat.mod_eq_of_lt (by omega)]
    rw [zeros_succ, step, hmsb, Bool.xor_false, if_neg Bool.false_ne_true,
      ih (by omega) (by omega), ← BitVec.shiftLeft_add, Nat.add_comm]

/-- A bit on top of the register acts as a bit fed to it. -/
theorem step_top {n v : ℕ} (hn : n < w) (hv : v < 2 ^ n) (b : Bool) :
    step poly (BitVec.ofNat w (b.toNat * 2 ^ n + v) <<< (w - (n + 1))) false =
      BitVec.ofNat w v <<< (w - n) ^^^ step poly 0#w b := by
  have hpow : 2 ^ w = 2 ^ n * 2 ^ (w - n) := by rw [← pow_add, Nat.add_sub_cancel' (by omega)]
  set top := BitVec.ofNat w (b.toNat * 2 ^ n + v) <<< (w - (n + 1)) with htop
  have hshift : top <<< 1 = BitVec.ofNat w v <<< (w - n) := by
    rw [htop, ← BitVec.shiftLeft_add, show w - (n + 1) + 1 = w - n by omega]
    refine BitVec.eq_of_toNat_eq ?_
    rw [BitVec.toNat_shiftLeft, BitVec.toNat_shiftLeft, BitVec.toNat_ofNat, BitVec.toNat_ofNat,
      Nat.shiftLeft_eq, Nat.shiftLeft_eq, Nat.mod_mul_mod, Nat.mod_mul_mod, Nat.add_mul,
      Nat.mul_assoc, ← hpow, Nat.mul_add_mod_self_right]
  have hmsb : top.msb = b := by
    rw [htop, BitVec.msb_shiftLeft, BitVec.getMsbD_eq_getLsbD, BitVec.getLsbD_ofNat,
      show w - 1 - (w - (n + 1)) = n by omega]
    have hbit : (b.toNat * 2 ^ n + v).testBit n = b := by
      cases b with
      | false => simp [Nat.testBit_lt_two_pow hv]
      | true => simp [Nat.testBit_two_pow_add_eq, Nat.testBit_lt_two_pow hv]
    simp [hbit, hn, show w - (n + 1) < w by omega]
  rw [step, step, hmsb, hshift]
  cases b <;> simp

/-- Feeding bits to an empty register is feeding zeros to one with these bits on top. -/
theorem foldl_step_zero (l : List Bool) (h : l.length ≤ w) :
    l.foldl (step poly) 0#w =
      zeros poly l.length (BitVec.ofNat w (Bits.ofBits l) <<< (w - l.length)) := by
  induction l with
  | nil => simp
  | cons b l ih =>
    rw [List.length_cons] at h
    have hfeed := foldl_step_xor poly l 0#w (step poly 0#w b)
    rw [BitVec.zero_xor] at hfeed
    rw [List.foldl_cons, hfeed, ih (by omega), ← zeros_xor, List.length_cons, zeros_succ,
      ofBits_cons, step_top poly h (ofBits_lt l)]

/-- **One lookup for eight bits.** If the table holds, for each byte, what eight zero bits do to a
register with the byte on top, then shifting out a byte and adding the table's entry is feeding
eight bits. -/
theorem foldl_step_byte {table : BitVec 8 → BitVec w} (hw : 8 ≤ w)
    (htop : ∀ b : BitVec 8, zeros poly 8 (b.setWidth w <<< (w - 8)) = table b)
    (crc : BitVec w) (b : BitVec 8) :
    (toBits 8 b.toNat).foldl (step poly) crc =
      (crc <<< 8) ^^^ table (b ^^^ (crc >>> (w - 8)).setWidth 8) := by
  set top := (crc >>> (w - 8)).setWidth 8 with htopdef
  set high := top.setWidth w <<< (w - 8) with hhigh
  have hbit : ∀ i, high.getLsbD i = (decide (w - 8 ≤ i) && crc.getLsbD i) := by
    intro i
    rw [hhigh, BitVec.getLsbD_shiftLeft, htopdef, BitVec.getLsbD_setWidth, BitVec.getLsbD_setWidth,
      BitVec.getLsbD_ushiftRight]
    by_cases hi : w - 8 ≤ i
    · rw [show w - 8 + (i - (w - 8)) = i by omega]
      by_cases hiw : i < w
      · simp [hi, hiw, show ¬ i < w - 8 by omega, show i - (w - 8) < w by omega,
          show i - (w - 8) < 8 by omega]
      · simp [hiw, BitVec.getLsbD_of_ge crc i (by omega)]
    · simp [hi, show i < w - 8 by omega]
  have hlow : (crc ^^^ high).toNat < 2 ^ (w - 8) := by
    refine Nat.lt_pow_two_of_testBit _ fun i hi => ?_
    rw [BitVec.testBit_toNat, BitVec.getLsbD_xor, hbit]
    simp [hi]
  have hshift : (crc ^^^ high) <<< 8 = crc <<< 8 := by
    refine BitVec.eq_of_getLsbD_eq fun i hi => ?_
    rw [BitVec.getLsbD_shiftLeft, BitVec.getLsbD_shiftLeft, BitVec.getLsbD_xor, hbit]
    by_cases hi8 : i < 8
    · simp [hi8]
    · simp [show ¬ w - 8 ≤ i - 8 by omega]
  have hsplit : crc = high ^^^ (crc ^^^ high) := by
    rw [BitVec.xor_comm crc, ← BitVec.xor_assoc, BitVec.xor_self, BitVec.zero_xor]
  have htable : table (b ^^^ top) = table b ^^^ table top := by
    rw [← htop, ← htop, ← htop, ← zeros_xor, ← BitVec.shiftLeft_xor_distrib, BitVec.setWidth_xor]
  have hbits : (toBits 8 b.toNat).foldl (step poly) 0#w = table b := by
    rw [foldl_step_zero poly _ (by rwa [length_toBits]), length_toBits, ofBits_toBits,
      Nat.mod_eq_of_lt b.isLt, BitVec.ofNat_toNat, htop]
  have hfeed := foldl_step_xor poly (toBits 8 b.toNat) 0#w crc
  rw [BitVec.zero_xor, hbits, length_toBits] at hfeed
  rw [hfeed, htable]
  nth_rewrite 1 [hsplit]
  rw [zeros_xor, htop, zeros_of_lt poly hw hlow, hshift]
  ac_rfl

end Crc

end ChilopodCaster
