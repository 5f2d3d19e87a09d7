import ChilopodCaster.Bytes
import ChilopodCaster.Lib.Bits
import Mathlib.Tactic.IntervalCases

/-!
# Bit fields

The functions of `bitfield.h` and `bitfield.c`: reading and writing up to 64 bits at any bit
position of a byte string, and copying a run of bits from one string to another. Positions count
from the most significant bit of the first byte.

Memory is the list of the bytes the pointer may be used on, and every access is checked: a read or a
write outside it makes the function answer `none`.

## Main definitions

* `getSetBits` — `get_set_bits`, byte by byte as the source does it
* `getbits`, `setbits`, `copybits`

## Main results

* `getbits_eq` — `getbits` reads the number the bits denote
* `setbits_eq` — `setbits` overwrites exactly the bits of the field
* `copybits_eq` — `copybits` overwrites exactly the destination run by the source run
-/

namespace ChilopodCaster

namespace Bitfield

open Bits

/-! ### The functions -/

/-- The variables of `get_set_bits` while it goes through the bytes. The variable `r` is not
initialised when writing, and its value is then not used. -/
structure Cursor where
  d : List Byte
  offset : ℕ
  r : BitVec 64
  val : BitVec 64

/-- The loop `while (full_bytes--)` of `get_set_bits`. -/
def getSetFullBytes (set : Bool) : ℕ → Cursor → Option Cursor
  | 0, c => some c
  | fullBytes + 1, c => do
    let b ← c.d[c.offset]?
    getSetFullBytes set fullBytes
      (if set then
        ⟨c.d.set c.offset ((c.val >>> 56).setWidth 8), c.offset + 1, c.r, c.val <<< 8⟩
      else
        ⟨c.d, c.offset + 1, (c.r <<< 8) + b.setWidth 64, c.val⟩)

/-- `get_set_bits`: the value read and the bytes after the call. The source computes `& 7` and
`>> 3` on `int`s; `(8 - (beg + len) % 8) % 8` is its `(-beg-len) & 7`. -/
def getSetBits (d : List Byte) (beg len : ℕ) (set : Bool) (val : BitVec 64) :
    Option (BitVec 64 × List Byte) := do
  if len = 0 then return (0, d)
  let offsetFirst := beg / 8
  let offsetLast := (beg + len - 1) / 8
  let bitsFirst := beg % 8
  let fullBytes := (len - (8 - bitsFirst)) / 8
  let bitsLast := (len - (8 - bitsFirst)) % 8
  -- first, possibly incomplete, byte
  let mask := (0xff : Byte) >>> bitsFirst
  let b ← d[offsetFirst]?
  if offsetFirst = offsetLast then
    let shift := (8 - (beg + len) % 8) % 8
    if set then
      let mask := mask &&& ((0xff : Byte) <<< shift)
      return (0, d.set offsetFirst ((b &&& ~~~mask) ||| (mask &&& (val <<< shift).setWidth 8)))
    else
      return ((b &&& mask).setWidth 64 >>> shift, d)
  let c : Cursor :=
    if set then
      let val := val <<< (64 - len)
      ⟨d.set offsetFirst ((b &&& ~~~mask) ||| (val >>> (bitsFirst + 56)).setWidth 8),
        offsetFirst + 1, 0, val <<< (8 - bitsFirst)⟩
    else
      ⟨d, offsetFirst + 1, (b &&& mask).setWidth 64, val⟩
  let c ← getSetFullBytes set fullBytes c
  -- last, possibly incomplete, byte
  if bitsLast ≠ 0 then
    let b ← c.d[c.offset]?
    if set then
      let mask := (0xff : Byte) >>> bitsLast
      return (0, c.d.set c.offset ((b &&& mask) ||| ((c.val >>> 56).setWidth 8 &&& ~~~mask)))
    else
      return ((c.r <<< bitsLast) + (b >>> (8 - bitsLast)).setWidth 64, c.d)
  return (c.r, c.d)

/-- `getbits`. -/
def getbits (d : List Byte) (beg len : ℕ) : Option (BitVec 64) :=
  (getSetBits d beg len false 0).map (·.1)

/-- `setbits`. -/
def setbits (d : List Byte) (beg len : ℕ) (val : BitVec 64) : Option (List Byte) :=
  (getSetBits d beg len true val).map (·.2)

/-- `copybits`: the bytes of `dst` and the two positions after the call. -/
def copybits (dst : List Byte) (posDst : ℕ) (src : List Byte) (posSrc len : ℕ) :
    Option (List Byte × ℕ × ℕ) :=
  if len = 0 then some (dst, posDst, posSrc)
  else do
    let lentmp := if len > 64 then 64 else len
    let tmp ← getbits src posSrc lentmp
    let dst ← setbits dst posDst lentmp tmp
    copybits dst (posDst + lentmp) src (posSrc + lentmp) (len - lentmp)
termination_by len
decreasing_by split <;> omega

/-! ### One byte at a time -/

theorem getLsbD_ff (i : ℕ) : (0xff : Byte).getLsbD i = decide (i < 8) := by
  rw [show (0xff : Byte) = BitVec.allOnes 8 from rfl, BitVec.getLsbD_allOnes]

theorem getElem?_toBits {n : ℕ} (x : BitVec n) {i : ℕ} (hi : i < n) :
    (toBits n x.toNat)[i]? = some (x.getLsbD (n - 1 - i)) := by
  rw [List.getElem?_eq_getElem (by rwa [length_toBits]), getElem_toBits, BitVec.testBit_toNat]

theorem toBits_eq_of_getElem? {n : ℕ} {x : BitVec n} {l : List Bool} (hl : l.length = n)
    (h : ∀ i < n, l[i]? = some (x.getLsbD (n - 1 - i))) : toBits n x.toNat = l := by
  refine List.ext_getElem? fun i => ?_
  by_cases hi : i < n
  · rw [h i hi, getElem?_toBits x hi]
  · rw [List.getElem?_eq_none (by rw [length_toBits]; omega), List.getElem?_eq_none (by omega)]

/-- The first byte written: its leading bits stay. -/
theorem toBits_first {f : ℕ} (hf : f < 8) (b : Byte) (v : BitVec 64) :
    toBits 8 ((b &&& ~~~((0xff : Byte) >>> f)) ||| (v >>> (f + 56)).setWidth 8).toNat =
      (toBits 8 b.toNat).take f ++ (toBits 64 v.toNat).take (8 - f) := by
  refine toBits_eq_of_getElem? (by simp; omega) fun i hi => ?_
  rw [List.getElem?_append, List.length_take, length_toBits, List.getElem?_take,
    List.getElem?_take, getElem?_toBits b hi]
  simp only [BitVec.getLsbD_or, BitVec.getLsbD_and, BitVec.getLsbD_not, BitVec.getLsbD_ushiftRight,
    BitVec.getLsbD_setWidth, getLsbD_ff]
  by_cases hif : i < f
  · rw [if_pos (by omega), if_pos hif, BitVec.getLsbD_of_ge v _ (by omega)]
    simp [show ¬ f + (7 - i) < 8 by omega, show 7 - i < 8 by omega]
  · rw [if_neg (by omega), if_pos (by omega), getElem?_toBits v (by omega)]
    simp [show 7 - i < 8 by omega, show f + (7 - i) < 8 by omega,
      show min f 8 = f by omega, show 63 - (i - f) = f + 56 + (7 - i) by omega]

/-- A whole byte written. -/
theorem toBits_full (v : BitVec 64) :
    toBits 8 ((v >>> 56).setWidth 8).toNat = (toBits 64 v.toNat).take 8 := by
  refine toBits_eq_of_getElem? (by simp) fun i hi => ?_
  rw [List.getElem?_take, if_pos hi, getElem?_toBits v (by omega)]
  simp [show 7 - i < 8 by omega, show 63 - i = 56 + (7 - i) by omega]

/-- The last byte written: its trailing bits stay. -/
theorem toBits_last {n : ℕ} (hn : n < 8) (b : Byte) (v : BitVec 64) :
    toBits 8 ((b &&& ((0xff : Byte) >>> n)) |||
        ((v >>> 56).setWidth 8 &&& ~~~((0xff : Byte) >>> n))).toNat =
      (toBits 64 v.toNat).take n ++ (toBits 8 b.toNat).drop n := by
  refine toBits_eq_of_getElem? (by simp; omega) fun i hi => ?_
  rw [List.getElem?_append, List.length_take, length_toBits, List.getElem?_take,
    List.getElem?_drop]
  simp only [BitVec.getLsbD_or, BitVec.getLsbD_and, BitVec.getLsbD_not, BitVec.getLsbD_ushiftRight,
    BitVec.getLsbD_setWidth, getLsbD_ff]
  by_cases hin : i < n
  · rw [if_pos (by omega), if_pos hin, getElem?_toBits v (by omega)]
    simp [show ¬ n + (7 - i) < 8 by omega, show 7 - i < 8 by omega,
      show 63 - i = 56 + (7 - i) by omega]
  · rw [if_neg (by omega), show min n 64 = n by omega, getElem?_toBits b (by omega)]
    simp [show n + (7 - i) < 8 by omega, show 7 - (n + (i - n)) = 7 - i by omega]

/-- A field inside one byte: the bits on both sides of it stay. -/
theorem toBits_within {f n s : ℕ} (h : f + n + s = 8) (b : Byte) (v : BitVec 64) :
    toBits 8 ((b &&& ~~~((0xff : Byte) >>> f &&& (0xff : Byte) <<< s)) |||
        ((0xff : Byte) >>> f &&& (0xff : Byte) <<< s) &&& (v <<< s).setWidth 8).toNat =
      (toBits 8 b.toNat).take f ++ (toBits n v.toNat ++ (toBits 8 b.toNat).drop (f + n)) := by
  refine toBits_eq_of_getElem? (by simp; omega) fun i hi => ?_
  rw [List.getElem?_append, List.length_take, length_toBits, List.getElem?_take,
    List.getElem?_append, length_toBits, List.getElem?_drop, getElem?_toBits b hi,
    show min f 8 = f by omega]
  simp only [BitVec.getLsbD_or, BitVec.getLsbD_and, BitVec.getLsbD_not, BitVec.getLsbD_ushiftRight,
    BitVec.getLsbD_setWidth, BitVec.getLsbD_shiftLeft, getLsbD_ff]
  by_cases hif : i < f
  · rw [if_pos hif, if_pos hif]
    simp [show ¬ f + (7 - i) < 8 by omega, show 7 - i < 8 by omega]
  rw [if_neg hif]
  by_cases hin : i < f + n
  · rw [if_pos (by omega), List.getElem?_eq_getElem (by rw [length_toBits]; omega), getElem_toBits,
      BitVec.testBit_toNat]
    simp [show f + (7 - i) < 8 by omega, show 7 - i < 8 by omega, show ¬ 7 - i < s by omega,
      show 7 - i < 64 by omega, show 7 - i - s = n - 1 - (i - f) by omega,
      show n - 1 - (i - f) < 8 by omega]
  · rw [if_neg (by omega), getElem?_toBits b (by omega)]
    simp [show 7 - i < s by omega, show 7 - i < 8 by omega,
      show 7 - (f + n + (i - f - n)) = 7 - i by omega]

/-- Shifting the value left drops the bits already written. -/
theorem toBits_shiftLeft {n : ℕ} (hn : n ≤ 64) (v : BitVec 64) :
    toBits 64 (v <<< n).toNat = (toBits 64 v.toNat).drop n ++ List.replicate n false := by
  refine toBits_eq_of_getElem? (by simp; omega) fun i hi => ?_
  rw [List.getElem?_append, List.length_drop, length_toBits, List.getElem?_drop,
    BitVec.getLsbD_shiftLeft]
  by_cases hin : i < 64 - n
  · rw [if_pos hin, getElem?_toBits v (by omega)]
    simp [show 63 - i < 64 by omega, show ¬ 63 - i < n by omega,
      show 63 - (n + i) = 63 - i - n by omega]
  · rw [if_neg hin, List.getElem?_replicate, if_pos (by omega)]
    simp [show 63 - i < n by omega]

theorem take_toBits_shiftLeft {k m : ℕ} (h : k + m ≤ 64) (v : BitVec 64) :
    (toBits 64 (v <<< k).toNat).take m = slice (toBits 64 v.toNat) k m := by
  rw [toBits_shiftLeft (by omega), slice, List.take_append_of_le_length]
  rw [List.length_drop, length_toBits]
  omega

/-- The bits of a byte from `f` on. -/
theorem toNat_and_mask {f : ℕ} (hf : f < 8) (b : Byte) :
    (b &&& (0xff : Byte) >>> f).toNat = ofBits ((toBits 8 b.toNat).drop f) := by
  have hmask : ((0xff : Byte) >>> f).toNat = 2 ^ (8 - f) - 1 := by
    interval_cases f <;> rfl
  rw [drop_toBits (by omega), ofBits_toBits, BitVec.toNat_and, hmask,
    Nat.and_two_pow_sub_one_eq_mod]

/-- The bits of a byte between `f` and `f + n`. -/
theorem toNat_and_mask_shiftRight {f n s : ℕ} (h : f + n + s = 8) (hn : 0 < n) (b : Byte) :
    ((b &&& (0xff : Byte) >>> f).setWidth 64 >>> s).toNat =
      ofBits (slice (toBits 8 b.toNat) f n) := by
  have hlt : (b &&& (0xff : Byte) >>> f).toNat < 2 ^ 64 :=
    Nat.lt_of_lt_of_le (BitVec.isLt _) (by decide)
  have hmod : b.toNat % 2 ^ (8 - f) / 2 ^ s < 2 ^ n := by
    rw [Nat.div_lt_iff_lt_mul (Nat.two_pow_pos _), ← pow_add, show n + s = 8 - f by omega]
    exact Nat.mod_lt _ (Nat.two_pow_pos _)
  rw [BitVec.toNat_ushiftRight, BitVec.toNat_setWidth, Nat.mod_eq_of_lt hlt,
    toNat_and_mask (by omega), slice, drop_toBits (by omega), ofBits_toBits,
    ← toBits_mod (Nat.le_refl (8 - f)) b.toNat, take_toBits (by omega), ofBits_toBits,
    Nat.shiftRight_eq_div_pow, Nat.shiftRight_eq_div_pow, show 8 - f - n = s by omega,
    Nat.mod_eq_of_lt hmod]

/-- The first `n` bits of a byte. -/
theorem toNat_shiftRight {n : ℕ} (hn : n ≤ 8) (b : Byte) :
    ((b >>> (8 - n)).setWidth 64).toNat = ofBits ((toBits 8 b.toNat).take n) := by
  have hlt : b.toNat / 2 ^ (8 - n) < 2 ^ n := by
    rw [Nat.div_lt_iff_lt_mul (Nat.two_pow_pos _), ← pow_add, show n + (8 - n) = 8 by omega]
    exact b.isLt
  have hlt' : 2 ^ n ≤ 2 ^ 64 := Nat.pow_le_pow_right (by decide) (by omega)
  rw [take_toBits hn, ofBits_toBits, BitVec.toNat_setWidth, BitVec.toNat_ushiftRight,
    Nat.shiftRight_eq_div_pow, Nat.mod_eq_of_lt hlt, Nat.mod_eq_of_lt (by omega)]

/-- Bits read are appended to those read before. -/
theorem toNat_shiftLeft_add {r x : BitVec 64} {l m : List Bool} (hr : r.toNat = ofBits l)
    (hx : x.toNat = ofBits m) (h : l.length + m.length ≤ 64) :
    ((r <<< m.length) + x).toNat = ofBits (l ++ m) := by
  have hlt := ofBits_lt (l ++ m)
  have hpow : 2 ^ (l ++ m).length ≤ 2 ^ 64 :=
    Nat.pow_le_pow_right (by decide) (by rwa [List.length_append])
  rw [ofBits_append] at hlt ⊢
  rw [BitVec.toNat_add, BitVec.toNat_shiftLeft, hr, hx, Nat.shiftLeft_eq,
    Nat.mod_eq_of_lt (by omega), Nat.mod_eq_of_lt (by omega)]

/-! ### Reading -/

theorem getSetFullBytes_get {d : List Byte} {n o : ℕ} {r v : BitVec 64} {l : List Bool}
    (hd : o + n ≤ d.length) (hr : r.toNat = ofBits l) (hl : l.length + 8 * n ≤ 64) :
    ∃ r', getSetFullBytes false n ⟨d, o, r, v⟩ = some ⟨d, o + n, r', v⟩ ∧
      r'.toNat = ofBits (l ++ slice (bitsOf d) (8 * o) (8 * n)) := by
  induction n generalizing o r l with
  | zero => exact ⟨r, rfl, by simpa [slice] using hr⟩
  | succ n ih =>
    have hget : d[o]? = some d[o] := List.getElem?_eq_getElem (by omega)
    have hx : (d[o].setWidth 64).toNat = ofBits (toBits 8 d[o].toNat) := by
      rw [ofBits_toBits, BitVec.toNat_setWidth]
      omega
    have hr' := toNat_shiftLeft_add hr hx (by rw [length_toBits]; omega)
    rw [length_toBits] at hr'
    obtain ⟨r', hrun, hval⟩ := ih (o := o + 1) (by omega) hr' (by simp; omega)
    refine ⟨r', ?_, ?_⟩
    · rw [getSetFullBytes, hget, show o + (n + 1) = o + 1 + n by omega]
      exact hrun
    · rw [hval, List.append_assoc, ← slice_bitsOf_byte hget, show 8 * (o + 1) = 8 * o + 8 by omega,
        ← slice_add, show 8 + 8 * n = 8 * (n + 1) by omega]

/-- Reading leaves the bytes as they are. -/
theorem getSetBits_get {d : List Byte} {beg len : ℕ} (hd : beg + len ≤ 8 * d.length)
    (hlen : len ≤ 64) :
    ∃ r, getSetBits d beg len false 0 = some (r, d) ∧
      r.toNat = ofBits (slice (bitsOf d) beg len) := by
  by_cases h0 : len = 0
  · exact ⟨0, by simp [getSetBits, h0], by simp [h0, slice]⟩
  have hget : d[beg / 8]? = some (d[beg / 8]) := List.getElem?_eq_getElem (by omega)
  have hbyte := slice_bitsOf_byte hget
  have hbeg : 8 * (beg / 8) + beg % 8 = beg := Nat.div_add_mod beg 8
  by_cases hone : beg / 8 = (beg + len - 1) / 8
  · -- the field lies inside one byte
    refine ⟨_, by simp only [getSetBits, if_neg h0, hget, if_pos hone]; rfl, ?_⟩
    rw [toNat_and_mask_shiftRight (n := len) (by omega) (by omega), ← hbyte, slice_slice (by omega),
      hbeg]
  · have hfirst : ((d[beg / 8] &&& (0xff : Byte) >>> (beg % 8)).setWidth 64).toNat =
        ofBits (slice (bitsOf d) beg (8 - beg % 8)) := by
      have hval := toNat_and_mask_shiftRight (f := beg % 8) (n := 8 - beg % 8) (s := 0) (by omega)
        (by omega) d[beg / 8]
      rwa [← hbyte, slice_slice (by omega), hbeg] at hval
    have hlfirst : (slice (bitsOf d) beg (8 - beg % 8)).length = 8 - beg % 8 :=
      length_slice (by rw [length_bitsOf]; omega)
    obtain ⟨r, hrun, hval⟩ := getSetFullBytes_get (d := d) (v := 0) (o := beg / 8 + 1)
      (n := (len - (8 - beg % 8)) / 8) (by omega) hfirst (by omega)
    rw [show 8 * (beg / 8 + 1) = beg + (8 - beg % 8) by omega, ← slice_add] at hval
    simp only [getSetBits, if_neg h0, hget, if_neg hone, Option.pure_def, Option.bind_eq_bind,
      Option.bind_some, Bool.false_eq_true, if_false, hrun]
    by_cases hlast : (len - (8 - beg % 8)) % 8 = 0
    · refine ⟨r, by rw [if_neg (not_not.mpr hlast)], ?_⟩
      rw [hval]
      congr 2
      omega
    · -- the bits of the last byte are read too
      have hget' : d[beg / 8 + 1 + (len - (8 - beg % 8)) / 8]? =
          some (d[beg / 8 + 1 + (len - (8 - beg % 8)) / 8]) :=
        List.getElem?_eq_getElem (by omega)
      have hx := toNat_shiftRight (n := (len - (8 - beg % 8)) % 8) (by omega)
        (d[beg / 8 + 1 + (len - (8 - beg % 8)) / 8])
      rw [← slice_bitsOf_byte hget'] at hx
      rw [take_slice (by omega)] at hx
      have hadd := toNat_shiftLeft_add hval hx (by
        rw [length_slice (by rw [length_bitsOf]; omega),
          length_slice (by rw [length_bitsOf]; omega)]
        omega)
      rw [length_slice (by rw [length_bitsOf]; omega)] at hadd
      refine ⟨_, by rw [if_pos hlast, hget']; rfl, ?_⟩
      rw [hadd, show 8 * (beg / 8 + 1 + (len - (8 - beg % 8)) / 8) =
        beg + (8 - beg % 8 + 8 * ((len - (8 - beg % 8)) / 8)) by omega, ← slice_add]
      congr 2
      omega

/-- **`getbits` reads a field.** Within the bytes it may read, the value is the number denoted by
the `len` bits from position `beg` on. -/
theorem getbits_eq {d : List Byte} {beg len : ℕ} (hd : beg + len ≤ 8 * d.length)
    (hlen : len ≤ 64) :
    getbits d beg len = some (BitVec.ofNat 64 (ofBits (slice (bitsOf d) beg len))) := by
  obtain ⟨r, hrun, hval⟩ := getSetBits_get hd hlen
  rw [getbits, hrun, ← hval, BitVec.ofNat_toNat, BitVec.setWidth_eq]
  rfl

/-! ### Writing -/

theorem getSetFullBytes_set {d : List Byte} {n o k : ℕ} {r w : BitVec 64}
    (hd : o + n ≤ d.length) (hk : k + 8 * n ≤ 64) :
    ∃ d', getSetFullBytes true n ⟨d, o, r, w <<< k⟩ = some ⟨d', o + n, r, w <<< (k + 8 * n)⟩ ∧
      d'.length = d.length ∧
      bitsOf d' = splice (bitsOf d) (8 * o) (slice (toBits 64 w.toNat) k (8 * n)) := by
  induction n generalizing d o k with
  | zero => exact ⟨d, rfl, rfl, by rw [slice, Nat.mul_zero, List.take_zero, splice_nil]⟩
  | succ n ih =>
    have hget : d[o]? = some d[o] := List.getElem?_eq_getElem (by omega)
    obtain ⟨d', hrun, hlen, hbits⟩ := ih (d := d.set o (((w <<< k) >>> 56).setWidth 8)) (o := o + 1)
      (k := k + 8) (by rw [List.length_set]; omega) (by omega)
    refine ⟨d', ?_, by rw [hlen, List.length_set], ?_⟩
    · rw [getSetFullBytes, hget, show o + (n + 1) = o + 1 + n by omega,
        show k + 8 * (n + 1) = k + 8 + 8 * n by omega, ← hrun, BitVec.shiftLeft_add w k 8]
      rfl
    · have hw : (slice (toBits 64 w.toNat) k 8).length = 8 :=
        length_slice (by rw [length_toBits]; omega)
      rw [hbits, bitsOf_set (by omega), toBits_full, take_toBits_shiftLeft (by omega),
        splice_append (by omega) (by rw [length_bitsOf]; omega), ← slice_add,
        show 8 + 8 * n = 8 * (n + 1) by omega]

/-- **`setbits` overwrites a field.** Within the bytes it may write, the `len` bits from position
`beg` on become the low `len` bits of the value, and no other bit changes. -/
theorem setbits_eq (d : List Byte) (beg : ℕ) {len : ℕ} (hd : beg + len ≤ 8 * d.length)
    (hlen : len ≤ 64) (val : BitVec 64) :
    ∃ d', setbits d beg len val = some d' ∧ d'.length = d.length ∧
      bitsOf d' = splice (bitsOf d) beg (toBits len val.toNat) := by
  suffices h : ∃ r d', getSetBits d beg len true val = some (r, d') ∧ d'.length = d.length ∧
      bitsOf d' = splice (bitsOf d) beg (toBits len val.toNat) by
    obtain ⟨r, d', hrun, hlen, hbits⟩ := h
    exact ⟨d', by rw [setbits, hrun]; rfl, hlen, hbits⟩
  by_cases h0 : len = 0
  · exact ⟨0, d, by simp [getSetBits, h0], rfl, by rw [h0, toBits, splice_nil]⟩
  have hget : d[beg / 8]? = some (d[beg / 8]) := List.getElem?_eq_getElem (by omega)
  have hbyte := slice_bitsOf_byte hget
  have hbeg : 8 * (beg / 8) + beg % 8 = beg := Nat.div_add_mod beg 8
  by_cases hone : beg / 8 = (beg + len - 1) / 8
  · -- the field lies inside one byte
    refine ⟨0, _, by simp only [getSetBits, if_neg h0, hget, if_pos hone]; rfl,
      List.length_set, ?_⟩
    rw [bitsOf_set (by omega), toBits_within (n := len) (by omega), ← hbyte, take_slice (by omega),
      drop_slice, splice_slice_append (by rw [length_bitsOf]; omega), hbeg,
      splice_append_slice (by rw [length_toBits]; omega) (by rw [length_bitsOf]; omega)]
  · -- `w` is the value at the top of 64 bits, and `k` of its bits are written after each byte
    set w := val <<< (64 - len) with hw
    set f := 8 - beg % 8 with hf
    set n := (len - f) / 8 with hn
    have hwbits : slice (toBits 64 w.toNat) 0 len = toBits len val.toNat := by
      rw [hw, slice, List.drop_zero, take_toBits_shiftLeft (by omega), slice,
        drop_toBits (by omega), show 64 - (64 - len) = len by omega,
        List.take_of_length_le (by rw [length_toBits])]
    have hwlen : ∀ {k m}, k + m ≤ 64 → (slice (toBits 64 w.toNat) k m).length = m := fun h =>
      length_slice (by rwa [length_toBits])
    set d₁ := d.set (beg / 8) ((d[beg / 8] &&& ~~~((0xff : Byte) >>> (beg % 8))) |||
      (w >>> (beg % 8 + 56)).setWidth 8) with hd₁
    have hlen₁ : d₁.length = d.length := List.length_set
    have hbits₁ : bitsOf d₁ = splice (bitsOf d) beg (slice (toBits 64 w.toNat) 0 f) := by
      rw [hd₁, bitsOf_set (by omega), toBits_first (by omega), ← hbyte, take_slice (by omega),
        splice_slice_append (by rw [length_bitsOf]; omega), hbeg]
      rfl
    obtain ⟨d₂, hrun, hlen₂, hbits₂⟩ := getSetFullBytes_set (d := d₁) (r := 0) (w := w) (k := f)
      (o := beg / 8 + 1) (n := n) (by omega) (by omega)
    have hbits₂' : bitsOf d₂ = splice (bitsOf d) beg (slice (toBits 64 w.toNat) 0 (f + 8 * n)) := by
      rw [hbits₂, hbits₁, splice_append (by rw [hwlen (by omega)]; omega)
        (by rw [length_bitsOf]; omega), slice_add, Nat.zero_add]
    simp only [getSetBits, if_neg h0, hget, if_neg hone, Option.pure_def, Option.bind_eq_bind,
      Option.bind_some, if_true, ← hw, ← hf, ← hn, ← hd₁, hrun]
    by_cases hlast : (len - f) % 8 = 0
    · refine ⟨0, d₂, by rw [if_neg (not_not.mpr hlast)], by omega, ?_⟩
      rw [hbits₂', show f + 8 * n = len by omega, hwbits]
    · have hget' : d₂[beg / 8 + 1 + n]? = some (d₂[beg / 8 + 1 + n]) :=
        List.getElem?_eq_getElem (by omega)
      refine ⟨0, _, by rw [if_pos hlast, hget']; rfl, by rw [List.length_set]; omega, ?_⟩
      rw [bitsOf_set (by omega), toBits_last (by omega), take_toBits_shiftLeft (by omega),
        ← slice_bitsOf_byte hget', drop_slice,
        splice_append_slice (by rw [hwlen (by omega)]) (by rw [length_bitsOf]; omega), hbits₂',
        splice_append (by rw [hwlen (by omega)]; omega) (by rw [length_bitsOf]; omega)]
      nth_rewrite 2 [← Nat.zero_add (f + 8 * n)]
      rw [← slice_add, show f + 8 * n + (len - f) % 8 = len by omega, hwbits]

/-! ### Copying -/

/-- **`copybits` copies a run of bits.** Within the two strings, `len` bits from `posSrc` on replace
those from `posDst` on, no other bit changes, and both positions advance by `len`. -/
theorem copybits_eq (dst : List Byte) {src : List Byte} (posDst posSrc : ℕ) {len : ℕ}
    (hdst : posDst + len ≤ 8 * dst.length) (hsrc : posSrc + len ≤ 8 * src.length) :
    ∃ dst', copybits dst posDst src posSrc len = some (dst', posDst + len, posSrc + len) ∧
      dst'.length = dst.length ∧
      bitsOf dst' = splice (bitsOf dst) posDst (slice (bitsOf src) posSrc len) := by
  induction len using Nat.strongRecOn generalizing dst posDst posSrc with
  | ind len ih =>
    by_cases h0 : len = 0
    · refine ⟨dst, by rw [copybits, if_pos h0, h0]; rfl, rfl, ?_⟩
      rw [h0, slice, List.take_zero, splice_nil]
    · obtain ⟨lentmp, hlentmp⟩ : ∃ n, n = if len > 64 then 64 else len := ⟨_, rfl⟩
      have hle : lentmp ≤ 64 ∧ lentmp ≤ len ∧ 0 < lentmp := by rw [hlentmp]; split <;> omega
      have hlen : (slice (bitsOf src) posSrc lentmp).length = lentmp :=
        length_slice (by rw [length_bitsOf]; omega)
      have hval :
          toBits lentmp (BitVec.ofNat 64 (ofBits (slice (bitsOf src) posSrc lentmp))).toNat =
          slice (bitsOf src) posSrc lentmp := by
        rw [BitVec.toNat_ofNat, toBits_mod hle.1]
        nth_rewrite 1 [← hlen]
        exact toBits_ofBits _
      obtain ⟨dst₁, hset, hlen₁, hbits₁⟩ := setbits_eq dst posDst (by omega) hle.1
        (BitVec.ofNat 64 (ofBits (slice (bitsOf src) posSrc lentmp)))
      obtain ⟨dst₂, hcopy, hlen₂, hbits₂⟩ := ih (len - lentmp) (by omega) dst₁
        (posDst + lentmp) (posSrc + lentmp) (by omega) (by omega)
      refine ⟨dst₂, ?_, by omega, ?_⟩
      · rw [copybits, if_neg h0]
        simp only [← hlentmp]
        rw [getbits_eq (by omega) hle.1]
        simp only [Option.bind_eq_bind, Option.bind_some, hset, hcopy]
        rw [show posDst + lentmp + (len - lentmp) = posDst + len by omega,
          show posSrc + lentmp + (len - lentmp) = posSrc + len by omega]
      · rw [hbits₂, hbits₁, hval, splice_append (by rw [hlen]) (by rw [length_bitsOf]; omega),
          ← slice_add, show lentmp + (len - lentmp) = len by omega]

end Bitfield

end ChilopodCaster
