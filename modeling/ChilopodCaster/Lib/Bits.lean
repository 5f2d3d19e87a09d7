import Mathlib.Data.Nat.Bitwise
import Mathlib.Data.List.Basic
import Mathlib.Tactic.Common
import Mathlib.Tactic.Ring

/-!
# Strings of bits, most significant first

Bit fields in network formats are numbers written in binary, the most significant bit first, at bit
positions that need not be byte positions. Here a field is a list of booleans: `toBits n v` writes
the low `n` bits of `v`, `ofBits` reads a list back, `bitsOf` lays out a byte string bit by bit, and
`slice` and `splice` read and overwrite a part of a list.

## Main results

* `toBits_ofBits`, `ofBits_toBits` — the inverse pair
* `ofBits_append`, `toBits_add` — fields side by side
* `splice_append` — writing one field after another
* `bitsOf_set` — overwriting one byte
-/

namespace ChilopodCaster

namespace Bits

/-! ### Numbers and bits -/

/-- The low `n` bits of `v`, most significant first. -/
def toBits : ℕ → ℕ → List Bool
  | 0, _ => []
  | n + 1, v => v.testBit n :: toBits n v

/-- The number a list of bits denotes, most significant first. -/
def ofBits (l : List Bool) : ℕ := l.foldl (fun v b => 2 * v + b.toNat) 0

@[simp] theorem length_toBits (n v : ℕ) : (toBits n v).length = n := by
  induction n with
  | zero => rfl
  | succ n ih => rw [toBits, List.length_cons, ih]

theorem getElem_toBits (n v i : ℕ) (h : i < (toBits n v).length) :
    (toBits n v)[i] = v.testBit (n - 1 - i) := by
  induction n generalizing i with
  | zero => simp [toBits] at h
  | succ n ih =>
    cases i with
    | zero => simp [toBits]
    | succ i =>
      simp only [toBits, List.getElem_cons_succ]
      rw [ih, show n - 1 - i = n + 1 - 1 - (i + 1) by omega]

@[simp] theorem ofBits_nil : ofBits [] = 0 := rfl

theorem foldl_ofBits (l : List Bool) (v : ℕ) :
    l.foldl (fun v b => 2 * v + b.toNat) v = v * 2 ^ l.length + ofBits l := by
  induction l generalizing v with
  | nil => simp
  | cons b l ih =>
    have hcons : ofBits (b :: l) = l.foldl (fun v b => 2 * v + b.toNat) (2 * 0 + b.toNat) := rfl
    rw [List.foldl_cons, hcons, ih, ih (2 * 0 + b.toNat), List.length_cons, pow_succ]
    ring

theorem ofBits_append (l l' : List Bool) :
    ofBits (l ++ l') = ofBits l * 2 ^ l'.length + ofBits l' := by
  rw [ofBits, List.foldl_append, foldl_ofBits]
  rfl

theorem ofBits_cons (b : Bool) (l : List Bool) :
    ofBits (b :: l) = b.toNat * 2 ^ l.length + ofBits l := by
  rw [← List.singleton_append, ofBits_append]
  simp [ofBits]

theorem ofBits_lt (l : List Bool) : ofBits l < 2 ^ l.length := by
  induction l with
  | nil => simp
  | cons b l ih =>
    rw [ofBits_cons, List.length_cons, pow_succ]
    cases b <;> simp only [Bool.toNat_false, Bool.toNat_true] <;> omega

theorem toBits_mod {n k : ℕ} (h : n ≤ k) (v : ℕ) : toBits n (v % 2 ^ k) = toBits n v := by
  refine List.ext_getElem (by simp) fun i h1 h2 => ?_
  rw [length_toBits] at h1
  rw [getElem_toBits, getElem_toBits, Nat.testBit_mod_two_pow]
  simp only [show n - 1 - i < k by omega, decide_true, Bool.true_and]

theorem ofBits_toBits (n v : ℕ) : ofBits (toBits n v) = v % 2 ^ n := by
  induction n with
  | zero => simp [toBits, Nat.mod_one]
  | succ n ih =>
    have hbit : (v.testBit n).toNat = v / 2 ^ n % 2 := by
      rw [Nat.testBit_eq_decide_div_mod_eq]
      rcases Nat.mod_two_eq_zero_or_one (v / 2 ^ n) with h | h <;> simp [h]
    rw [toBits, ofBits_cons, length_toBits, ih, hbit, pow_succ, Nat.mod_mul]
    ring

theorem toBits_ofBits (l : List Bool) : toBits l.length (ofBits l) = l := by
  induction l with
  | nil => rfl
  | cons b l ih =>
    have hlt := ofBits_lt l
    have hbit : (b.toNat * 2 ^ l.length + ofBits l).testBit l.length = b := by
      rw [Nat.testBit_eq_decide_div_mod_eq, Nat.add_comm,
        Nat.add_mul_div_right _ _ (Nat.two_pow_pos _), Nat.div_eq_of_lt hlt]
      cases b <;> simp
    have hrest : toBits l.length (b.toNat * 2 ^ l.length + ofBits l) = l := by
      rw [← toBits_mod (Nat.le_refl _), Nat.add_comm, Nat.add_mul_mod_self_right,
        Nat.mod_eq_of_lt hlt, ih]
    rw [List.length_cons, toBits, ofBits_cons, hbit, hrest]

theorem toBits_add (m n v : ℕ) : toBits (m + n) v = toBits m (v >>> n) ++ toBits n v := by
  refine List.ext_getElem (by simp) fun i h1 h2 => ?_
  rw [length_toBits] at h1
  rw [List.getElem_append, getElem_toBits]
  split
  · next h =>
    rw [length_toBits] at h
    rw [getElem_toBits, Nat.testBit_shiftRight, show n + (m - 1 - i) = m + n - 1 - i by omega]
  · next h =>
    rw [length_toBits] at h
    rw [getElem_toBits, length_toBits, show n - 1 - (i - m) = m + n - 1 - i by omega]

theorem drop_toBits {n m : ℕ} (h : m ≤ n) (v : ℕ) : (toBits n v).drop m = toBits (n - m) v := by
  obtain ⟨k, rfl⟩ := Nat.exists_eq_add_of_le h
  rw [toBits_add, List.drop_left' (length_toBits ..), Nat.add_sub_cancel_left]

theorem take_toBits {n m : ℕ} (h : m ≤ n) (v : ℕ) :
    (toBits n v).take m = toBits m (v >>> (n - m)) := by
  obtain ⟨k, rfl⟩ := Nat.exists_eq_add_of_le h
  rw [toBits_add, List.take_left' (length_toBits ..), Nat.add_sub_cancel_left]

theorem toBits_zero (n : ℕ) : toBits n 0 = List.replicate n false := by
  refine List.ext_getElem (by simp) fun i h1 h2 => ?_
  rw [getElem_toBits, List.getElem_replicate, Nat.zero_testBit]

/-- The number a list of bits denotes in two's complement. -/
def toInt (l : List Bool) : ℤ :=
  if 2 * ofBits l < 2 ^ l.length then ofBits l else (ofBits l : ℤ) - 2 ^ l.length

/-- The low `n` bits of an integer in two's complement, most significant first. -/
def intBits (n : ℕ) (x : ℤ) : List Bool := toBits n (x % 2 ^ n).toNat

@[simp] theorem length_intBits (n : ℕ) (x : ℤ) : (intBits n x).length = n := length_toBits ..

theorem toInt_bounds (l : List Bool) :
    -2 ^ l.length ≤ 2 * toInt l ∧ 2 * toInt l < 2 ^ l.length := by
  have hlt := ofBits_lt l
  have hcast : (2 : ℤ) ^ l.length = ((2 ^ l.length : ℕ) : ℤ) := by push_cast; rfl
  rw [toInt, hcast]
  split <;> omega

theorem toInt_intBits (n : ℕ) (x : ℤ) :
    toInt (intBits n x) =
      if 2 * (x % 2 ^ n) < 2 ^ n then x % 2 ^ n else x % 2 ^ n - 2 ^ n := by
  have hpos : (0 : ℤ) < 2 ^ n := by
    have h : ((2 ^ n : ℕ) : ℤ) = 2 ^ n := by push_cast; rfl
    have := Nat.two_pow_pos n
    omega
  have hnonneg := Int.emod_nonneg x hpos.ne'
  have hlt := Int.emod_lt_of_pos x hpos
  have hval : ((ofBits (intBits n x) : ℕ) : ℤ) = x % 2 ^ n := by
    rw [intBits, ofBits_toBits]
    push_cast
    rw [Int.toNat_of_nonneg hnonneg, Int.emod_eq_of_lt hnonneg hlt]
  have hcond : 2 * ofBits (intBits n x) < 2 ^ n ↔ 2 * (x % 2 ^ n) < 2 ^ n := by
    rw [← hval]
    norm_cast
  rw [toInt, length_intBits, hval]
  simp only [hcond]

/-- The bits of a word are those of the integer it denotes. -/
theorem toBits_toNat {w n : ℕ} (h : n ≤ w) (x : BitVec w) :
    toBits n x.toNat = intBits n x.toInt := by
  have hmod : x.toInt % 2 ^ n = ((x.toNat % 2 ^ n : ℕ) : ℤ) := by
    have hpow : ((2 ^ w : ℕ) : ℤ) = 2 ^ n * 2 ^ (w - n) := by
      rw [← pow_add, Nat.add_sub_cancel' h]
      push_cast
      rfl
    rw [BitVec.toInt_eq_toNat_cond]
    split
    · push_cast
      rfl
    · rw [hpow, Int.sub_mul_emod_self_left]
      push_cast
      rfl
  rw [intBits, hmod, Int.toNat_natCast, toBits_mod (Nat.le_refl n)]

/-- **Sign extension.** A number of `len` bits in a wider word, with the bits above it set where its
sign bit is, is that number in two's complement. -/
theorem toInt_signed {w len : ℕ} {r sign ext : BitVec w} (h0 : 0 < len) (hlen : len < w)
    (hr : r.toNat < 2 ^ len) (hsign : sign.toNat = 2 ^ (len - 1))
    (hext : ext.toNat = 2 ^ w - 2 ^ len) :
    (if r &&& sign ≠ 0 then r ||| ext else r).toInt =
      if 2 * r.toNat < 2 ^ len then (r.toNat : ℤ) else r.toNat - 2 ^ len := by
  have hpow : 2 ^ len = 2 * 2 ^ (len - 1) := by rw [← pow_succ', Nat.sub_add_cancel h0]
  have hwide : 2 * 2 ^ len ≤ 2 ^ w := by
    rw [← pow_succ']
    exact Nat.pow_le_pow_right (by decide) hlen
  have hbit : r &&& sign ≠ 0 ↔ 2 ^ (len - 1) ≤ r.toNat := by
    have hand : (r &&& sign).toNat = (r.toNat.testBit (len - 1)).toNat * 2 ^ (len - 1) := by
      rw [BitVec.toNat_and, hsign, Nat.and_two_pow]
    have htest : r.toNat.testBit (len - 1) = decide (2 ^ (len - 1) ≤ r.toNat) := by
      by_cases h : 2 ^ (len - 1) ≤ r.toNat
      · rw [Nat.testBit_of_two_pow_le_and_two_pow_add_one_gt h (by rw [pow_succ]; omega)]
        simp [h]
      · rw [Nat.testBit_lt_two_pow (Nat.lt_of_not_le h)]
        simp [h]
    rw [Ne, ← BitVec.toNat_inj, hand, htest]
    by_cases h : 2 ^ (len - 1) ≤ r.toNat <;> simp [h]
  by_cases hs : 2 ^ (len - 1) ≤ r.toNat
  · have hor : (r ||| ext).toNat = 2 ^ w - 2 ^ len + r.toNat := by
      have hmul : 2 ^ w - 2 ^ len = 2 ^ len * (2 ^ (w - len) - 1) := by
        rw [Nat.mul_sub, ← pow_add, Nat.mul_one, Nat.add_sub_cancel' hlen.le]
      rw [BitVec.toNat_or, hext, hmul, Nat.or_comm, Nat.two_pow_add_eq_or_of_lt hr]
    have hcast : (2 : ℤ) ^ len = ((2 ^ len : ℕ) : ℤ) := by push_cast; rfl
    have hcast' : (2 : ℤ) ^ w = ((2 ^ w : ℕ) : ℤ) := by push_cast; rfl
    rw [if_pos (hbit.mpr hs), BitVec.toInt_eq_toNat_cond, hor, if_neg (by omega), if_neg (by omega),
      hcast]
    omega
  · rw [if_neg (fun h => hs (hbit.mp h)), BitVec.toInt_eq_toNat_cond, if_pos (by omega),
      if_pos (by omega)]
/-! ### Reading and overwriting a part of a list -/

section Splice

variable {α : Type*} {l new new' : List α} {i k n : ℕ}

/-- The `n` elements of `l` from position `i` on. -/
def slice (l : List α) (i n : ℕ) : List α := (l.drop i).take n

/-- The list `l` with its elements from position `i` on overwritten by `new`. -/
def splice (l : List α) (i : ℕ) (new : List α) : List α :=
  l.take i ++ (new ++ l.drop (i + new.length))

theorem length_slice (h : i + n ≤ l.length) : (slice l i n).length = n := by
  rw [slice, List.length_take, List.length_drop]
  omega

theorem length_splice (h : i + new.length ≤ l.length) : (splice l i new).length = l.length := by
  simp only [splice, List.length_append, List.length_take, List.length_drop]
  omega

theorem getElem?_slice : (slice l i n)[k]? = if k < n then l[i + k]? else none := by
  rw [slice, List.getElem?_take, List.getElem?_drop]

theorem getElem?_splice (h : i ≤ l.length) :
    (splice l i new)[k]? =
      if k < i then l[k]? else if k < i + new.length then new[k - i]? else l[k]? := by
  rw [splice, List.getElem?_append, List.length_take, Nat.min_eq_left h, List.getElem?_take,
    List.getElem?_append, List.getElem?_drop]
  split
  · rfl
  · by_cases hk : k < i + new.length
    · rw [if_pos (by omega), if_pos hk]
    · rw [if_neg (by omega), if_neg hk, show i + new.length + (k - i - new.length) = k by omega]

theorem slice_add (l : List α) (i m n : ℕ) :
    slice l i (m + n) = slice l i m ++ slice l (i + m) n := by
  rw [slice, slice, slice, List.take_add, List.drop_drop]

theorem slice_append_right {j : ℕ} (hj : j = new.length + i) (n : ℕ) :
    slice (new ++ l) j n = slice l i n := by
  rw [slice, hj, ← List.drop_drop, List.drop_left' rfl]
  rfl

theorem slice_append_left (h : i + n ≤ new.length) (l : List α) :
    slice (new ++ l) i n = slice new i n := by
  rw [slice, List.drop_append_of_le_length (by omega), List.take_append_of_le_length, slice]
  rw [List.length_drop]
  omega

theorem slice_slice {m : ℕ} (h : k + m ≤ n) : slice (slice l i n) k m = slice l (i + k) m := by
  rw [slice, slice, slice, List.drop_take, List.take_take, Nat.min_eq_left (by omega),
    List.drop_drop]

theorem take_slice {m : ℕ} (h : m ≤ n) : (slice l i n).take m = slice l i m := by
  rw [slice, slice, List.take_take, Nat.min_eq_left h]

theorem drop_slice {m : ℕ} : (slice l i n).drop m = slice l (i + m) (n - m) := by
  rw [slice, slice, List.drop_take, List.drop_drop]

/-- Two fields written side by side are one field written. -/
theorem splice_append {j : ℕ} (hj : j = i + new.length) (h : j ≤ l.length) :
    splice (splice l i new) j new' = splice l i (new ++ new') := by
  subst hj
  have hlen := length_splice h
  refine List.ext_getElem? fun k => ?_
  rw [getElem?_splice (by omega), getElem?_splice (by omega), getElem?_splice (by omega),
    List.length_append, List.getElem?_append]
  split_ifs <;> first | rfl | omega | (congr 1; omega)

/-- Writing back what is there before the field changes nothing there. -/
theorem splice_slice_append (h : i + n ≤ l.length) :
    splice l i (slice l i n ++ new) = splice l (i + n) new := by
  refine List.ext_getElem? fun k => ?_
  rw [getElem?_splice (by omega), getElem?_splice (by omega), List.length_append,
    List.getElem?_append, length_slice h, getElem?_slice]
  split_ifs <;> first | rfl | omega | (congr 1; omega)

/-- Writing back what is there after the field changes nothing there. -/
theorem splice_append_slice {j : ℕ} (hj : j = i + new.length) (h : j + n ≤ l.length) :
    splice l i (new ++ slice l j n) = splice l i new := by
  subst hj
  refine List.ext_getElem? fun k => ?_
  rw [getElem?_splice (by omega), getElem?_splice (by omega), List.length_append,
    List.getElem?_append, length_slice h, getElem?_slice]
  split_ifs <;> first | rfl | omega | (congr 1; omega)

theorem splice_nil (l : List α) (i : ℕ) : splice l i [] = l := by
  rw [splice, List.length_nil, Nat.add_zero, List.nil_append, List.take_append_drop]

end Splice

/-! ### Byte strings as bits -/

/-- The bits of a byte string, each byte most significant bit first. -/
def bitsOf (d : List (BitVec 8)) : List Bool := d.flatMap fun b => toBits 8 b.toNat

@[simp] theorem bitsOf_nil : bitsOf [] = [] := rfl

@[simp] theorem bitsOf_cons (b : BitVec 8) (d : List (BitVec 8)) :
    bitsOf (b :: d) = toBits 8 b.toNat ++ bitsOf d := rfl

theorem bitsOf_append (d d' : List (BitVec 8)) : bitsOf (d ++ d') = bitsOf d ++ bitsOf d' :=
  List.flatMap_append

@[simp] theorem length_bitsOf (d : List (BitVec 8)) : (bitsOf d).length = 8 * d.length := by
  induction d with
  | nil => rfl
  | cons b d ih => rw [bitsOf_cons, List.length_append, length_toBits, ih, List.length_cons]; omega

theorem take_bitsOf (d : List (BitVec 8)) (k : ℕ) :
    (bitsOf d).take (8 * k) = bitsOf (d.take k) := by
  induction d generalizing k with
  | nil => simp
  | cons b d ih =>
    cases k with
    | zero => rfl
    | succ k =>
      rw [bitsOf_cons, List.take_succ_cons, bitsOf_cons, List.take_append, length_toBits,
        List.take_of_length_le (by rw [length_toBits]; omega),
        show 8 * (k + 1) - 8 = 8 * k by omega, ih]

theorem drop_bitsOf (d : List (BitVec 8)) (k : ℕ) :
    (bitsOf d).drop (8 * k) = bitsOf (d.drop k) := by
  induction d generalizing k with
  | nil => simp
  | cons b d ih =>
    cases k with
    | zero => rfl
    | succ k =>
      rw [bitsOf_cons, List.drop_succ_cons, List.drop_append, length_toBits,
        List.drop_of_length_le (by rw [length_toBits]; omega),
        show 8 * (k + 1) - 8 = 8 * k by omega, ih, List.nil_append]

/-- A whole byte is eight bits. -/
theorem slice_bitsOf_byte {d : List (BitVec 8)} {k : ℕ} {b : BitVec 8} (h : d[k]? = some b) :
    slice (bitsOf d) (8 * k) 8 = toBits 8 b.toNat := by
  obtain ⟨hk, rfl⟩ := List.getElem?_eq_some_iff.mp h
  rw [slice, drop_bitsOf, List.drop_eq_getElem_cons hk, bitsOf_cons, List.take_append,
    length_toBits, List.take_of_length_le (by rw [length_toBits]), Nat.sub_self, List.take_zero,
    List.append_nil]

/-- Overwriting one byte overwrites its eight bits. -/
theorem bitsOf_set {d : List (BitVec 8)} {k : ℕ} (h : k < d.length) (b : BitVec 8) :
    bitsOf (d.set k b) = splice (bitsOf d) (8 * k) (toBits 8 b.toNat) := by
  rw [List.set_eq_take_append_cons_drop, if_pos h, bitsOf_append, bitsOf_cons, splice,
    length_toBits, take_bitsOf, show 8 * k + 8 = 8 * (k + 1) by omega, drop_bitsOf]

/-- The bits of a part of a byte string. -/
theorem bitsOf_slice (d : List (BitVec 8)) (i n : ℕ) :
    bitsOf ((d.drop i).take n) = slice (bitsOf d) (8 * i) (8 * n) := by
  rw [slice, drop_bitsOf, take_bitsOf]

/-- A byte string is determined by its bits. -/
theorem bitsOf_injective {d d' : List (BitVec 8)} (h : bitsOf d = bitsOf d') : d = d' := by
  induction d generalizing d' with
  | nil =>
    have hlen := congrArg List.length h
    rw [length_bitsOf, length_bitsOf, List.length_nil] at hlen
    exact (List.eq_nil_of_length_eq_zero (by omega)).symm
  | cons b d ih =>
    cases d' with
    | nil =>
      have hlen := congrArg List.length h
      rw [length_bitsOf, length_bitsOf, List.length_nil, List.length_cons] at hlen
      omega
    | cons b' d' =>
      rw [bitsOf_cons, bitsOf_cons] at h
      obtain ⟨hb, hd⟩ := List.append_inj h (by rw [length_toBits, length_toBits])
      have hval := congrArg ofBits hb
      rw [ofBits_toBits, ofBits_toBits, Nat.mod_eq_of_lt b.isLt, Nat.mod_eq_of_lt b'.isLt] at hval
      rw [BitVec.eq_of_toNat_eq hval, ih hd]

end Bits

end ChilopodCaster
