import ChilopodCaster.Bitfield
import ChilopodCaster.Lib.Memory

/-!
# Bit fields in memory

The functions of `bitfield.h` and `bitfield.c` as they work on memory: through a pointer, with the
`int`s of the source, which may be negative. An access outside the memory has no result, so a call
with a result has touched only what may be accessed.

An `int` that overflows is undefined in C. Here it wraps around, so that all the bits of a buffer
that ends at the largest position are covered: the source adds the length before it subtracts one.
What is proved of the calls in which nothing overflows is the same as if that were an error.

On a block of memory these functions do what those on byte strings do with its bytes. It is enough
that the bytes from the first to the last of the field are a block.

## Main definitions

* `InMemory.getSetBits`, `InMemory.getbits`, `InMemory.setbits`, `InMemory.copybits`
* `bitAt` — a bit of the memory
* `ReadsField`, `WritesField`, `CopiesRun` — what is expected

## Main results

* `InMemory.getSetBits_withBlock` — the functions on byte strings are simulated
* `bitfields_exact` — what is expected holds
-/

namespace ChilopodCaster

namespace Bitfield

open Bits

namespace InMemory

/-! ### The functions -/

/-- What an `int` keeps of a number. -/
def wrap (n : ℤ) : ℤ := (BitVec.ofInt 32 n).toInt

/-- The variables of `get_set_bits`, with the memory. -/
structure Cursor where
  m : Memory Byte
  offset : ℤ
  r : BitVec 64
  val : BitVec 64

/-- The loop `while (full_bytes--)`. -/
def getSetFullBytes (d : ℤ) (set : Bool) : ℕ → Cursor → Option Cursor
  | 0, c => some c
  | fullBytes + 1, c =>
    if set then do
      let m ← c.m.modify (d + c.offset) fun _ => (c.val >>> 56).setWidth 8
      getSetFullBytes d set fullBytes ⟨m, c.offset + 1, c.r, c.val <<< 8⟩
    else do
      let b ← c.m (d + c.offset)
      getSetFullBytes d set fullBytes ⟨c.m, c.offset + 1, (c.r <<< 8) + b.setWidth 64, c.val⟩

/-- The field lies in one byte. -/
def oneByte (set : Bool) (a : ℤ) (mask : Byte) (shift : ℕ) (m : Memory Byte) (r val : BitVec 64) :
    Option (BitVec 64 × Memory Byte) :=
  if set then do
    let mask := mask &&& ((0xff : Byte) <<< shift)
    let m ← m.modify a (· &&& ~~~mask)
    let m ← m.modify a (· ||| (mask &&& (val <<< shift).setWidth 8))
    return (0, m)
  else return (r >>> shift, m)

/-- The first, possibly incomplete, byte of several. -/
def firstByte (set : Bool) (d offsetFirst : ℤ) (bitsFirst : ℕ) (len : ℤ) (mask : Byte)
    (m : Memory Byte) (r val : BitVec 64) : Option Cursor :=
  if set then do
    let val := val <<< (64 - len).toNat
    let m ← m.modify (d + offsetFirst) (· &&& ~~~mask)
    let m ← m.modify (d + offsetFirst) (· ||| (val >>> (bitsFirst + 56)).setWidth 8)
    return ⟨m, offsetFirst + 1, r, val <<< (8 - bitsFirst)⟩
  else return ⟨m, offsetFirst + 1, r, val⟩

/-- The last, possibly incomplete, byte. -/
def lastByte (set : Bool) (d : ℤ) (bitsLast : ℕ) (c : Cursor) :
    Option (BitVec 64 × Memory Byte) :=
  if bitsLast ≠ 0 then
    if set then do
      let mask := (0xff : Byte) >>> bitsLast
      let m ← c.m.modify (d + c.offset) (· &&& mask)
      let m ← m.modify (d + c.offset) (· ||| ((c.val >>> 56).setWidth 8 &&& ~~~mask))
      return (0, m)
    else do
      let b ← c.m (d + c.offset)
      return ((c.r <<< bitsLast) + (b >>> (8 - bitsLast)).setWidth 64, c.m)
  else return (c.r, c.m)

/-- `get_set_bits`: the value that is returned, and the memory. On `int`s, `>> 3` and `& 7` are the
quotient and the remainder by 8. The variable `r` is not set when writing. -/
def getSetBits (m : Memory Byte) (d beg len : ℤ) (set : Bool) (val : BitVec 64) :
    Option (BitVec 64 × Memory Byte) :=
  if len = 0 then some (0, m)
  else
    let offsetFirst := beg / 8
    let offsetLast := wrap (beg + len - 1) / 8
    let bitsFirst := (beg % 8).toNat
    let fullBytes := wrap (len - (8 - bitsFirst)) / 8
    let bitsLast := (wrap (len - (8 - bitsFirst)) % 8).toNat
    let shift := (wrap (-beg - len) % 8).toNat
    let mask := (0xff : Byte) >>> bitsFirst
    let first := if set then some 0
      else (m (d + offsetFirst)).map fun b => (b &&& mask).setWidth 64
    do
    let r ← first
    if offsetFirst = offsetLast then oneByte set (d + offsetFirst) mask shift m r val
    else
      let c ← firstByte set d offsetFirst bitsFirst len mask m r val
      let c ← getSetFullBytes d set (fullBytes % 2 ^ 32).toNat c
      lastByte set d bitsLast c

/-- `getbits` -/
def getbits (m : Memory Byte) (d beg len : ℤ) : Option (BitVec 64) :=
  (getSetBits m d beg len false 0).map Prod.fst

/-- `setbits` -/
def setbits (m : Memory Byte) (d beg len : ℤ) (val : BitVec 64) : Option (Memory Byte) :=
  (getSetBits m d beg len true val).map Prod.snd

/-- `copybits`: the memory and the two positions after the call. -/
def copybits (m : Memory Byte) (dst posDst src posSrc len : ℤ) : Option (Memory Byte × ℤ × ℤ) :=
  if len = 0 then some (m, posDst, posSrc)
  else do
    let lentmp := if len > 64 then 64 else len
    let tmp ← getbits m src posSrc lentmp
    let m ← setbits m dst posDst lentmp tmp
    copybits m dst (wrap (posDst + lentmp)) src (wrap (posSrc + lentmp)) (len - lentmp)
termination_by len.natAbs
decreasing_by split <;> omega

/-! ### Numbers that an `int` holds -/

theorem wrap_of_bounds {n : ℤ} (hlow : -2 ^ 31 ≤ n) (hhigh : n < 2 ^ 31) : wrap n = n := by
  rw [wrap, BitVec.toInt_ofInt]
  exact Int.bmod_eq_of_le_mul_two (by omega) (by omega)

/-- The position of the last bit need not be an `int`: it is compared only, and with a position in
the same byte it is one. -/
theorem wrap_last {q f len : ℕ} (hbeg : 8 * q + f < 2 ^ 31) (hf : f < 8) (h0 : 0 < len)
    (hlen : len ≤ 64) :
    (8 * q + f : ℤ) / 8 = wrap (8 * q + f + len - 1) / 8 ↔ 0 = (f + len - 1) / 8 := by
  rw [wrap, BitVec.toInt_ofInt, Int.bmod_def]
  split
  · omega
  · omega

theorem wrap_shift (q f len : ℕ) :
    (wrap (-(8 * q + f) - len) % 8).toNat = (8 - (f + len) % 8) % 8 := by
  rw [wrap, BitVec.toInt_ofInt, Int.bmod_def]
  split
  · omega
  · omega

/-! ### The functions on byte strings -/

/-- The variables, when the bytes are a block of the memory at `d + q`. -/
def Cursor.of (m : Memory Byte) (d q : ℤ) (c : Bitfield.Cursor) : Cursor :=
  ⟨m.withBlock (d + q) c.d, q + c.offset, c.r, c.val⟩

section

variable {m : Memory Byte} {d : ℤ} {q : ℕ} {set : Bool}

theorem load_withBlock {l : List Byte} {k : ℕ} {b : Byte} (h : l[k]? = some b) :
    m.withBlock (d + q) l (d + (q + k)) = some b := by
  rw [← add_assoc, Memory.withBlock_add (List.getElem?_eq_some_iff.mp h).1, h]

theorem modify_withBlock {l : List Byte} {k : ℕ} {b : Byte} (h : l[k]? = some b)
    (f : Byte → Byte) : (m.withBlock (d + q) l).modify (d + (q + k)) f =
      some (m.withBlock (d + q) (l.set k (f b))) := by
  rw [← add_assoc, Memory.modify_withBlock h]

/-- Two changes of one byte, and what comes next. -/
theorem modify_modify_withBlock {β : Type} {l : List Byte} {k : ℕ} {b : Byte} (h : l[k]? = some b)
    (f g : Byte → Byte) (next : Memory Byte → Option β) :
    (do
      let m ← (m.withBlock (d + q) l).modify (d + (q + k)) f
      let m ← m.modify (d + (q + k)) g
      next m) = next (m.withBlock (d + q) (l.set k (g (f b)))) := by
  have hset : (l.set k (f b))[k]? = some (f b) :=
    List.getElem?_set_self (List.getElem?_eq_some_iff.mp h).1
  rw [modify_withBlock h, Option.bind_eq_bind, Option.bind_some, modify_withBlock hset,
    List.set_set]
  rfl

/-- The loop. -/
theorem getSetFullBytes_withBlock {n : ℕ} {c c' : Bitfield.Cursor}
    (h : Bitfield.getSetFullBytes set n c = some c') :
    getSetFullBytes d set n (Cursor.of m d q c) = some (Cursor.of m d q c') := by
  induction n generalizing c with
  | zero =>
    obtain rfl := Option.some.inj h
    rfl
  | succ n ih =>
    rw [Bitfield.getSetFullBytes] at h
    obtain ⟨b, hb, h⟩ := Option.bind_eq_some_iff.mp h
    rw [getSetFullBytes]
    cases set with
    | true =>
      rw [if_pos rfl] at h ⊢
      rw [Cursor.of, modify_withBlock hb]
      exact ih h
    | false =>
      have hload : (Cursor.of m d q c).m (d + (Cursor.of m d q c).offset) = some b :=
        load_withBlock hb
      rw [if_neg Bool.false_ne_true] at h ⊢
      rw [hload]
      exact ih h

/-- The first byte. -/
theorem firstByte_withBlock {l : List Byte} {b : Byte} (hb : l[0]? = some b) {f len : ℕ}
    (hlen : len ≤ 64) {mask : Byte} {r val : BitVec 64} :
    firstByte set d (q + (0 : ℕ)) f len mask (m.withBlock (d + q) l) (if set then 0 else r) val =
      some (Cursor.of m d q
        (if set then
          ⟨l.set 0 ((b &&& ~~~mask) ||| ((val <<< (64 - len)) >>> (f + 56)).setWidth 8), 0 + 1, 0,
            (val <<< (64 - len)) <<< (8 - f)⟩
        else ⟨l, 0 + 1, r, val⟩)) := by
  cases set with
  | true =>
    have hshift : (64 - len : ℤ).toNat = 64 - len := by omega
    rw [firstByte, if_pos rfl, hshift]
    exact modify_modify_withBlock hb _ _ _
  | false => rfl

/-- The last byte. -/
theorem lastByte_withBlock {bitsLast : ℕ} {c : Bitfield.Cursor} {r : BitVec 64} {l' : List Byte}
    (h : (if bitsLast ≠ 0 then
        c.d[c.offset]?.bind fun b =>
          if set then
            some (0, c.d.set c.offset ((b &&& (0xff : Byte) >>> bitsLast) |||
              ((c.val >>> 56).setWidth 8 &&& ~~~((0xff : Byte) >>> bitsLast))))
          else some ((c.r <<< bitsLast) + (b >>> (8 - bitsLast)).setWidth 64, c.d)
      else some (c.r, c.d) : Option (BitVec 64 × List Byte)) = some (r, l')) :
    lastByte set d bitsLast (Cursor.of m d q c) = some (r, m.withBlock (d + q) l') := by
  rw [lastByte]
  by_cases hbits : bitsLast ≠ 0
  · rw [if_pos hbits] at h ⊢
    obtain ⟨b, hb, h⟩ := Option.bind_eq_some_iff.mp h
    cases set with
    | true =>
      obtain ⟨rfl, rfl⟩ := Prod.mk.inj (Option.some.inj h)
      exact modify_modify_withBlock hb _ _ _
    | false =>
      obtain ⟨rfl, rfl⟩ := Prod.mk.inj (Option.some.inj h)
      have hload : (Cursor.of m d q c).m (d + (Cursor.of m d q c).offset) = some b :=
        load_withBlock hb
      rw [if_neg Bool.false_ne_true, hload]
      rfl
  · rw [if_neg hbits] at h ⊢
    obtain ⟨rfl, rfl⟩ := Prod.mk.inj (Option.some.inj h)
    rfl

/-- **The functions on byte strings are simulated** by those on memory, when the bytes from that of
the first bit on are a block. -/
theorem getSetBits_withBlock {l l' : List Byte} {f len : ℕ} {val r : BitVec 64}
    (hbeg : 8 * q + f < 2 ^ 31) (hf : f < 8) (hlen : len ≤ 64)
    (h : Bitfield.getSetBits l f len set val = some (r, l')) :
    getSetBits (m.withBlock (d + q) l) d (8 * q + f) len set val =
      some (r, m.withBlock (d + q) l') := by
  by_cases h0 : len = 0
  · rw [Bitfield.getSetBits, if_pos h0] at h
    obtain ⟨rfl, rfl⟩ := Prod.mk.inj (Option.some.inj h)
    rw [getSetBits, if_pos (Int.natCast_eq_zero.mpr h0)]
  · have hfirst : (8 * q + f : ℤ) / 8 = q + (0 : ℕ) := by omega
    have hbits : ((8 * q + f : ℤ) % 8).toNat = f := by omega
    have hrest : wrap (len - (8 - f)) = len - (8 - f) := wrap_of_bounds (by omega) (by omega)
    have hlast : (q + (0 : ℕ) : ℤ) = wrap (8 * q + f + len - 1) / 8 ↔ 0 = (f + len - 1) / 8 := by
      rw [← hfirst]
      exact wrap_last hbeg hf (Nat.pos_of_ne_zero h0) hlen
    rw [getSetBits, if_neg (by omega)]
    simp only [wrap_shift, hbits, hrest, hfirst]
    simp only [Bitfield.getSetBits, if_neg h0, Nat.div_eq_of_lt hf, Nat.mod_eq_of_lt hf,
      Option.pure_def, Option.bind_eq_bind] at h
    obtain ⟨b, hb, h⟩ := Option.bind_eq_some_iff.mp h
    have hload : (if set then some 0 else (m.withBlock (d + q) l (d + (q + (0 : ℕ)))).map
          fun b => (b &&& (0xff : Byte) >>> f).setWidth 64) =
        some (if set then 0 else (b &&& (0xff : Byte) >>> f).setWidth 64) := by
      rw [load_withBlock hb]
      cases set with
      | true => rfl
      | false => rfl
    rw [hload, Option.bind_eq_bind, Option.bind_some]
    by_cases hone : 0 = (f + len - 1) / 8
    · rw [if_pos hone] at h
      rw [if_pos (hlast.mpr hone)]
      cases set with
      | true =>
        obtain ⟨rfl, rfl⟩ := Prod.mk.inj (Option.some.inj h)
        exact modify_modify_withBlock hb _ _ _
      | false =>
        obtain ⟨rfl, rfl⟩ := Prod.mk.inj (Option.some.inj h)
        rfl
    · have hfull : ((len - (8 - f) : ℤ) / 8 % 2 ^ 32).toNat = (len - (8 - f)) / 8 := by omega
      have hbitsLast : ((len - (8 - f) : ℤ) % 8).toNat = (len - (8 - f)) % 8 := by omega
      rw [if_neg hone] at h
      obtain ⟨c, hc, h⟩ := Option.bind_eq_some_iff.mp h
      rw [if_neg (mt hlast.mp hone), hfull, hbitsLast, firstByte_withBlock hb hlen,
        Option.bind_eq_bind, Option.bind_some, getSetFullBytes_withBlock hc, Option.bind_some]
      exact lastByte_withBlock h

end

/-! ### Bits of the memory -/

/-- The bit at a position, counted from the most significant bit of the byte that is pointed to. -/
def bitAt (m : Memory Byte) (d i : ℤ) : Option Bool :=
  (m (d + i / 8)).map fun b => b.getLsbD (7 - (i % 8).toNat)

/-- The byte at an address holds a bit of the field. -/
def HoldsField (d : ℤ) (beg len : ℕ) (a : ℤ) : Prop := ∃ k < len, a = d + (beg + k : ℤ) / 8

/-- The bytes that hold the field may be accessed. -/
def Accessible (m : Memory Byte) (d : ℤ) (beg len : ℕ) : Prop :=
  ∀ k < len, (m (d + (beg + k : ℤ) / 8)).isSome

instance (m : Memory Byte) (d : ℤ) (beg len : ℕ) : Decidable (Accessible m d beg len) :=
  Nat.decidableBallLT len fun k _ => (m (d + (beg + k : ℤ) / 8)).isSome

/-- The bits of the field. -/
def fieldBits (m : Memory Byte) (d : ℤ) (beg len : ℕ) : List Bool :=
  (List.range len).map fun k : ℕ => (bitAt m d (beg + k)).getD false

/-- The bytes from that of the first bit to that of the last. -/
theorem holdsField_iff {d : ℤ} {beg len : ℕ} (h0 : 0 < len) {a : ℤ} :
    HoldsField d beg len a ↔ d + beg / 8 ≤ a ∧ a ≤ d + (beg + len - 1) / 8 := by
  constructor
  · rintro ⟨k, hk, rfl⟩
    omega
  · rintro ⟨hfirst, hlast⟩
    refine ⟨(8 * (a - d) - beg).toNat, ?_, ?_⟩
    · omega
    · omega

theorem getElem?_bitsOf (l : List Byte) (i : ℕ) :
    (bitsOf l)[i]? = (l[i / 8]?).map fun b => b.getLsbD (7 - i % 8) := by
  have hi : 8 * (i / 8) + i % 8 = i := Nat.div_add_mod i 8
  have hlt : i % 8 < 8 := Nat.mod_lt i (by decide)
  cases hget : l[i / 8]? with
  | none =>
    have hle := List.getElem?_eq_none_iff.mp hget
    rw [Option.map_none, List.getElem?_eq_none_iff, length_bitsOf]
    omega
  | some b =>
    have hbyte := congrArg (fun bits => bits[i % 8]?) (slice_bitsOf_byte hget)
    rwa [getElem?_slice, if_pos hlt, hi, getElem?_toBits b hlt] at hbyte

section

variable {m : Memory Byte} {d : ℤ} {q : ℕ} {l : List Byte}

/-- A bit of the block. -/
theorem bitAt_withBlock {j : ℕ} (h : j < 8 * l.length) :
    bitAt (m.withBlock (d + q) l) d (8 * q + j) = (bitsOf l)[j]? := by
  have hbyte : (d + (8 * q + j : ℤ) / 8) = d + (q + (j / 8 : ℕ)) := by omega
  have hbit : ((8 * q + j : ℤ) % 8).toNat = j % 8 := by omega
  rw [bitAt, hbyte, hbit, ← add_assoc, Memory.withBlock_add (by omega), getElem?_bitsOf]

/-- A bit outside the block. -/
theorem bitAt_withBlock_of_not {i : ℤ} (h : i < 8 * q ∨ 8 * (q + l.length) ≤ i) :
    bitAt (m.withBlock (d + q) l) d i = bitAt m d i := by
  rw [bitAt, bitAt]
  rcases h with h | h
  · rw [Memory.withBlock_of_lt (by omega)]
  · rw [Memory.withBlock_of_le (by omega)]

/-- The bytes that hold the field are a block. -/
theorem exists_block {f len : ℕ} (hf : f < 8) (h0 : 0 < len)
    (h : Accessible m d (8 * q + f) len) :
    ∃ l : List Byte, l.length = (f + len - 1) / 8 + 1 ∧ m.withBlock (d + q) l = m := by
  refine Memory.exists_withBlock fun k hk => ?_
  have hbyte : d + q + k = d + ((8 * q + f : ℕ) + (8 * k - f : ℕ) : ℤ) / 8 := by omega
  rw [hbyte]
  exact h (8 * k - f) (by omega)

/-- The bits of a field in the block. -/
theorem fieldBits_withBlock {f len : ℕ} (h : f + len ≤ 8 * l.length) :
    fieldBits (m.withBlock (d + q) l) d (8 * q + f) len = slice (bitsOf l) f len := by
  refine List.ext_getElem? fun k => ?_
  rw [fieldBits, List.getElem?_map, getElem?_slice]
  by_cases hk : k < len
  · have hin : f + k < (bitsOf l).length := by
      rw [length_bitsOf]
      omega
    have hpos : ((8 * q + f : ℕ) + k : ℤ) = 8 * q + (f + k : ℕ) := by omega
    rw [List.getElem?_range hk, Option.map_some, hpos, bitAt_withBlock (by omega), if_pos hk,
      List.getElem?_eq_getElem hin, Option.getD_some]
  · rw [List.getElem?_eq_none (by rw [List.length_range]; omega), if_neg hk, Option.map_none]

end

/-! ### What is expected -/

section

variable (m : Memory Byte)

/-- Only the bytes that hold the field are read, and none is written. The result is the number
denoted by its bits. -/
def ReadsField (d : ℤ) (beg len : ℕ) : Prop :=
  Accessible m d beg len →
    getbits m d beg len = some (BitVec.ofNat 64 (ofBits (fieldBits m d beg len))) ∧
      (getSetBits m d beg len false 0).map Prod.snd = some m

/-- Only the bytes that hold the field are read and written. Its bits become the low bits of the
value, and all other bits of the memory stay. -/
def WritesField (d : ℤ) (beg len : ℕ) (val : BitVec 64) : Prop :=
  Accessible m d beg len → ∃ m', setbits m d beg len val = some m' ∧
    (∀ i, bitAt m' d i = if beg ≤ i ∧ i < beg + len then
      some (val.getLsbD (len - 1 - (i - beg).toNat)) else bitAt m d i) ∧
    ∀ a, ¬ HoldsField d beg len a → m' a = m a

/-- Only the bytes that hold the two runs of bits are read and written, if these are different
bytes. The one run becomes the other, all other bits of the memory stay, and both positions
advance. -/
def CopiesRun (dst : ℤ) (posDst : ℕ) (src : ℤ) (posSrc len : ℕ) : Prop :=
  Accessible m dst posDst len → Accessible m src posSrc len →
    (∀ a, HoldsField dst posDst len a → ¬ HoldsField src posSrc len a) →
      ∃ m', copybits m dst posDst src posSrc len = some (m', ↑(posDst + len), ↑(posSrc + len)) ∧
        (∀ i, bitAt m' dst i = if posDst ≤ i ∧ i < posDst + len then
          bitAt m src (posSrc + (i - posDst)) else bitAt m dst i) ∧
        ∀ a, ¬ HoldsField dst posDst len a → m' a = m a

end

/-! ### Reading and writing -/

section

variable {m : Memory Byte} {d : ℤ} {beg len : ℕ}

/-- A position is in a byte. -/
theorem exists_byte (beg : ℕ) : ∃ q f, f < 8 ∧ beg = 8 * q + f :=
  ⟨beg / 8, beg % 8, Nat.mod_lt _ (by decide), (Nat.div_add_mod _ _).symm⟩

/-- **Reading a field** leaves the memory as it is. -/
theorem getSetBits_get (hbeg : beg < 2 ^ 31) (hlen : len ≤ 64) (h : Accessible m d beg len) :
    ∃ r, getSetBits m d beg len false 0 = some (r, m) ∧
      r.toNat = ofBits (fieldBits m d beg len) := by
  rcases Nat.eq_zero_or_pos len with rfl | h0
  · exact ⟨0, rfl, rfl⟩
  · obtain ⟨q, f, hf, rfl⟩ := exists_byte beg
    obtain ⟨l, hl, hm⟩ := exists_block hf h0 h
    obtain ⟨r, hrun, hval⟩ := @Bitfield.getSetBits_get l f len (by omega) hlen
    refine ⟨r, ?_, ?_⟩
    · have hblock := @getSetBits_withBlock m d q _ _ _ _ _ _ _ hbeg hf hlen hrun
      rw [hm] at hblock
      exact_mod_cast hblock
    · have hbits := @fieldBits_withBlock m d q l f len (by omega)
      rw [hm] at hbits
      rw [hval, hbits]

/-- **Reading** -/
theorem readsField (hbeg : beg < 2 ^ 31) (hlen : len ≤ 64) : ReadsField m d beg len := by
  intro h
  obtain ⟨r, hrun, hval⟩ := getSetBits_get hbeg hlen h
  rw [getbits, hrun, Option.map_some, ← hval, BitVec.ofNat_toNat, BitVec.setWidth_eq]
  exact ⟨rfl, rfl⟩

/-- **Writing** -/
theorem writesField (hbeg : beg < 2 ^ 31) (hlen : len ≤ 64) (val : BitVec 64) :
    WritesField m d beg len val := by
  intro h
  rcases Nat.eq_zero_or_pos len with rfl | h0
  · refine ⟨m, rfl, fun i => ?_, fun _ _ => rfl⟩
    rw [if_neg (by omega)]
  · obtain ⟨q, f, hf, rfl⟩ := exists_byte beg
    obtain ⟨l, hl, hm⟩ := exists_block hf h0 h
    obtain ⟨l', hset, hl', hbits⟩ := setbits_eq l f (by omega) hlen val
    obtain ⟨⟨r, l'⟩, hrun, rfl⟩ := Option.map_eq_some_iff.mp hset
    have hblock := @getSetBits_withBlock m d q _ _ _ _ _ _ _ hbeg hf hlen hrun
    rw [hm] at hblock
    dsimp only at hl' hbits
    have hfield : f ≤ (bitsOf l).length := by
      rw [length_bitsOf]
      omega
    refine ⟨m.withBlock (d + q) l', ?_, fun i => ?_, fun a ha => ?_⟩
    · rw [setbits]
      push_cast
      rw [hblock, Option.map_some]
    · by_cases hin : 8 * q ≤ i ∧ i < 8 * (q + l.length)
      · obtain ⟨j, rfl⟩ : ∃ j : ℕ, i = 8 * q + j := ⟨(i - 8 * q).toNat, by omega⟩
        have hold := @bitAt_withBlock m d q l j (by omega)
        rw [hm] at hold
        rw [bitAt_withBlock (by omega), hbits, getElem?_splice hfield, length_toBits, hold]
        by_cases hj : f ≤ j ∧ j < f + len
        · have hk : (8 * q + j - (8 * q + f : ℕ) : ℤ).toNat = j - f := by omega
          have hlen' : j - f < (toBits len val.toNat).length := by
            rw [length_toBits]
            omega
          rw [if_neg (by omega), if_pos hj.2, if_pos (by omega), hk,
            List.getElem?_eq_getElem hlen', getElem_toBits, BitVec.testBit_toNat]
        · rw [if_neg (by omega : ¬ (((8 * q + f : ℕ) : ℤ) ≤ 8 * q + j ∧ _))]
          split
          · rfl
          · rw [if_neg (by omega)]
      · rw [bitAt_withBlock_of_not (by omega), if_neg (by omega)]
    · rw [holdsField_iff h0] at ha
      rcases Int.lt_or_le a (d + q) with hlow | hlow
      · rw [Memory.withBlock_of_lt hlow]
      · rw [Memory.withBlock_of_le (by omega)]

end

/-! ### Copying -/

section

variable {m m' : Memory Byte} {d : ℤ} {beg len k n : ℕ}

/-- The bytes of a part of a field hold the field. -/
theorem HoldsField.of_part {a : ℤ} (h : HoldsField d (beg + k) n a) (hkn : k + n ≤ len) :
    HoldsField d beg len a := by
  obtain ⟨j, hj, rfl⟩ := h
  refine ⟨k + j, by omega, ?_⟩
  push_cast
  rw [add_assoc (beg : ℤ)]

theorem Accessible.part (h : Accessible m d beg len) (hkn : k + n ≤ len) :
    Accessible m d (beg + k) n := by
  intro j hj
  obtain ⟨i, hi, ha⟩ := HoldsField.of_part ⟨j, hj, rfl⟩ hkn
  rw [ha]
  exact h i hi

theorem bitAt_congr {i : ℤ} (h : m' (d + i / 8) = m (d + i / 8)) : bitAt m' d i = bitAt m d i := by
  rw [bitAt, bitAt, h]

theorem isSome_bitAt {i : ℤ} : (bitAt m d i).isSome = (m (d + i / 8)).isSome := by
  rw [bitAt, Option.isSome_map]

/-- What is written stays accessible. -/
theorem Accessible.write {beg' len' : ℕ} {val : BitVec 64} (h : Accessible m d beg len)
    (hwrite : ∀ i, bitAt m' d i = if beg' ≤ i ∧ i < beg' + len' then
      some (val.getLsbD (len' - 1 - (i - beg').toNat)) else bitAt m d i) :
    Accessible m' d beg len := by
  intro j hj
  rw [← isSome_bitAt, hwrite]
  split
  · rfl
  · rw [isSome_bitAt]
    exact h j hj

/-- A bit of the number that is read. -/
theorem getLsbD_fieldBits (hlen : len ≤ 64) (h : Accessible m d beg len) (hk : k < len) :
    some ((BitVec.ofNat 64 (ofBits (fieldBits m d beg len))).getLsbD (len - 1 - k)) =
      bitAt m d (beg + k) := by
  have hlength : (fieldBits m d beg len).length = len := by
    rw [fieldBits, List.length_map, List.length_range]
  have hbits := congrArg (fun bits => bits[k]?) (toBits_ofBits (fieldBits m d beg len))
  have hsome : (bitAt m d (beg + k)).isSome := by
    rw [isSome_bitAt]
    exact h k hk
  obtain ⟨b, hb⟩ := Option.isSome_iff_exists.mp hsome
  have hin : k < (toBits len (ofBits (fieldBits m d beg len))).length := by
    rwa [length_toBits]
  rw [hlength] at hbits
  rw [fieldBits, List.getElem?_map, List.getElem?_range hk, Option.map_some, hb, ← fieldBits,
    List.getElem?_eq_getElem hin, getElem_toBits] at hbits
  rw [BitVec.getLsbD_ofNat, hb, decide_eq_true (by omega), Bool.true_and]
  exact hbits

end

/-- The loop copies one piece after the other. -/
theorem copybits_piece {m m₁ : Memory Byte} {dst src : ℤ} {posDst posSrc len n : ℕ}
    {tmp : BitVec 64} (h0 : len ≠ 0) (hn : n = min len 64) (hdst : posDst + n < 2 ^ 31)
    (hsrc : posSrc + n < 2 ^ 31) (hread : getbits m src posSrc n = some tmp)
    (hset : setbits m dst posDst n tmp = some m₁) :
    copybits m dst posDst src posSrc len =
      copybits m₁ dst ↑(posDst + n) src ↑(posSrc + n) ↑(len - n) := by
  have hlentmp : (if (len : ℤ) > 64 then 64 else len : ℤ) = n := by
    split
    · omega
    · omega
  have hposDst : wrap (posDst + n) = (posDst + n : ℕ) := wrap_of_bounds (by omega) (by omega)
  have hposSrc : wrap (posSrc + n) = (posSrc + n : ℕ) := wrap_of_bounds (by omega) (by omega)
  have hrest : (len - n : ℤ) = (len - n : ℕ) := by omega
  rw [copybits, if_neg (by omega)]
  dsimp only
  rw [hlentmp, hread, Option.bind_eq_bind, Option.bind_some, hset, Option.bind_eq_bind,
    Option.bind_some, hposDst, hposSrc, hrest]

/-- **Copying** -/
theorem copiesRun {m : Memory Byte} {dst src : ℤ} {posDst posSrc len : ℕ}
    (hdst : posDst + len < 2 ^ 31) (hsrc : posSrc + len < 2 ^ 31) :
    CopiesRun m dst posDst src posSrc len := by
  induction len using Nat.strongRecOn generalizing m posDst posSrc with
  | ind len ih =>
    intro hd hs hdisjoint
    by_cases h0 : len = 0
    · refine ⟨m, ?_, fun i => ?_, fun _ _ => rfl⟩
      · rw [copybits, if_pos (Int.natCast_eq_zero.mpr h0), h0]
        rfl
      · rw [if_neg (by omega)]
    · obtain ⟨n, hn⟩ : ∃ n : ℕ, n = min len 64 := ⟨_, rfl⟩
      have hd₀ : Accessible m dst posDst n := Accessible.part (k := 0) hd (by omega)
      have hs₀ : Accessible m src posSrc n := Accessible.part (k := 0) hs (by omega)
      have hread := (@readsField m src posSrc n (by omega) (by omega) hs₀).1
      obtain ⟨m₁, hset, hbits₁, hframe₁⟩ := @writesField m dst posDst n (by omega) (by omega)
        (BitVec.ofNat 64 (ofBits (fieldBits m src posSrc n))) hd₀
      have hsrc₁ : ∀ a, HoldsField src posSrc len a → m₁ a = m a := fun a ha =>
        hframe₁ a fun hheld => hdisjoint a (HoldsField.of_part (k := 0) hheld (by omega)) ha
      have hs₁ : Accessible m₁ src (posSrc + n) (len - n) := fun j hj => by
        have hheld : HoldsField src posSrc len (src + ((posSrc + n : ℕ) + j : ℤ) / 8) :=
          HoldsField.of_part ⟨j, hj, rfl⟩ (by omega : n + (len - n) ≤ len)
        obtain ⟨i, hi, ha⟩ := hheld
        rw [ha, hsrc₁ _ ⟨i, hi, rfl⟩]
        exact hs i hi
      obtain ⟨m₂, hcopy, hbits₂, hframe₂⟩ := @ih (len - n) (by omega) m₁ (posDst + n) (posSrc + n)
        (by omega) (by omega) ((hd.part (by omega)).write hbits₁) hs₁ fun a had has =>
          hdisjoint a (had.of_part (by omega)) (has.of_part (by omega))
      refine ⟨m₂, ?_, fun i => ?_, fun a ha => ?_⟩
      · have hend : n + (len - n) = len := by omega
        rw [copybits_piece h0 hn (by omega) (by omega) hread hset, hcopy, add_assoc, hend,
          add_assoc, hend]
      · rw [hbits₂]
        by_cases hrest : posDst + n ≤ i ∧ i < posDst + len
        · rw [if_pos (by omega), if_pos (by omega)]
          have hpos : ((posSrc + n : ℕ) + (i - (posDst + n : ℕ)) : ℤ) = posSrc + (i - posDst) := by
            omega
          rw [hpos]
          exact bitAt_congr (hsrc₁ _ ⟨(i - posDst).toNat, by omega, by congr 2; omega⟩)
        · rw [if_neg (by omega), hbits₁]
          by_cases hfirst : posDst ≤ i ∧ i < posDst + n
          · have hpos : (i - posDst : ℤ) = (i - posDst).toNat := by omega
            rw [if_pos hfirst, if_pos (by omega), getLsbD_fieldBits (by omega) hs₀ (by omega)]
            rw [← hpos]
          · rw [if_neg hfirst, if_neg (by omega)]
      · rw [hframe₂ a fun hheld => ha (hheld.of_part (by omega)),
          hframe₁ a fun hheld => ha (HoldsField.of_part (k := 0) hheld (by omega))]

/-- **Bit fields are read, written and copied exactly.** Positions are `int`s that are not negative,
and so are those after a copy. -/
theorem bitfields_exact (m : Memory Byte) :
    (∀ (d : ℤ) (beg len : ℕ), beg < 2 ^ 31 → len ≤ 64 →
      ReadsField m d beg len ∧ ∀ val, WritesField m d beg len val) ∧
    ∀ (dst src : ℤ) (posDst posSrc len : ℕ), posDst + len < 2 ^ 31 → posSrc + len < 2 ^ 31 →
      CopiesRun m dst posDst src posSrc len :=
  ⟨fun _ _ _ hbeg hlen => ⟨readsField hbeg hlen, writesField hbeg hlen⟩,
    fun _ _ _ _ _ hdst hsrc => copiesRun hdst hsrc⟩

/-- Two bytes, and two others. -/
def fourBytes : Memory Byte := fun a =>
  if a = 10 then some 0xa5 else if a = 11 then some 0x3c
  else if a = 20 ∨ a = 21 then some 0xff else none

/-- Ten bits are read, written, and copied. -/
theorem bitfields_exact_fourBytes :
    getbits fourBytes 10 3 10 = some 0xa7 ∧
      (∃ m, setbits fourBytes 10 3 10 0 = some m ∧ bitAt m 10 2 = some true ∧
        bitAt m 10 3 = some false) ∧
      ∃ m, copybits fourBytes 20 5 10 3 10 = some (m, 15, 13) ∧ bitAt m 20 5 = some false := by
  obtain ⟨hfield, hcopy⟩ := bitfields_exact fourBytes
  obtain ⟨hread, hwrite⟩ := hfield 10 3 10 (by decide) (by decide)
  obtain ⟨m, hset, hbits, -⟩ := hwrite 0 (by decide)
  obtain ⟨m', hrun, hbits', -⟩ := hcopy 20 10 5 3 10 (by decide) (by decide) (by decide)
    (by decide) (by
      rintro a ⟨k, hk, rfl⟩ ⟨j, hj, ha⟩
      omega)
  exact ⟨(hread (by decide)).1, ⟨m, hset, (hbits 2).trans (by decide), (hbits 3).trans (by decide)⟩,
    m', hrun, (hbits' 5).trans (by decide)⟩

end InMemory

end Bitfield

end ChilopodCaster
