import ChilopodCaster.Lib.Loop
import ChilopodCaster.Rtcm.Framing
import Mathlib.Data.Nat.Bitwise

/-!
# Converting MSM7 messages to MSM4

`rtcm_convert_msm7` rewrites an MSM7 observation message, the full one, as the shorter MSM4. The
layout of both is fixed by two masks, of satellites and of signals, and by a mask of the cells, the
pairs of the two that are observed. The conversion reads the fields of the input one by one, at bit
positions, and writes those of the output.

The bytes a read may touch are the payload, without the header and the checksum, and the bytes a
write may touch are those of the new packet. Anything else, and a failed assertion, makes the model
answer `none`; a null pointer is `some none`. A new packet is not initialised, so what is in it at
first is a parameter.

## Main definitions

* `countSet`, `rtcmDf407ToDf402`, `getUint10`, `getInt20`, `getInt24` — the helpers of the source
* `rtcmConvertMsm7` — `rtcm_convert_msm7`
* `Msm7Accepted`, `msm4Payload` — what the conversion is for, in terms of fields

## Main results

* `countSet_eq` — the loop counts the bits of a mask
* `rtcmConvertMsm7_eq` — what is accepted, and what is made of it
* `rtcmConvertMsm7_exact` — the conversion, for every frame
-/

namespace ChilopodCaster

namespace Rtcm

open Bits Bitfield

/-! ### Helpers of the source -/

/-- One round of the loop of `count_set`, on `c` and `v`. -/
def countSetBody (s : ℕ × BitVec 64) : (ℕ × BitVec 64) ⊕ ℕ :=
  if s.2 = 0 then .inr s.1 else .inl (s.1 + 1, s.2 &&& (s.2 - 1))

/-- `count_set`. -/
def countSet (v : BitVec 64) : Option ℕ := Loop.run countSetBody 65 (0, v)

/-- `rtcm_df407_to_df402`. -/
def rtcmDf407ToDf402 (df407 : ℕ) : ℕ :=
  if df407 < 256 then
    if df407 < 128 then
      if df407 < 64 then
        if df407 < 32 then 0 else 1
      else if df407 < 96 then 2 else 3
    else if df407 < 192 then
      if df407 < 160 then 4 else 5
    else if df407 < 224 then 6 else 7
  else if df407 < 384 then
    if df407 < 320 then
      if df407 < 288 then 8 else 9
    else if df407 < 352 then 10 else 11
  else if df407 < 448 then
    if df407 < 416 then 12 else 13
  else if df407 < 480 then 14 else 15

/-- `get_uint10`. -/
def getUint10 (d : List Byte) (beg : ℕ) : Option (BitVec 16) :=
  (getbits d beg 10).map (·.setWidth 16)

/-- A two's complement field of `len` bits as an `int32_t`: `sign` is its sign bit, and `ext` the
bits above it. -/
def getSigned (len : ℕ) (sign ext : BitVec 32) (d : List Byte) (beg : ℕ) : Option (BitVec 32) := do
  let r ← getbits d beg len
  let r := r.setWidth 32
  return if r &&& sign ≠ 0 then r ||| ext else r

/-- `get_int20`. -/
def getInt20 : List Byte → ℕ → Option (BitVec 32) := getSigned 20 0x80000 0xfff00000

/-- `get_int24`. -/
def getInt24 : List Byte → ℕ → Option (BitVec 32) := getSigned 24 0x800000 0xff000000

/-! ### The conversion -/

/-- A field read, and converted, by one of the loops over the cells: the value `setbits` gets, the
conversion from `int32_t` to `uint64_t` included. -/
abbrev CellField := List Byte → ℕ → Option (BitVec 64)

/-- A signed field rounded to the nearest and shortened by `shift` bits. -/
def roundField (get : List Byte → ℕ → Option (BitVec 32)) (half : BitVec 32) (shift : ℕ) :
    CellField := fun data pos => do
  let df ← get data pos
  return ((df + half).sshiftRight shift).signExtend 64

/-- The loop that copies the DF405 array as the DF400 array. -/
def df405ToDf400 : CellField := roundField getInt20 (1 <<< 4) 5

/-- The loop that copies the DF406 array as the DF401 array. -/
def df406ToDf401 : CellField := roundField getInt24 (1 <<< 1) 2

/-- The loop that converts the DF407 array to the DF402 array. -/
def df407ToDf402 : CellField := fun data pos => do
  let df407 ← getUint10 data pos
  return BitVec.ofNat 64 (rtcmDf407ToDf402 df407.toNat)

/-- The loop that copies the DF408 array as the DF403 array. The sum is an `int`. -/
def df408ToDf403 : CellField := fun data pos => do
  let df408 ← getUint10 data pos
  let df403 : BitVec 16 := BitVec.ofNat 16 ((df408.toNat + (1 <<< 3)) >>> 4)
  return df403.setWidth 64

/-- The output and the two positions of `rtcm_convert_msm7`. -/
structure ConvertState where
  dataOut : List Byte
  posOut : ℕ
  pos : ℕ

/-- One of the loops over the cells: `n` fields of `lenIn` bits are read, and as many of `lenOut`
bits written. -/
def convertCells (field : CellField) (lenIn lenOut : ℕ) (data : List Byte) :
    ℕ → ConvertState → Option ConvertState
  | 0, c => some c
  | n + 1, c => do
    let val ← field data c.pos
    let dataOut ← setbits c.dataOut c.posOut lenOut val
    convertCells field lenIn lenOut data n ⟨dataOut, c.posOut + lenOut, c.pos + lenIn⟩

/-- `copybits` as `rtcm_convert_msm7` calls it. -/
def copyField (data : List Byte) (len : ℕ) (c : ConvertState) : Option ConvertState := do
  let (dataOut, posOut, pos) ← copybits c.dataOut c.posOut data c.pos len
  return ⟨dataOut, posOut, pos⟩

/-- The part of `rtcm_convert_msm7` that fills the payload, from the message type to the padding. -/
def writePayload (data : List Byte) (msmv type nsat nsig ncell lenOutBits : ℕ)
    (dataOut : List Byte) : Option (List Byte) := do
  let dataOut ← setbits dataOut 0 12 (BitVec.ofNat 64 (type - 7 + msmv))
  -- common header, masks and, for MSM4, DF397
  let c ← copyField data (157 + nsat * nsig + if msmv = 4 then nsat * 8 else 0) ⟨dataOut, 12, 12⟩
  let c := if msmv ≠ 4 then { c with pos := c.pos + nsat * 8 } else c
  let c := { c with pos := c.pos + 4 * nsat }
  -- DF398
  let c ← copyField data (nsat * 10) c
  let c := { c with pos := c.pos + 14 * nsat }
  let c ← convertCells df405ToDf400 20 15 data ncell c
  let c ← convertCells df406ToDf401 24 22 data ncell c
  let c ← convertCells df407ToDf402 10 4 data ncell c
  -- half-cycle ambiguity indicators
  let c ← copyField data ncell c
  let c ← if msmv = 4 then convertCells df408ToDf403 10 6 data ncell c else some c
  guard (c.posOut = lenOutBits)
  if c.posOut % 8 ≠ 0 then setbits c.dataOut c.posOut (8 - c.posOut % 8) 0
  else return c.dataOut

/-- The part of `rtcm_convert_msm7` that builds the new packet, once its size is known. `junk` is
what `malloc` returns. -/
def buildPacket (junk : ℕ → Byte) (data : List Byte)
    (msmv type nsat nsig ncell lenOutBits lenOut : ℕ) : Option Packet := do
  let dataRtcm := (List.range (lenOut + 6)).map junk
  let dataRtcm := dataRtcm.set 0 0xd3
  let dataRtcm := dataRtcm.set 1 (BitVec.ofNat 8 (lenOut >>> 8))
  let dataRtcm := dataRtcm.set 2 (BitVec.ofNat 8 (lenOut &&& 0xff))
  -- `data_out` points into the packet, after its header
  let dataOut ← writePayload data msmv type nsat nsig ncell lenOutBits (dataRtcm.drop 3)
  let dataRtcm := dataRtcm.take 3 ++ dataOut
  let crc : BitVec 32 := (rtcmCrc24qHash (dataRtcm.take (lenOut + 3))).setWidth 32
  let dataRtcm := dataRtcm.set (lenOut + 3) ((crc >>> 16).setWidth 8)
  let dataRtcm := dataRtcm.set (lenOut + 4) ((crc >>> 8).setWidth 8)
  let dataRtcm := dataRtcm.set (lenOut + 5) (crc.setWidth 8)
  return Packet.new dataRtcm

/-- `rtcm_convert_msm7`. The version asked for is not used: `msmv` is 4. -/
def rtcmConvertMsm7 (junk : ℕ → Byte) (p : Packet) (_msmVersion : ℕ) : Option (Option Packet) := do
  let len := p.datalen - 6
  let data := (p.data.drop 3).take len
  let msmv := 4
  let type ← (rtcmGetType p).map (·.toNat)
  if type < 1077 ∨ type > 1127 ∨ type % 10 ≠ 7 ∨ len < 22 then return none
  -- message type, reference station ID and GNSS epoch time
  let pos := 12 + 12 + 30
  -- the multiple message bit and what follows it, to the smoothing interval
  let pos := pos + (1 + 3 + 7 + 2 + 2 + 1 + 3)
  let df394 ← getbits data pos 64
  let pos := pos + 64
  let nsat ← countSet df394
  let df395 ← getbits data pos 32
  let pos := pos + 32
  let nsig ← countSet df395
  if nsat * nsig > 64 then return none
  guard (pos = 169)
  let endcell := pos + nsat * nsig
  if endcell > len * 8 then return none
  let df396 ← getbits data pos (nsat * nsig)
  let pos := pos + nsat * nsig
  let ncell ← countSet df396
  let endpos := pos + (8 + 4 + 10 + 14) * nsat + (20 + 24 + 10 + 1 + 10 + 15) * ncell
  if endpos > len * 8 then return none
  let lenOutBits :=
    if msmv = 4 then 169 + (8 + 10 + nsig) * nsat + (15 + 22 + 4 + 1 + 6) * ncell
    else 169 + (10 + nsig) * nsat + (15 + 22 + 4 + 1) * ncell
  let lenOut := (lenOutBits + 7) / 8
  if lenOut > 1023 then return none
  let packet ← buildPacket junk data msmv type nsat nsig ncell lenOutBits lenOut
  return some packet

/-! ### Counting the bits of a mask -/

theorem count_toBits_succ (n v : ℕ) :
    (toBits (n + 1) v).count true = (toBits n (v / 2)).count true + v % 2 := by
  rw [toBits_add, List.count_append, Nat.shiftRight_one]
  congr 1
  simp only [toBits, Nat.testBit_zero]
  rcases Nat.mod_two_eq_zero_or_one v with h | h <;> simp [h]

/-- Clearing the least significant bit set takes one off the number of bits set. -/
theorem count_toBits_and_pred (n v : ℕ) (h0 : v ≠ 0) (hv : v < 2 ^ n) :
    (toBits n (v &&& (v - 1))).count true + 1 = (toBits n v).count true := by
  induction n generalizing v with
  | zero => omega
  | succ n ih =>
    rw [count_toBits_succ, count_toBits_succ, Nat.and_div_two]
    rw [pow_succ] at hv
    rcases Nat.mod_two_eq_zero_or_one v with h | h
    · -- an even number: the bit is further up
      have hlow : (v &&& (v - 1)) % 2 = 0 := by rw [Nat.and_mod_two_pow (n := 1)]; simp [h]
      rw [show (v - 1) / 2 = v / 2 - 1 by omega, hlow, h, Nat.add_zero, Nat.add_zero]
      exact ih (v / 2) (by omega) (by omega)
    · have hlow : (v &&& (v - 1)) % 2 = 0 := by
        rw [Nat.and_mod_two_pow (n := 1)]; simp [show (v - 1) % 2 = 0 by omega]
      rw [show (v - 1) / 2 = v / 2 by omega, Nat.and_self, hlow, h, Nat.add_zero]

/-- **The loop counts the bits set.** -/
theorem countSet_eq (v : BitVec 64) : countSet v = some ((toBits 64 v.toNat).count true) := by
  have hround : ∀ s : ℕ × BitVec 64,
      s.1 + (toBits 64 s.2.toNat).count true = (toBits 64 v.toNat).count true →
      Loop.Round countSetBody
        (fun s => s.1 + (toBits 64 s.2.toNat).count true = (toBits 64 v.toNat).count true)
        (fun s => (toBits 64 s.2.toNat).count true)
        (fun c => c = (toBits 64 v.toNat).count true) s := by
    intro s hs
    rw [Loop.Round, countSetBody]
    by_cases h0 : s.2 = 0
    · rw [if_pos h0]
      simpa [h0, toBits_zero] using hs
    · have hval : (s.2 &&& (s.2 - 1)).toNat = s.2.toNat &&& (s.2.toNat - 1) := by
        have hne : s.2.toNat ≠ 0 := fun h => h0 (BitVec.eq_of_toNat_eq h)
        rw [BitVec.toNat_and, BitVec.toNat_sub_of_le (by rw [BitVec.le_def]; simp; omega)]
        rfl
      have hcount := count_toBits_and_pred 64 s.2.toNat (fun h => h0 (BitVec.eq_of_toNat_eq h))
        s.2.isLt
      rw [if_neg h0]
      simp only [hval]
      omega
  have hle : (toBits 64 v.toNat).count true ≤ 64 :=
    Nat.le_trans List.count_le_length (Nat.le_of_eq (length_toBits ..))
  obtain ⟨c, hrun, rfl⟩ := Loop.run_total _ _ hround 65 (0, v) (by simp) (by dsimp only; omega)
  exact hrun

/-! ### Fields of one cell -/

/-- A field of a cell converted: read from `lenIn` bits, its value written on `lenOut` bits is what
`f` says. -/
def Converts (field : CellField) (lenIn lenOut : ℕ) (f : List Bool → List Bool) : Prop :=
  ∀ data pos, pos + lenIn ≤ 8 * data.length → ∃ val, field data pos = some val ∧
    toBits lenOut val.toNat = f (slice (bitsOf data) pos lenIn)

/-- `get_int20` and `get_int24` read a field in two's complement. -/
theorem getSigned_eq {len : ℕ} {sign ext : BitVec 32} {d : List Byte} {beg : ℕ} (h0 : 0 < len)
    (hlen : len < 32) (hsign : sign.toNat = 2 ^ (len - 1)) (hext : ext.toNat = 2 ^ 32 - 2 ^ len)
    (hd : beg + len ≤ 8 * d.length) :
    ∃ r, getSigned len sign ext d beg = some r ∧ r.toInt = toInt (slice (bitsOf d) beg len) := by
  have hl : (slice (bitsOf d) beg len).length = len := length_slice (by rwa [length_bitsOf])
  have hv := ofBits_lt (slice (bitsOf d) beg len)
  rw [hl] at hv
  refine ⟨_, by rw [getSigned, getbits_eq hd (by omega)]; rfl, ?_⟩
  rw [toInt, hl]
  have hle : 2 ^ len ≤ 2 ^ 31 := Nat.pow_le_pow_right (by decide) (by omega)
  have hr : ((BitVec.ofNat 64 (ofBits (slice (bitsOf d) beg len))).setWidth 32).toNat =
      ofBits (slice (bitsOf d) beg len) := by
    rw [BitVec.toNat_setWidth, BitVec.toNat_ofNat]
    omega
  have hsigned := toInt_signed h0 hlen (hr ▸ hv) hsign hext
  rwa [hr] at hsigned

theorem roundField_converts {get : List Byte → ℕ → Option (BitVec 32)} {half : BitVec 32}
    {lenIn lenOut shift : ℕ} (hin : lenIn < 31) (hout : lenOut ≤ 64) (hhalf : half.toNat < 2 ^ 30)
    (hget : ∀ d beg, beg + lenIn ≤ 8 * d.length →
      ∃ r, get d beg = some r ∧ r.toInt = toInt (slice (bitsOf d) beg lenIn)) :
    Converts (roundField get half shift) lenIn lenOut fun l =>
      intBits lenOut ((toInt l + half.toNat) / 2 ^ shift) := by
  intro data pos hpos
  obtain ⟨r, hr, hval⟩ := hget data pos hpos
  refine ⟨_, by rw [roundField, hr]; rfl, ?_⟩
  have hl : (slice (bitsOf data) pos lenIn).length = lenIn := length_slice (by rwa [length_bitsOf])
  have hrange : -2 ^ 30 ≤ toInt (slice (bitsOf data) pos lenIn) ∧
      toInt (slice (bitsOf data) pos lenIn) < 2 ^ 30 := by
    have hlt := ofBits_lt (slice (bitsOf data) pos lenIn)
    have hpow : 2 ^ lenIn ≤ 2 ^ 30 := Nat.pow_le_pow_right (by decide) (by omega)
    have hcast : (2 : ℤ) ^ lenIn = ((2 ^ lenIn : ℕ) : ℤ) := by push_cast; rfl
    rw [toInt, hl, hcast]
    rw [hl] at hlt
    split <;> omega
  -- the sum does not overflow, and both conversions keep the value
  have hsum : (r + half).toInt = toInt (slice (bitsOf data) pos lenIn) + half.toNat := by
    have hhalfInt : half.toInt = half.toNat := BitVec.toInt_eq_toNat_of_lt (by omega)
    rw [BitVec.toInt_add, hval, hhalfInt, Int.bmod_eq_of_le (by omega) (by omega)]
  have hwide : (((r + half).sshiftRight shift).signExtend 64).toInt =
      (toInt (slice (bitsOf data) pos lenIn) + half.toNat) / 2 ^ shift := by
    rw [BitVec.toInt_signExtend_of_le (by decide), BitVec.toInt_sshiftRight, hsum,
      Int.shiftRight_eq_div_pow]
    push_cast
    rfl
  rw [toBits_toNat hout, hwide]

theorem df405ToDf400_converts :
    Converts df405ToDf400 20 15 fun l => intBits 15 ((toInt l + 16) / 32) :=
  roundField_converts (by decide) (by decide) (by decide) fun _ _ h =>
    getSigned_eq (by decide) (by decide) (by decide) (by decide) h

theorem df406ToDf401_converts :
    Converts df406ToDf401 24 22 fun l => intBits 22 ((toInt l + 2) / 4) :=
  roundField_converts (by decide) (by decide) (by decide) fun _ _ h =>
    getSigned_eq (by decide) (by decide) (by decide) (by decide) h

theorem getUint10_eq {d : List Byte} {beg : ℕ} (hd : beg + 10 ≤ 8 * d.length) :
    ∃ r, getUint10 d beg = some r ∧ r.toNat = ofBits (slice (bitsOf d) beg 10) := by
  have hlt := ofBits_lt (slice (bitsOf d) beg 10)
  rw [length_slice (by rwa [length_bitsOf])] at hlt
  refine ⟨_, by rw [getUint10, getbits_eq hd (by decide)]; rfl, ?_⟩
  rw [BitVec.toNat_setWidth, BitVec.toNat_ofNat]
  omega

theorem df407ToDf402_converts :
    Converts df407ToDf402 10 4 fun l => toBits 4 (rtcmDf407ToDf402 (ofBits l)) := by
  intro data pos hpos
  obtain ⟨r, hr, hval⟩ := getUint10_eq hpos
  refine ⟨_, by rw [df407ToDf402, hr]; rfl, ?_⟩
  rw [BitVec.toNat_ofNat, toBits_mod (by decide), hval]

theorem df408ToDf403_converts :
    Converts df408ToDf403 10 6 fun l => toBits 6 ((ofBits l + 8) / 16) := by
  intro data pos hpos
  obtain ⟨r, hr, hval⟩ := getUint10_eq hpos
  refine ⟨_, by rw [df408ToDf403, hr]; rfl, ?_⟩
  rw [BitVec.toNat_setWidth, BitVec.toNat_ofNat, toBits_mod (by decide), toBits_mod (by decide),
    hval, Nat.shiftRight_eq_div_pow]
  rfl

/-! ### Writing field after field -/

/-- What has been written of an output of `n` bytes: its first bits are `body`, and the next field
goes right after them. -/
structure Wrote (n : ℕ) (body : List Bool) (c : ConvertState) : Prop where
  length : c.dataOut.length = n
  posOut : c.posOut = body.length
  bits : body <+: bitsOf c.dataOut

theorem prefix_splice {l body new : List Bool} (h : body <+: l) :
    body ++ new <+: splice l body.length new := by
  have htake : l.take body.length = body := (List.prefix_iff_eq_take.mp h).symm
  rw [splice, htake, ← List.append_assoc]
  exact List.prefix_append ..

theorem Wrote.withPos {n : ℕ} {body : List Bool} {c : ConvertState} (h : Wrote n body c) (pos : ℕ) :
    Wrote n body { c with pos := pos } := ⟨h.length, h.posOut, h.bits⟩

theorem Wrote.setbits {n : ℕ} {body : List Bool} {c : ConvertState} (h : Wrote n body c) (len : ℕ)
    (hlen : len ≤ 64) (hfit : c.posOut + len ≤ 8 * n) (val : BitVec 64) (pos : ℕ) :
    ∃ out, Bitfield.setbits c.dataOut c.posOut len val = some out ∧
      Wrote n (body ++ toBits len val.toNat) ⟨out, c.posOut + len, pos⟩ := by
  obtain ⟨out, hout, hlength, hbits⟩ := setbits_eq c.dataOut c.posOut
    (by rw [h.length]; exact hfit) hlen val
  refine ⟨out, hout, hlength.trans h.length, ?_, ?_⟩
  · rw [List.length_append, length_toBits, ← h.posOut]
  · rw [hbits, h.posOut]
    exact prefix_splice h.bits

/-- The last byte is filled up with zero bits. -/
theorem Wrote.pad {n : ℕ} {body : List Bool} {c : ConvertState} (h : Wrote n body c)
    (hfit : c.posOut + 7 ≤ 8 * n) :
    ∃ out, (if c.posOut % 8 ≠ 0 then Bitfield.setbits c.dataOut c.posOut (8 - c.posOut % 8) 0
        else some c.dataOut) = some out ∧
      out.length = n ∧ body ++ List.replicate ((8 - c.posOut % 8) % 8) false <+: bitsOf out := by
  by_cases hpad : c.posOut % 8 = 0
  · refine ⟨c.dataOut, by rw [if_neg (not_not.mpr hpad)], h.length, ?_⟩
    rw [hpad, Nat.sub_zero, Nat.mod_self, List.replicate_zero, List.append_nil]
    exact h.bits
  · obtain ⟨out, hout, hwrote⟩ := h.setbits (8 - c.posOut % 8) (by omega) (by omega) 0 0
    refine ⟨out, by rw [if_pos hpad, hout], hwrote.length, ?_⟩
    rw [Nat.mod_eq_of_lt (show 8 - c.posOut % 8 < 8 by omega), ← toBits_zero]
    exact hwrote.bits

theorem Wrote.copyField {n : ℕ} {body : List Bool} {c : ConvertState} (h : Wrote n body c)
    (data : List Byte) (len : ℕ) (hfit : c.posOut + len ≤ 8 * n)
    (hread : c.pos + len ≤ 8 * data.length) :
    ∃ c', Rtcm.copyField data len c = some c' ∧ c'.pos = c.pos + len ∧
      c'.posOut = c.posOut + len ∧ Wrote n (body ++ slice (bitsOf data) c.pos len) c' := by
  obtain ⟨out, hout, hlength, hbits⟩ := copybits_eq c.dataOut c.posOut c.pos
    (by rw [h.length]; exact hfit) hread
  refine ⟨⟨out, c.posOut + len, c.pos + len⟩, ?_, rfl, rfl, hlength.trans h.length, ?_, ?_⟩
  · rw [Rtcm.copyField, hout]
    rfl
  · rw [List.length_append, length_slice (by rw [length_bitsOf]; omega), ← h.posOut]
  · rw [hbits, h.posOut]
    exact prefix_splice h.bits

/-- An array of `n` fields of `lenIn` bits, from position `pos` on, each one converted. -/
def cellArray (bits : List Bool) (pos lenIn n : ℕ) (f : List Bool → List Bool) : List Bool :=
  (List.range n).flatMap fun k => f (slice bits (pos + lenIn * k) lenIn)

theorem cellArray_succ (bits : List Bool) (pos lenIn n : ℕ) (f : List Bool → List Bool) :
    cellArray bits pos lenIn (n + 1) f =
      f (slice bits pos lenIn) ++ cellArray bits (pos + lenIn) lenIn n f := by
  rw [cellArray, cellArray, List.range_succ_eq_map, List.flatMap_cons, List.flatMap_map]
  congr 1
  refine List.flatMap_congr fun k _ => ?_
  rw [Nat.mul_succ, Nat.add_comm (lenIn * k), Nat.add_assoc]

theorem length_cellArray {bits : List Bool} {pos lenIn n lenOut : ℕ} {f : List Bool → List Bool}
    (hf : ∀ l, (f l).length = lenOut) : (cellArray bits pos lenIn n f).length = lenOut * n := by
  induction n generalizing pos with
  | zero => rfl
  | succ n ih => rw [cellArray_succ, List.length_append, hf, ih, Nat.mul_succ, Nat.add_comm]

theorem Wrote.convertCells {n lenIn lenOut : ℕ} {field : CellField} {f : List Bool → List Bool}
    {body : List Bool} {c : ConvertState} (data : List Byte) (ncell : ℕ)
    (hf : Converts field lenIn lenOut f) (hlen : lenOut ≤ 64) (h : Wrote n body c)
    (hfit : c.posOut + lenOut * ncell ≤ 8 * n)
    (hread : c.pos + lenIn * ncell ≤ 8 * data.length) :
    ∃ c', Rtcm.convertCells field lenIn lenOut data ncell c = some c' ∧
      c'.pos = c.pos + lenIn * ncell ∧ c'.posOut = c.posOut + lenOut * ncell ∧
      Wrote n (body ++ cellArray (bitsOf data) c.pos lenIn ncell f) c' := by
  induction ncell generalizing body c with
  | zero => exact ⟨c, rfl, rfl, rfl, by simpa [cellArray] using h⟩
  | succ k ih =>
    rw [Nat.mul_succ] at hfit hread
    obtain ⟨val, hval, hbits⟩ := hf data c.pos (by omega)
    obtain ⟨out, hout, hwrote⟩ := h.setbits _ hlen (by omega) val (c.pos + lenIn)
    rw [hbits] at hwrote
    obtain ⟨c', hrun, hpos, hposOut, hc'⟩ := ih hwrote (by dsimp only; omega) (by dsimp only; omega)
    refine ⟨c', ?_, by rw [hpos, Nat.mul_succ]; dsimp only; omega,
      by rw [hposOut, Nat.mul_succ]; dsimp only; omega, ?_⟩
    · rw [Rtcm.convertCells, hval]
      simp only [Option.bind_eq_bind, Option.bind_some, hout, hrun]
    · rwa [List.append_assoc, ← cellArray_succ] at hc'

/-! ### The message as fields -/

/-- The number of bits set in a mask. -/
abbrev popcount (mask : List Bool) : ℕ := mask.count true

/-- The number of satellites of an MSM message, from the bits of its payload. -/
def nsat (bits : List Bool) : ℕ := popcount (slice bits 73 64)

/-- The number of signals. -/
def nsig (bits : List Bool) : ℕ := popcount (slice bits 137 32)

/-- The number of cells. -/
def ncell (bits : List Bool) : ℕ := popcount (slice bits 169 (nsat bits * nsig bits))

/-- Where the satellite data starts, after the header and the three masks. -/
def satPos (bits : List Bool) : ℕ := 169 + nsat bits * nsig bits

/-- Where the signal data starts in an MSM7 message: after DF397, the extended satellite
information, DF398 and DF399. -/
def sigPos (bits : List Bool) : ℕ := satPos bits + (8 + 4 + 10 + 14) * nsat bits

/-- The fields of the MSM4 message of number `number` that stands for an MSM7 message. -/
def msm4Fields (number : ℕ) (bits : List Bool) : List Bool :=
  -- message number, then the header, the masks and DF397
  toBits 12 number ++
  slice bits 12 (157 + nsat bits * nsig bits + nsat bits * 8) ++
  -- DF398
  slice bits (satPos bits + (8 + 4) * nsat bits) (nsat bits * 10) ++
  -- DF400, DF401, DF402
  cellArray bits (sigPos bits) 20 (ncell bits) (fun l => intBits 15 ((toInt l + 16) / 32)) ++
  cellArray bits (sigPos bits + 20 * ncell bits) 24 (ncell bits)
    (fun l => intBits 22 ((toInt l + 2) / 4)) ++
  cellArray bits (sigPos bits + (20 + 24) * ncell bits) 10 (ncell bits)
    (fun l => toBits 4 (rtcmDf407ToDf402 (ofBits l))) ++
  -- half-cycle ambiguity indicators
  slice bits (sigPos bits + (20 + 24 + 10) * ncell bits) (ncell bits) ++
  -- DF403
  cellArray bits (sigPos bits + (20 + 24 + 10 + 1) * ncell bits) 10 (ncell bits)
    (fun l => toBits 6 ((ofBits l + 8) / 16))

/-- The number of bits of these fields. -/
def msm4Len (bits : List Bool) : ℕ :=
  169 + (8 + 10 + nsig bits) * nsat bits + (15 + 22 + 4 + 1 + 6) * ncell bits

theorem writePayload_eq {data : List Byte} (dataOut : List Byte) (type : ℕ)
    (hread : sigPos (bitsOf data) + 80 * ncell (bitsOf data) ≤ 8 * data.length)
    (hfit : msm4Len (bitsOf data) + 7 ≤ 8 * dataOut.length) :
    ∃ out, writePayload data 4 type (nsat (bitsOf data)) (nsig (bitsOf data)) (ncell (bitsOf data))
        (msm4Len (bitsOf data)) dataOut = some out ∧
      out.length = dataOut.length ∧
      (msm4Fields (type - 7 + 4) (bitsOf data)).length = msm4Len (bitsOf data) ∧
      msm4Fields (type - 7 + 4) (bitsOf data) ++
        List.replicate ((8 - msm4Len (bitsOf data) % 8) % 8) false <+: bitsOf out := by
  unfold msm4Fields msm4Len sigPos satPos at *
  generalize ncell (bitsOf data) = nc at *
  generalize nsig (bitsOf data) = ng at *
  generalize nsat (bitsOf data) = ns at *
  generalize hn : dataOut.length = n at *
  have hmul : (8 + 10 + ng) * ns = 18 * ns + ns * ng := by ring
  rw [hmul] at hfit ⊢
  have h₀ : Wrote n [] ⟨dataOut, 0, 12⟩ := ⟨hn, rfl, List.nil_prefix⟩
  obtain ⟨out₁, hrun₁, h₁⟩ := h₀.setbits 12 (by decide) (by dsimp only; omega)
    (BitVec.ofNat 64 (type - 7 + 4)) 12
  obtain ⟨c₂, hrun₂, hpos₂, hout₂, h₂⟩ := h₁.copyField data
    (157 + ns * ng + ns * 8) (by dsimp only; omega) (by dsimp only; omega)
  obtain ⟨c₃, hrun₃, hpos₃, hout₃, h₃⟩ := (h₂.withPos (c₂.pos + 4 * ns)).copyField data
    (ns * 10) (by dsimp only at *; omega) (by dsimp only at *; omega)
  obtain ⟨c₄, hrun₄, hpos₄, hout₄, h₄⟩ := Wrote.convertCells data nc
    df405ToDf400_converts (by decide) (h₃.withPos (c₃.pos + 14 * ns)) (by dsimp only at *; omega)
    (by dsimp only at *; omega)
  obtain ⟨c₅, hrun₅, hpos₅, hout₅, h₅⟩ := Wrote.convertCells data nc
    df406ToDf401_converts (by decide) h₄ (by dsimp only at *; omega) (by dsimp only at *; omega)
  obtain ⟨c₆, hrun₆, hpos₆, hout₆, h₆⟩ := Wrote.convertCells data nc
    df407ToDf402_converts (by decide) h₅ (by dsimp only at *; omega) (by dsimp only at *; omega)
  obtain ⟨c₇, hrun₇, hpos₇, hout₇, h₇⟩ := h₆.copyField data nc
    (by dsimp only at *; omega) (by dsimp only at *; omega)
  obtain ⟨c₈, hrun₈, hpos₈, hout₈, h₈⟩ := Wrote.convertCells data nc
    df408ToDf403_converts (by decide) h₇ (by dsimp only at *; omega) (by dsimp only at *; omega)
  dsimp only at *
  have hend : c₈.posOut = 169 + (18 * ns + ns * ng) + (15 + 22 + 4 + 1 + 6) * nc := by omega
  have hnumber : toBits 12 (BitVec.ofNat 64 (type - 7 + 4)).toNat = toBits 12 (type - 7 + 4) := by
    rw [BitVec.toNat_ofNat, toBits_mod (by decide)]
  have hp₃ : c₂.pos + 4 * ns = 169 + ns * ng + (8 + 4) * ns := by omega
  have hp₄ : c₃.pos + 14 * ns = 169 + ns * ng + (8 + 4 + 10 + 14) * ns := by omega
  have hp₅ : c₄.pos = 169 + ns * ng + (8 + 4 + 10 + 14) * ns + 20 * nc := by omega
  have hp₆ : c₅.pos = 169 + ns * ng + (8 + 4 + 10 + 14) * ns + (20 + 24) * nc := by omega
  have hp₇ : c₆.pos = 169 + ns * ng + (8 + 4 + 10 + 14) * ns + (20 + 24 + 10) * nc := by omega
  have hp₈ : c₇.pos = 169 + ns * ng + (8 + 4 + 10 + 14) * ns + (20 + 24 + 10 + 1) * nc := by omega
  rw [List.nil_append, hnumber, hp₃, hp₄, hp₅, hp₆, hp₇, hp₈] at h₈
  have hbody := h₈.posOut
  rw [hend] at hbody
  have hrun : ∀ L, c₈.posOut = L → writePayload data 4 type ns ng nc L dataOut =
      if c₈.posOut % 8 ≠ 0 then Bitfield.setbits c₈.dataOut c₈.posOut (8 - c₈.posOut % 8) 0
      else some c₈.dataOut := by
    intro L hL
    rw [Nat.zero_add] at hrun₂
    simp only [writePayload, hrun₁, if_true, ne_eq, not_true_eq_false, if_false,
      Option.bind_eq_bind, Option.bind_some, hrun₂, hrun₃, hrun₄, hrun₅, hrun₆, hrun₇, hrun₈, hL,
      guard_true]
    rfl
  obtain ⟨out, hpad, hlength, hbits⟩ := h₈.pad (by rwa [hend])
  rw [hend] at hbits
  exact ⟨out, (hrun _ hend).trans hpad, hlength, hbody.symm, hbits⟩

theorem set_checksum {d : List Byte} {n : ℕ} (hd : d.length = n + 3) (b₂ b₁ b₀ : Byte) :
    ((d.set n b₂).set (n + 1) b₁).set (n + 2) b₀ = d.take n ++ [b₂, b₁, b₀] := by
  refine List.ext_getElem? fun k => ?_
  rw [List.getElem?_append, List.length_take, Nat.min_eq_left (by omega), List.getElem?_take]
  simp only [List.getElem?_set, List.length_set]
  by_cases hk : k < n
  · rw [if_neg (by omega), if_neg (by omega), if_neg (by omega), if_pos hk, if_pos hk]
  · rw [if_neg hk]
    obtain rfl | rfl | rfl | hgt : k = n ∨ k = n + 1 ∨ k = n + 2 ∨ n + 3 ≤ k := by omega
    · simp [hd]
    · simp [hd]
    · simp [hd]
    · rw [if_neg (by omega), if_neg (by omega), if_neg (by omega),
        List.getElem?_eq_none (by omega), List.getElem?_eq_none (by simp; omega)]

/-- The checksum of a frame, as it is appended to it. -/
theorem toBits_checksum (crc : BitVec 32) :
    bitsOf [(crc >>> 16).setWidth 8, (crc >>> 8).setWidth 8, crc.setWidth 8] =
      toBits 24 crc.toNat := by
  rw [show 24 = 8 + (8 + 8) from rfl, toBits_add, toBits_add, bitsOf_cons, bitsOf_cons, bitsOf_cons,
    bitsOf_nil, List.append_nil]
  simp only [BitVec.toNat_setWidth, BitVec.toNat_ushiftRight]
  rw [toBits_mod (Nat.le_refl 8), toBits_mod (Nat.le_refl 8), toBits_mod (Nat.le_refl 8)]

/-- The bits of a frame: preamble, six reserved bits, length, payload, checksum. -/
def frameBits (payload : List Bool) : List Bool :=
  let covered := toBits 8 0xd3 ++ toBits 6 0 ++ toBits 10 (payload.length / 8) ++ payload
  covered ++ toBits 24 (Crc.ofBits crc24qPoly covered).toNat

theorem bitsOf_header {lenOut : ℕ} (h : lenOut ≤ 1023) :
    bitsOf [0xd3, BitVec.ofNat 8 (lenOut >>> 8), BitVec.ofNat 8 (lenOut &&& 0xff)] =
      toBits 8 0xd3 ++ toBits 6 0 ++ toBits 10 lenOut := by
  have hhigh : toBits 8 (BitVec.ofNat 8 (lenOut >>> 8)).toNat =
      toBits 6 0 ++ toBits 2 (lenOut >>> 8) := by
    rw [BitVec.toNat_ofNat, toBits_mod (Nat.le_refl 8), show 8 = 6 + 2 from rfl, toBits_add,
      ← Nat.shiftRight_add, Nat.shiftRight_eq_div_pow lenOut (6 + 2 + 2),
      Nat.div_eq_of_lt (by omega)]
  have hlow : toBits 8 (BitVec.ofNat 8 (lenOut &&& 0xff)).toNat = toBits 8 lenOut := by
    rw [show 0xff = 2 ^ 8 - 1 from rfl, Nat.and_two_pow_sub_one_eq_mod, BitVec.toNat_ofNat,
      toBits_mod (Nat.le_refl 8), toBits_mod (Nat.le_refl 8)]
  rw [bitsOf_cons, bitsOf_cons, bitsOf_cons, bitsOf_nil, hhigh, hlow, show 10 = 2 + 8 from rfl,
    toBits_add, List.append_nil, List.append_assoc, List.append_assoc]
  rfl

/-- The payload of the MSM4 message that stands for an MSM7 message: its fields, and zero bits up to
a whole number of bytes. -/
def msm4Payload (number : ℕ) (bits : List Bool) : List Bool :=
  msm4Fields number bits ++ List.replicate ((8 - msm4Len bits % 8) % 8) false

theorem buildPacket_eq {data : List Byte} (type : ℕ) (junk : ℕ → Byte)
    (hread : sigPos (bitsOf data) + 80 * ncell (bitsOf data) ≤ 8 * data.length)
    (hlen : (msm4Len (bitsOf data) + 7) / 8 ≤ 1023) :
    ∃ q, buildPacket junk data 4 type (nsat (bitsOf data)) (nsig (bitsOf data))
        (ncell (bitsOf data)) (msm4Len (bitsOf data)) ((msm4Len (bitsOf data) + 7) / 8) = some q ∧
      q.rtcmState = .raw ∧
      bitsOf q.data = frameBits (msm4Payload (type - 7 + 4) (bitsOf data)) := by
  set lenOut := (msm4Len (bitsOf data) + 7) / 8 with hlenOut
  set dataRtcm := ((((List.range (lenOut + 6)).map junk).set 0 0xd3).set 1
    (BitVec.ofNat 8 (lenOut >>> 8))).set 2 (BitVec.ofNat 8 (lenOut &&& 0xff)) with hdataRtcm
  have hlength : dataRtcm.length = lenOut + 6 := by simp [hdataRtcm]
  have hhead : dataRtcm.take 3 =
      [0xd3, BitVec.ofNat 8 (lenOut >>> 8), BitVec.ofNat 8 (lenOut &&& 0xff)] := by
    rw [hdataRtcm, show lenOut + 6 = 3 + (lenOut + 3) by omega, List.range_add, List.map_append]
    rfl
  obtain ⟨out, hrun, hout, hfields, hbits⟩ := writePayload_eq (dataRtcm.drop 3) type
    hread (by rw [List.length_drop]; omega)
  rw [List.length_drop, hlength] at hout
  have hpayload : (msm4Payload (type - 7 + 4) (bitsOf data)).length = 8 * lenOut := by
    rw [msm4Payload, List.length_append, hfields, List.length_replicate]
    omega
  -- the bytes the checksum covers
  have hcovered : bitsOf ((dataRtcm.take 3 ++ out).take (lenOut + 3)) =
      toBits 8 0xd3 ++ toBits 6 0 ++ toBits 10 lenOut ++
        msm4Payload (type - 7 + 4) (bitsOf data) := by
    have htake : (dataRtcm.take 3).length = 3 := by rw [hhead]; rfl
    rw [List.take_append, htake, List.take_of_length_le (by omega), Nat.add_sub_cancel,
      bitsOf_append, hhead, bitsOf_header hlen, ← take_bitsOf, ← hpayload]
    exact congrArg _ (List.prefix_iff_eq_take.mp hbits).symm
  have hcrc : ((rtcmCrc24qHash ((dataRtcm.take 3 ++ out).take (lenOut + 3))).setWidth 32).toNat =
      (Crc.ofBits crc24qPoly (toBits 8 0xd3 ++ toBits 6 0 ++ toBits 10 lenOut ++
        msm4Payload (type - 7 + 4) (bitsOf data))).toNat := by
    rw [rtcmCrc24qHash_eq, hcovered, BitVec.toNat_setWidth, BitVec.toNat_setWidth]
    omega
  refine ⟨_, by simp only [buildPacket, ← hdataRtcm, hrun, Option.bind_eq_bind, Option.bind_some];
                rfl, rfl, ?_⟩
  simp only [Packet.new]
  rw [set_checksum (by rw [List.length_append, hhead, hout]; simp; omega), bitsOf_append, hcovered,
    toBits_checksum, hcrc, frameBits, hpayload, Nat.mul_div_cancel_left _ (by decide)]

/-! ### The conversion of a frame -/

/-- A frame with a right checksum. -/
structure ValidFrame (data : List Byte) : Prop where
  header : ∃ mem₁ mem₂ tail, data = preamble :: mem₁ :: mem₂ :: tail ∧
    lenRtcm mem₁ mem₂ = data.length
  checksum : (rtcmCrcCheck ⟨.rtcmUnchecked, data⟩).1 = true

/-- The payload of a frame. -/
def payload (data : List Byte) : List Byte := (data.drop 3).take (data.length - 6)

/-- The message numbers of MSM7. -/
def msm7Types : List ℕ := [1077, 1087, 1097, 1107, 1117, 1127]

/-- A payload that can be converted: it is long enough for the header and the masks, it has no more
cells than fit a mask, it holds all the fields its masks declare, and the result is not too long. -/
def Msm7Accepted (data : List Byte) : Prop :=
  22 ≤ data.length ∧ nsat (bitsOf data) * nsig (bitsOf data) ≤ 64 ∧
    sigPos (bitsOf data) + (20 + 24 + 10 + 1 + 10 + 15) * ncell (bitsOf data) ≤ 8 * data.length ∧
    (msm4Len (bitsOf data) + 7) / 8 ≤ 1023

instance (data : List Byte) : Decidable (Msm7Accepted data) :=
  inferInstanceAs (Decidable (_ ∧ _ ∧ _ ∧ _))

theorem rtcmGetType_eq {p : Packet} {type : ℕ} (hstate : p.rtcmState ≠ .raw) (htype : type < 2 ^ 12)
    (hnumber : slice (bitsOf (payload p.data)) 0 12 = toBits 12 type) :
    (rtcmGetType p).map (·.toNat) = some type := by
  have hlen : 12 ≤ 8 * (p.data.length - 6) := by
    have h := congrArg List.length hnumber
    rw [length_toBits, slice, List.length_take, List.drop_zero, length_bitsOf, payload,
      List.length_take, List.length_drop] at h
    omega
  have hslice : slice (bitsOf (p.data.drop 3)) 0 12 = toBits 12 type := by
    rw [← hnumber, payload, ← take_bitsOf]
    exact (take_slice (l := bitsOf (p.data.drop 3)) (i := 0) hlen).symm
  rw [rtcmGetType, if_pos hstate, getbits_eq (by rw [List.length_drop]; omega) (by decide), hslice,
    ofBits_toBits, Nat.mod_eq_of_lt htype]
  simp only [Option.map_some, BitVec.toNat_setWidth, BitVec.toNat_ofNat, Option.some.injEq]
  omega

/-- The masks, as `count_set` counts them. -/
theorem countSet_getbits (d : List Byte) (beg len : ℕ) (hd : beg + len ≤ 8 * d.length)
    (hlen : len ≤ 64) :
    ∃ mask, getbits d beg len = some mask ∧
      countSet mask = some (popcount (slice (bitsOf d) beg len)) := by
  have hl : (slice (bitsOf d) beg len).length = len := length_slice (by rwa [length_bitsOf])
  have hlt := ofBits_lt (slice (bitsOf d) beg len)
  have hbits := toBits_ofBits (slice (bitsOf d) beg len)
  rw [hl] at hlt hbits
  refine ⟨_, getbits_eq hd hlen, ?_⟩
  have hwide : toBits 64 (ofBits (slice (bitsOf d) beg len)) =
      List.replicate (64 - len) false ++ slice (bitsOf d) beg len := by
    rw [show 64 = 64 - len + len by omega, toBits_add, Nat.add_sub_cancel,
      Nat.shiftRight_eq_div_pow, Nat.div_eq_of_lt hlt, toBits_zero, hbits]
  rw [countSet_eq, BitVec.toNat_ofNat, toBits_mod (Nat.le_refl 64), hwide, List.count_append,
    List.count_replicate]
  simp

theorem length_payload (p : Packet) : (payload p.data).length = p.datalen - 6 := by
  rw [payload, List.length_take, List.length_drop, Packet.datalen]
  omega

/-- A packet whose bytes are a frame, with a right checksum, of an MSM7 message. -/
structure Msm7Frame (p : Packet) (type : ℕ) : Prop where
  state : p.rtcmState ≠ .raw
  frame : ValidFrame p.data
  isMsm7 : type ∈ msm7Types
  number : slice (bitsOf (payload p.data)) 0 12 = toBits 12 type

/-- The conversion of a packet of an MSM7 type, whatever its frame. -/
theorem rtcmConvertMsm7_of_type {p : Packet} {type : ℕ}
    (hget : (rtcmGetType p).map (·.toNat) = some type)
    (htypes : 1077 ≤ type ∧ type ≤ 1127 ∧ type % 10 = 7) (junk : ℕ → Byte) (msmVersion : ℕ) :
    rtcmConvertMsm7 junk p msmVersion =
      if Msm7Accepted (payload p.data) then
        (buildPacket junk (payload p.data) 4 type (nsat (bitsOf (payload p.data)))
          (nsig (bitsOf (payload p.data))) (ncell (bitsOf (payload p.data)))
          (msm4Len (bitsOf (payload p.data)))
          ((msm4Len (bitsOf (payload p.data)) + 7) / 8)).map some
      else some none := by
  have hdata : (p.data.drop 3).take (p.datalen - 6) = payload p.data := rfl
  have hlen := length_payload p
  simp only [rtcmConvertMsm7, hget, hdata, Option.bind_eq_bind, Option.bind_some]
  simp only [← hlen]
  generalize payload p.data = data
  by_cases hshort : data.length < 22
  · rw [if_pos (by omega), if_neg fun ha => by have := ha.1; omega]
    rfl
  rw [if_neg (by omega)]
  obtain ⟨df394, hget₁, hcount₁⟩ := countSet_getbits data 73 64 (by omega)
    (by decide)
  obtain ⟨df395, hget₂, hcount₂⟩ := countSet_getbits data 137 32 (by omega)
    (by decide)
  rw [show popcount (slice (bitsOf data) 73 64) = nsat (bitsOf data) from rfl] at hcount₁
  rw [show popcount (slice (bitsOf data) 137 32) = nsig (bitsOf data) from rfl] at hcount₂
  simp only [hget₁, hcount₁, hget₂, hcount₂, Option.bind_some, guard_true, if_true]
  by_cases hcells : nsat (bitsOf data) * nsig (bitsOf data) > 64
  · rw [if_pos hcells, if_neg fun ha => by have := ha.2.1; omega]
    rfl
  rw [if_neg hcells]
  have hsat : satPos (bitsOf data) = 169 + nsat (bitsOf data) * nsig (bitsOf data) := rfl
  have hsig : sigPos (bitsOf data) =
      satPos (bitsOf data) + (8 + 4 + 10 + 14) * nsat (bitsOf data) := rfl
  by_cases hend : 169 + nsat (bitsOf data) * nsig (bitsOf data) > data.length * 8
  · refine (if_pos hend).trans ?_
    rw [if_neg fun ha => by have := ha.2.2.1; omega]
    rfl
  refine (if_neg hend).trans ?_
  obtain ⟨df396, hget₃, hcount₃⟩ := countSet_getbits data 169
    (nsat (bitsOf data) * nsig (bitsOf data)) (by omega) (by omega)
  rw [show popcount (slice (bitsOf data) 169 (nsat (bitsOf data) * nsig (bitsOf data))) =
    ncell (bitsOf data) from rfl] at hcount₃
  simp only [hget₃, hcount₃, Option.bind_some]
  by_cases hendpos : sigPos (bitsOf data) + (20 + 24 + 10 + 1 + 10 + 15) * ncell (bitsOf data) >
      data.length * 8
  · refine (if_pos hendpos).trans ?_
    rw [if_neg fun ha => by have := ha.2.2.1; omega]
    rfl
  refine (if_neg hendpos).trans ?_
  by_cases hlong : (msm4Len (bitsOf data) + 7) / 8 > 1023
  · refine (if_pos hlong).trans ?_
    rw [if_neg fun ha => by have := ha.2.2.2; omega]
    rfl
  refine (if_neg hlong).trans ?_
  rw [if_pos ⟨by omega, by omega, by omega, by omega⟩, Option.map_eq_bind]
  rfl

theorem rtcmConvertMsm7_eq {p : Packet} {type : ℕ} (h : Msm7Frame p type) (junk : ℕ → Byte)
    (msmVersion : ℕ) :
    rtcmConvertMsm7 junk p msmVersion =
      if Msm7Accepted (payload p.data) then
        (buildPacket junk (payload p.data) 4 type (nsat (bitsOf (payload p.data)))
          (nsig (bitsOf (payload p.data))) (ncell (bitsOf (payload p.data)))
          (msm4Len (bitsOf (payload p.data)))
          ((msm4Len (bitsOf (payload p.data)) + 7) / 8)).map some
      else some none := by
  have htypes : 1077 ≤ type ∧ type ≤ 1127 ∧ type % 10 = 7 := by
    have htype := h.isMsm7
    simp only [msm7Types, List.mem_cons, List.not_mem_nil, or_false] at htype
    omega
  exact rtcmConvertMsm7_of_type (rtcmGetType_eq h.state (by omega) h.number) htypes junk msmVersion

/-- The conversion stays inside a packet that is long enough to have a type. -/
theorem exists_rtcmConvertMsm7 {p : Packet} (htype : (rtcmGetType p).isSome) (junk : ℕ → Byte)
    (msmVersion : ℕ) : ∃ r, rtcmConvertMsm7 junk p msmVersion = some r := by
  obtain ⟨type, htype⟩ := Option.isSome_iff_exists.mp htype
  have hget : (rtcmGetType p).map (·.toNat) = some type.toNat := by rw [htype]; rfl
  by_cases htypes : 1077 ≤ type.toNat ∧ type.toNat ≤ 1127 ∧ type.toNat % 10 = 7
  · rw [rtcmConvertMsm7_of_type hget htypes]
    split
    · next ha =>
      obtain ⟨q, hq, -⟩ := buildPacket_eq type.toNat junk ha.2.2.1 ha.2.2.2
      exact ⟨some q, by rw [hq]; rfl⟩
    · exact ⟨none, rfl⟩
  · refine ⟨none, ?_⟩
    simp only [rtcmConvertMsm7, hget, Option.bind_eq_bind, Option.bind_some]
    rw [if_pos (by omega)]
    rfl

/-- **Conversion of MSM7 to MSM4.** On a valid frame of an MSM7 type, the conversion reads and
writes only where it may and its assertions hold. It refuses exactly the payloads that are too
short, have too many cells, do not hold what they declare or would give too long a message.
Otherwise the result is the same whatever the new packet held before, and it is a frame, with the
right length and checksum, of the MSM4 message with the number, header, masks and fields
prescribed and zero padding. -/
theorem rtcmConvertMsm7_exact {p : Packet} {type : ℕ} (h : Msm7Frame p type) :
    (¬ Msm7Accepted (payload p.data) ∧ ∀ junk, rtcmConvertMsm7 junk p 4 = some none) ∨
    (Msm7Accepted (payload p.data) ∧ ∃ q, (∀ junk, rtcmConvertMsm7 junk p 4 = some (some q)) ∧
      bitsOf q.data = frameBits (msm4Payload (type - 3) (bitsOf (payload p.data)))) := by
  have hbuild := fun ha : Msm7Accepted (payload p.data) => fun junk =>
    buildPacket_eq type junk ha.2.2.1 ha.2.2.2
  by_cases ha : Msm7Accepted (payload p.data)
  · obtain ⟨q, hq, hraw, hbits⟩ := hbuild ha fun _ => 0
    refine .inr ⟨ha, q, fun junk => ?_, ?_⟩
    · obtain ⟨q', hq', hraw', hbits'⟩ := hbuild ha junk
      have hdata : q'.data = q.data := bitsOf_injective (hbits'.trans hbits.symm)
      have hsame : q' = q := by
        cases q; cases q'; simp_all
      rw [rtcmConvertMsm7_eq h, if_pos ha, hq', hsame]
      rfl
    · have hge : 7 ≤ type := by
        have htype := h.isMsm7
        simp only [msm7Types, List.mem_cons, List.not_mem_nil, or_false] at htype
        omega
      rw [hbits, show type - 7 + 4 = type - 3 by omega]
  · refine .inl ⟨ha, fun junk => ?_⟩
    rw [rtcmConvertMsm7_eq h, if_neg ha]

/-- An MSM7 message of GPS with one satellite, one signal and one cell. -/
def oneCellMsm7 : Packet :=
  ⟨.rtcmChecked,
    [0xd3, 0x00, 0x24, 0x43, 0x50, 0x01, 0x00, 0x00, 0x0f, 0xa0, 0x00, 0x00, 0x40, 0x00,
      0x00, 0x00, 0x00, 0x00, 0x00, 0x00, 0x40, 0x00, 0x00, 0x00, 0x51, 0x81, 0xf4, 0x00,
      0x00, 0x00, 0xfa, 0x3f, 0xfe, 0x0c, 0x12, 0xcd, 0x00, 0x00, 0x00, 0xde, 0xd5, 0xc3]⟩

theorem oneCellMsm7_frame : Msm7Frame oneCellMsm7 1077 where
  state := by decide
  frame := ⟨⟨_, _, _, rfl, by decide⟩, by decide +kernel⟩
  isMsm7 := by decide
  number := by decide +kernel

theorem rtcmConvertMsm7_oneCell :
    ∃ q, (∀ junk, rtcmConvertMsm7 junk oneCellMsm7 4 = some (some q)) ∧
      bitsOf q.data = frameBits (msm4Payload 1074 (bitsOf (payload oneCellMsm7.data))) := by
  rcases rtcmConvertMsm7_exact oneCellMsm7_frame with h | h
  · exact absurd (by decide +kernel) h.1
  · exact h.2

end Rtcm

end ChilopodCaster
