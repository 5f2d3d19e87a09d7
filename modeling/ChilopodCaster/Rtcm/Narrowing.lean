import ChilopodCaster.Rtcm.Msm

/-!
# What the conversion to MSM4 does to the values

The fine pseudoranges, phase ranges and signal strengths of an MSM7 message are rounded to the
shorter fields of MSM4. A rounded value can be one more than the shorter field holds; nothing in
the source checks for that, and the value then wraps to the other end of the range.

The values of the output are those a receiver decodes, from the masks of the output itself.

## Main results

* `df400_eq`, `df401_eq`, `df403_eq` — the values decoded from the output, for every cell
* `narrowsExactly_iff` — the values are the nearest ones exactly when no value is in the band at the
  top of its range
-/

namespace ChilopodCaster

namespace Rtcm

open Bits Bitfield

/-! ### Values of a message -/

/-- The fine pseudorange of cell `k` of an MSM7 message. -/
def df405 (bits : List Bool) (k : ℕ) : ℤ := toInt (slice bits (sigPos bits + 20 * k) 20)

/-- The fine phase range of cell `k` of an MSM7 message. -/
def df406 (bits : List Bool) (k : ℕ) : ℤ :=
  toInt (slice bits (sigPos bits + 20 * ncell bits + 24 * k) 24)

/-- The signal strength of cell `k` of an MSM7 message. -/
def df408 (bits : List Bool) (k : ℕ) : ℤ :=
  ofBits (slice bits (sigPos bits + (20 + 24 + 10 + 1) * ncell bits + 10 * k) 10)

/-- Where the signal data starts in an MSM4 message: after DF397 and DF398. -/
def sigPosMsm4 (bits : List Bool) : ℕ := satPos bits + (8 + 10) * nsat bits

/-- The fine pseudorange of cell `k` of an MSM4 message. -/
def df400 (bits : List Bool) (k : ℕ) : ℤ := toInt (slice bits (sigPosMsm4 bits + 15 * k) 15)

/-- The fine phase range of cell `k` of an MSM4 message. -/
def df401 (bits : List Bool) (k : ℕ) : ℤ :=
  toInt (slice bits (sigPosMsm4 bits + 15 * ncell bits + 22 * k) 22)

/-- The signal strength of cell `k` of an MSM4 message. -/
def df403 (bits : List Bool) (k : ℕ) : ℤ :=
  ofBits (slice bits (sigPosMsm4 bits + (15 + 22 + 4 + 1) * ncell bits + 6 * k) 6)

/-- `y` is `x / 2 ^ s` rounded to a nearest integer, and to the nearest one between `lo` and `hi`
when that one is outside. -/
def Rounds (s : ℕ) (lo hi x y : ℤ) : Prop :=
  ∃ r, -2 ^ s ≤ 2 * (2 ^ s * r - x) ∧ 2 * (2 ^ s * r - x) ≤ 2 ^ s ∧ y = max lo (min hi r)

/-- The values of cell `k` of the output are those of the input, as near as the shorter fields
allow, and values marked invalid stay so. -/
structure NarrowsCell (bits out : List Bool) (k : ℕ) : Prop where
  pseudorange : Rounds 5 (-2 ^ 14) (2 ^ 14 - 1) (df405 bits k) (df400 out k)
  phaserange : Rounds 2 (-2 ^ 21) (2 ^ 21 - 1) (df406 bits k) (df401 out k)
  cnr : Rounds 4 0 63 (df408 bits k) (df403 out k)
  invalidPseudorange : df405 bits k = -2 ^ 19 → df400 out k = -2 ^ 14
  invalidPhaserange : df406 bits k = -2 ^ 23 → df401 out k = -2 ^ 21
  invalidCnr : df408 bits k = 0 → df403 out k = 0

/-! ### Finding the fields of the output -/

theorem slice_cellArray {bits : List Bool} {pos lenIn lenOut n k : ℕ} {f : List Bool → List Bool}
    (hf : ∀ l, (f l).length = lenOut) (hk : k < n) :
    slice (cellArray bits pos lenIn n f) (lenOut * k) lenOut =
      f (slice bits (pos + lenIn * k) lenIn) := by
  induction k generalizing pos n with
  | zero =>
    obtain ⟨n, rfl⟩ := Nat.exists_eq_succ_of_ne_zero (by omega : n ≠ 0)
    rw [cellArray_succ, Nat.mul_zero, slice_append_left (by rw [hf]; omega), slice, List.drop_zero,
      List.take_of_length_le (by rw [hf]), Nat.mul_zero, Nat.add_zero]
  | succ k ih =>
    obtain ⟨n, rfl⟩ := Nat.exists_eq_succ_of_ne_zero (by omega : n ≠ 0)
    rw [cellArray_succ, slice_append_right (i := lenOut * k) (by rw [hf, Nat.mul_succ]; omega),
      ih (by omega), Nat.mul_succ, Nat.add_assoc, Nat.add_comm lenIn]

section Output

variable {number : ℕ} {bits : List Bool}

/-- The part of the output before the signal data. -/
def msm4Head (number : ℕ) (bits : List Bool) : List Bool :=
  toBits 12 number ++ slice bits 12 (157 + nsat bits * nsig bits + nsat bits * 8) ++
    slice bits (satPos bits + (8 + 4) * nsat bits) (nsat bits * 10)

theorem msm4Payload_eq (number : ℕ) (bits : List Bool) :
    msm4Payload number bits = msm4Head number bits ++
      (cellArray bits (sigPos bits) 20 (ncell bits) (fun l => intBits 15 ((toInt l + 16) / 32)) ++
      (cellArray bits (sigPos bits + 20 * ncell bits) 24 (ncell bits)
        (fun l => intBits 22 ((toInt l + 2) / 4)) ++
      (cellArray bits (sigPos bits + (20 + 24) * ncell bits) 10 (ncell bits)
        (fun l => toBits 4 (rtcmDf407ToDf402 (ofBits l))) ++
      (slice bits (sigPos bits + (20 + 24 + 10) * ncell bits) (ncell bits) ++
      (cellArray bits (sigPos bits + (20 + 24 + 10 + 1) * ncell bits) 10 (ncell bits)
        (fun l => toBits 6 ((ofBits l + 8) / 16)) ++
      List.replicate ((8 - msm4Len bits % 8) % 8) false))))) := by
  simp only [msm4Payload, msm4Fields, msm4Head, List.append_assoc]

/-- The input holds the fields its masks declare. -/
def HoldsFields (bits : List Bool) : Prop := sigPos bits + 80 * ncell bits ≤ bits.length

theorem df405_bounds (h : HoldsFields bits) {k : ℕ} (hk : k < ncell bits) :
    -2 ^ 19 ≤ df405 bits k ∧ df405 bits k < 2 ^ 19 := by
  rw [HoldsFields] at h
  have hbounds := toInt_bounds (slice bits (sigPos bits + 20 * k) 20)
  rw [length_slice (by omega)] at hbounds
  rw [df405]
  omega

theorem df406_bounds (h : HoldsFields bits) {k : ℕ} (hk : k < ncell bits) :
    -2 ^ 23 ≤ df406 bits k ∧ df406 bits k < 2 ^ 23 := by
  rw [HoldsFields] at h
  have hbounds := toInt_bounds (slice bits (sigPos bits + 20 * ncell bits + 24 * k) 24)
  rw [length_slice (by omega)] at hbounds
  rw [df406]
  omega

theorem df408_bounds (h : HoldsFields bits) {k : ℕ} (hk : k < ncell bits) :
    0 ≤ df408 bits k ∧ df408 bits k < 1024 := by
  rw [HoldsFields] at h
  have hlt := ofBits_lt (slice bits (sigPos bits + (20 + 24 + 10 + 1) * ncell bits + 10 * k) 10)
  rw [length_slice (by omega)] at hlt
  rw [df408]
  omega

theorem length_msm4Head (h : HoldsFields bits) :
    (msm4Head number bits).length = satPos bits + (8 + 10) * nsat bits := by
  rw [HoldsFields, sigPos, satPos] at h
  rw [msm4Head, List.length_append, List.length_append, length_toBits, length_slice (by omega),
    length_slice (by rw [satPos]; omega), satPos]
  omega

/-- The header, the masks and DF397 are copied. -/
theorem slice_msm4Payload (h : HoldsFields bits) {i n : ℕ} (hi : 12 ≤ i)
    (hn : i + n ≤ 169 + nsat bits * nsig bits) :
    slice (msm4Payload number bits) i n = slice bits i n := by
  rw [HoldsFields, sigPos, satPos] at h
  have hlen : (slice bits 12 (157 + nsat bits * nsig bits + nsat bits * 8)).length =
      157 + nsat bits * nsig bits + nsat bits * 8 := length_slice (by omega)
  rw [msm4Payload_eq, msm4Head, List.append_assoc, List.append_assoc,
    slice_append_right (i := i - 12) (by rw [length_toBits]; omega),
    slice_append_left (by rw [hlen]; omega), slice_slice (by omega), Nat.add_sub_cancel' hi]

theorem nsat_msm4Payload (h : HoldsFields bits) : nsat (msm4Payload number bits) = nsat bits := by
  rw [nsat, nsat, slice_msm4Payload h (by decide) (by omega)]

theorem nsig_msm4Payload (h : HoldsFields bits) : nsig (msm4Payload number bits) = nsig bits := by
  rw [nsig, nsig, slice_msm4Payload h (by decide) (by omega)]

theorem ncell_msm4Payload (h : HoldsFields bits) :
    ncell (msm4Payload number bits) = ncell bits := by
  rw [ncell, ncell, nsat_msm4Payload h, nsig_msm4Payload h,
    slice_msm4Payload h (by decide) (Nat.le_refl _)]

theorem sigPosMsm4_msm4Payload (h : HoldsFields bits) :
    sigPosMsm4 (msm4Payload number bits) = (msm4Head number bits).length := by
  rw [length_msm4Head h, sigPosMsm4, satPos, satPos, nsat_msm4Payload h, nsig_msm4Payload h]

/-- The pseudorange decoded from the output. -/
theorem df400_eq (number : ℕ) (h : HoldsFields bits) {k : ℕ} (hk : k < ncell bits) :
    df400 (msm4Payload number bits) k = toInt (intBits 15 ((df405 bits k + 16) / 32)) := by
  rw [df400, sigPosMsm4_msm4Payload h, msm4Payload_eq, slice_append_right rfl,
    slice_append_left (by rw [length_cellArray fun _ => length_intBits ..]; omega),
    slice_cellArray (fun _ => length_intBits ..) hk, df405]

/-- The phase range decoded from the output. -/
theorem df401_eq (number : ℕ) (h : HoldsFields bits) {k : ℕ} (hk : k < ncell bits) :
    df401 (msm4Payload number bits) k = toInt (intBits 22 ((df406 bits k + 2) / 4)) := by
  rw [df401, sigPosMsm4_msm4Payload h, ncell_msm4Payload h, msm4Payload_eq,
    slice_append_right (Nat.add_assoc ..),
    slice_append_right (by rw [length_cellArray fun _ => length_intBits ..]),
    slice_append_left (by rw [length_cellArray fun _ => length_intBits ..]; omega),
    slice_cellArray (fun _ => length_intBits ..) hk, df406]

/-- The signal strength decoded from the output. -/
theorem df403_eq (number : ℕ) (h : HoldsFields bits) {k : ℕ} (hk : k < ncell bits) :
    df403 (msm4Payload number bits) k = (df408 bits k + 8) / 16 % 64 := by
  have hhalf : (slice bits (sigPos bits + (20 + 24 + 10) * ncell bits) (ncell bits)).length =
      ncell bits := length_slice (by rw [HoldsFields] at h; omega)
  rw [df403, sigPosMsm4_msm4Payload h, ncell_msm4Payload h, msm4Payload_eq,
    slice_append_right (Nat.add_assoc ..),
    slice_append_right (i := (22 + 4 + 1) * ncell bits + 6 * k)
      (by rw [length_cellArray fun _ => length_intBits ..]; omega),
    slice_append_right (i := (4 + 1) * ncell bits + 6 * k)
      (by rw [length_cellArray fun _ => length_intBits ..]; omega),
    slice_append_right (i := ncell bits + 6 * k)
      (by rw [length_cellArray fun _ => length_toBits ..]; omega),
    slice_append_right (by rw [hhalf]),
    slice_append_left (by rw [length_cellArray fun _ => length_toBits ..]; omega),
    slice_cellArray (fun _ => length_toBits ..) hk, ofBits_toBits, df408]
  push_cast
  rfl

end Output

/-! ### When the values are the nearest ones -/

theorem rounds_df400 {x y : ℤ} (hlo : -2 ^ 19 ≤ x) (hhi : x < 2 ^ 19)
    (hy : y = toInt (intBits 15 ((x + 16) / 32))) :
    Rounds 5 (-2 ^ 14) (2 ^ 14 - 1) x y ↔ x < 2 ^ 19 - 16 := by
  rw [toInt_intBits] at hy
  constructor
  · rintro ⟨r, h1, h2, hr⟩
    omega
  · intro hx
    exact ⟨(x + 16) / 32, by omega, by omega, by omega⟩

theorem rounds_df401 {x y : ℤ} (hlo : -2 ^ 23 ≤ x) (hhi : x < 2 ^ 23)
    (hy : y = toInt (intBits 22 ((x + 2) / 4))) :
    Rounds 2 (-2 ^ 21) (2 ^ 21 - 1) x y ↔ x < 2 ^ 23 - 2 := by
  rw [toInt_intBits] at hy
  constructor
  · rintro ⟨r, h1, h2, hr⟩
    omega
  · intro hx
    exact ⟨(x + 2) / 4, by omega, by omega, by omega⟩

theorem rounds_df403 {x y : ℤ} (hlo : 0 ≤ x) (hhi : x < 1024) (hy : y = (x + 8) / 16 % 64) :
    Rounds 4 0 63 x y ↔ x < 1016 := by
  constructor
  · rintro ⟨r, h1, h2, hr⟩
    omega
  · intro hx
    exact ⟨(x + 8) / 16, by omega, by omega, by omega⟩

theorem bitsOf_payload {data : List Byte} {bits : List Bool} (h : bitsOf data = frameBits bits) :
    bitsOf (payload data) = bits := by
  have hlen := congrArg List.length h
  simp only [frameBits, List.length_append, length_bitsOf, length_toBits] at hlen
  rw [payload, bitsOf_slice, h, frameBits, List.append_assoc,
    slice_append_right (i := 0) (by simp), slice_append_left (by omega), slice, List.drop_zero,
    List.take_of_length_le (by omega)]

/-- The values of every cell of the output are those of the input, as near as the shorter fields
allow. -/
def NarrowsExactly (bits out : List Bool) : Prop := ∀ k < ncell bits, NarrowsCell bits out k

/-- A cell whose values stay in their fields when they are rounded. -/
def FitsRounded (bits : List Bool) (k : ℕ) : Prop :=
  df405 bits k < 2 ^ 19 - 16 ∧ df406 bits k < 2 ^ 23 - 2 ∧ df408 bits k < 1016

instance (bits : List Bool) : DecidablePred (FitsRounded bits) := fun _ =>
  inferInstanceAs (Decidable (_ ∧ _ ∧ _))

theorem narrowsCell_iff {number : ℕ} {bits : List Bool} (h : HoldsFields bits) {k : ℕ}
    (hk : k < ncell bits) :
    NarrowsCell bits (msm4Payload number bits) k ↔ FitsRounded bits k := by
  obtain ⟨hlo405, hhi405⟩ := df405_bounds h hk
  obtain ⟨hlo406, hhi406⟩ := df406_bounds h hk
  obtain ⟨hlo408, hhi408⟩ := df408_bounds h hk
  have e400 := df400_eq number h hk
  have e401 := df401_eq number h hk
  have e403 := df403_eq number h hk
  have h400 := rounds_df400 hlo405 hhi405 e400
  have h401 := rounds_df401 hlo406 hhi406 e401
  have h403 := rounds_df403 hlo408 hhi408 e403
  constructor
  · exact fun hc => ⟨h400.mp hc.pseudorange, h401.mp hc.phaserange, h403.mp hc.cnr⟩
  · rintro ⟨h1, h2, h3⟩
    refine ⟨h400.mpr h1, h401.mpr h2, h403.mpr h3, fun hi => ?_, fun hi => ?_, fun hi => ?_⟩
    · rw [e400, hi]
      decide
    · rw [e401, hi]
      decide
    · rw [e403, hi]
      rfl

/-- The conversion of an acceptable frame, and what a receiver finds in it. -/
theorem exists_converted {p : Packet} {type : ℕ} (h : Msm7Frame p type) (junk : ℕ → Byte)
    (ha : Msm7Accepted (payload p.data)) :
    ∃ q, rtcmConvertMsm7 junk p 4 = some (some q) ∧ HoldsFields (bitsOf (payload p.data)) ∧
      bitsOf (payload q.data) = msm4Payload (type - 7 + 4) (bitsOf (payload p.data)) := by
  obtain ⟨q, hq, -, hbits⟩ := buildPacket_eq type junk ha.2.2.1 ha.2.2.2
  refine ⟨q, by rw [rtcmConvertMsm7_eq h, if_pos ha, hq]; rfl, ?_, bitsOf_payload hbits⟩
  rw [HoldsFields, length_bitsOf]
  exact ha.2.2.1

/-- **When the values stay as near as they can.** For every valid MSM7 frame that is converted, the
values decoded from the output are the nearest ones, invalid markers included, exactly when no cell
has a pseudorange, a phase range or a signal strength in the band at the top of its range. -/
theorem narrowsExactly_iff {p q : Packet} {type : ℕ} {junk : ℕ → Byte} (h : Msm7Frame p type)
    (hq : rtcmConvertMsm7 junk p 4 = some (some q)) :
    NarrowsExactly (bitsOf (payload p.data)) (bitsOf (payload q.data)) ↔
      ∀ k < ncell (bitsOf (payload p.data)), FitsRounded (bitsOf (payload p.data)) k := by
  by_cases ha : Msm7Accepted (payload p.data)
  · obtain ⟨q', hq', hholds, hbits⟩ := exists_converted h junk ha
    obtain rfl : q' = q := by simpa [hq'] using hq
    rw [hbits]
    exact forall₂_congr fun k hk => narrowsCell_iff hholds hk
  · rw [rtcmConvertMsm7_eq h, if_neg ha] at hq
    simp at hq

theorem narrowsExactly_oneCell :
    ∃ q, rtcmConvertMsm7 (fun _ => 0) oneCellMsm7 4 = some (some q) ∧
      NarrowsExactly (bitsOf (payload oneCellMsm7.data)) (bitsOf (payload q.data)) := by
  obtain ⟨q, hq, -⟩ := exists_converted oneCellMsm7_frame (fun _ => 0) (by decide +kernel)
  exact ⟨q, hq, (narrowsExactly_iff oneCellMsm7_frame hq).mpr (by decide +kernel)⟩

/-- A message like `oneCellMsm7` with a pseudorange of 524272. -/
def topBandMsm7 : Packet :=
  ⟨.rtcmChecked,
    [0xd3, 0x00, 0x24, 0x43, 0x50, 0x01, 0x00, 0x00, 0x0f, 0xa0, 0x00, 0x00, 0x40, 0x00,
      0x00, 0x00, 0x00, 0x00, 0x00, 0x00, 0x40, 0x00, 0x00, 0x00, 0x51, 0x81, 0xf4, 0x00,
      0x01, 0xff, 0xfc, 0x3f, 0xfe, 0x0c, 0x12, 0xcd, 0x00, 0x00, 0x00, 0x9b, 0xc5, 0x6e]⟩

theorem topBandMsm7_frame : Msm7Frame topBandMsm7 1077 where
  state := by decide
  frame := ⟨⟨_, _, _, rfl, by decide⟩, by decide +kernel⟩
  isMsm7 := by decide
  number := by decide +kernel

/-- A pseudorange at the top of its range comes out at the bottom of the shorter one, the value that
marks it invalid. -/
theorem topBand_not_narrowsExactly :
    Msm7Frame topBandMsm7 1077 ∧ df405 (bitsOf (payload topBandMsm7.data)) 0 = 524272 ∧
      ∃ q, rtcmConvertMsm7 (fun _ => 0) topBandMsm7 4 = some (some q) ∧
        df400 (bitsOf (payload q.data)) 0 = -16384 ∧
        ¬ NarrowsExactly (bitsOf (payload topBandMsm7.data)) (bitsOf (payload q.data)) := by
  have hvalue : df405 (bitsOf (payload topBandMsm7.data)) 0 = 524272 := by decide +kernel
  have hcell : 0 < ncell (bitsOf (payload topBandMsm7.data)) := by decide +kernel
  obtain ⟨q, hq, hholds, hbits⟩ := exists_converted topBandMsm7_frame (fun _ => 0)
    (by decide +kernel)
  refine ⟨topBandMsm7_frame, hvalue, q, hq, ?_, fun hall => ?_⟩
  · rw [hbits, df400_eq _ hholds hcell, hvalue]
    decide
  · rw [hbits] at hall
    have hfits := ((narrowsCell_iff hholds hcell).mp (hall 0 hcell)).1
    rw [hvalue] at hfits
    exact absurd hfits (by decide)

end Rtcm

end ChilopodCaster
