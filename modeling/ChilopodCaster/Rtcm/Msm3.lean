import ChilopodCaster.Rtcm.Msm

/-!
# Conversion to MSM3

A filter can ask for MSM3 as well as for MSM4. `rtcm_convert_msm7` has the branches for both, and a
parameter that says which one is asked for, but a local variable that is 4 decides.

## Main definitions

* `msm3Payload` — the MSM3 message that stands for an MSM7 message
* `IsMsm3` — the frame of that message

## Main results

* `length_msm3Payload` — its length
* `not_isMsm3_rtcmConvertMsm7` — asked for MSM3, the conversion gives MSM4
-/

namespace ChilopodCaster

open Bits Bitfield

namespace Rtcm

/-- The fields of the MSM3 message of number `number` that stands for an MSM7 message. -/
def msm3Fields (number : ℕ) (bits : List Bool) : List Bool :=
  -- message number, then the header and the masks
  toBits 12 number ++
  slice bits 12 (157 + nsat bits * nsig bits) ++
  -- DF398
  slice bits (satPos bits + (8 + 4) * nsat bits) (nsat bits * 10) ++
  -- DF400, DF401, DF402
  cellArray bits (sigPos bits) 20 (ncell bits) (fun l => intBits 15 ((toInt l + 16) / 32)) ++
  cellArray bits (sigPos bits + 20 * ncell bits) 24 (ncell bits)
    (fun l => intBits 22 ((toInt l + 2) / 4)) ++
  cellArray bits (sigPos bits + (20 + 24) * ncell bits) 10 (ncell bits)
    (fun l => toBits 4 (rtcmDf407ToDf402 (ofBits l))) ++
  -- half-cycle ambiguity indicators
  slice bits (sigPos bits + (20 + 24 + 10) * ncell bits) (ncell bits)

/-- The number of bits of these fields. -/
def msm3Len (bits : List Bool) : ℕ :=
  169 + (10 + nsig bits) * nsat bits + (15 + 22 + 4 + 1) * ncell bits

/-- The payload of the MSM3 message: its fields, and zero bits up to a whole number of bytes. -/
def msm3Payload (number : ℕ) (bits : List Bool) : List Bool :=
  msm3Fields number bits ++ List.replicate ((8 - msm3Len bits % 8) % 8) false

/-- A packet is the frame, with the right length and checksum, of the MSM3 message that stands for
an MSM7 message of a type. -/
def IsMsm3 (type : ℕ) (bits : List Bool) (q : Packet) : Prop :=
  bitsOf q.data = frameBits (msm3Payload (type - 4) bits)

theorem length_msm3Fields {bits : List Bool} (number : ℕ)
    (h : sigPos bits + 80 * ncell bits ≤ bits.length) :
    (msm3Fields number bits).length = msm3Len bits := by
  unfold msm3Fields msm3Len sigPos satPos at *
  generalize ncell bits = nc at *
  generalize nsig bits = ng at *
  generalize nsat bits = ns at *
  have hmul : (10 + ng) * ns = 10 * ns + ns * ng := by ring
  rw [hmul, List.length_append, List.length_append, List.length_append, List.length_append,
    List.length_append, List.length_append, length_toBits, length_slice (by omega),
    length_slice (by omega), length_slice (by omega),
    length_cellArray fun l => length_intBits 15 ((toInt l + 16) / 32),
    length_cellArray fun l => length_intBits 22 ((toInt l + 2) / 4),
    length_cellArray fun l => length_toBits 4 (rtcmDf407ToDf402 (ofBits l))]
  omega

/-- **The length of an MSM3 payload**, in whole bytes. -/
theorem length_msm3Payload {bits : List Bool} (number : ℕ)
    (h : sigPos bits + 80 * ncell bits ≤ bits.length) :
    (msm3Payload number bits).length =
      8 * ((169 + (10 + nsig bits) * nsat bits + 42 * ncell bits + 7) / 8) := by
  rw [msm3Payload, List.length_append, length_msm3Fields number h, List.length_replicate, msm3Len]
  omega

/-! ### The message number -/

/-- The message number of a frame is what its payload begins with. -/
theorem number_frameBits (number : ℕ) (rest : List Bool) :
    slice (frameBits (toBits 12 number ++ rest)) 24 12 = toBits 12 number := by
  rw [frameBits, List.append_assoc, slice_append_right (i := 0) (by simp), List.append_assoc, slice,
    List.drop_zero]
  exact List.take_left' (length_toBits 12 number)

theorem exists_msm3Payload (number : ℕ) (bits : List Bool) :
    ∃ rest, msm3Payload number bits = toBits 12 number ++ rest := by
  simp only [msm3Payload, msm3Fields, List.append_assoc]
  exact ⟨_, rfl⟩

theorem exists_msm4Payload (number : ℕ) (bits : List Bool) :
    ∃ rest, msm4Payload number bits = toBits 12 number ++ rest := by
  simp only [msm4Payload, msm4Fields, List.append_assoc]
  exact ⟨_, rfl⟩

/-- The frame of an MSM4 message is not that of an MSM3 message. -/
theorem not_isMsm3_of_msm4 {type : ℕ} {bits bits' : List Bool} {q : Packet} (h : type ∈ msm7Types)
    (hq : bitsOf q.data = frameBits (msm4Payload (type - 7 + 4) bits')) :
    ¬IsMsm3 type bits q := by
  intro hmsm3
  obtain ⟨rest, hrest⟩ := exists_msm3Payload (type - 4) bits
  obtain ⟨rest', hrest'⟩ := exists_msm4Payload (type - 7 + 4) bits'
  have hnumber := number_frameBits (type - 4) rest
  rw [← hrest, ← hmsm3, hq, hrest', number_frameBits] at hnumber
  have hvalue := congrArg ofBits hnumber
  rw [ofBits_toBits, ofBits_toBits] at hvalue
  simp only [msm7Types, List.mem_cons, List.not_mem_nil, or_false] at h
  omega

/-! ### The conversion -/

/-- What the conversion gives, whatever the version asked for. -/
theorem msm4_of_rtcmConvertMsm7 {p q : Packet} {type : ℕ} (h : Msm7Frame p type)
    {junk : ℕ → Byte} {msmVersion : ℕ} (hq : rtcmConvertMsm7 junk p msmVersion = some (some q)) :
    bitsOf q.data = frameBits (msm4Payload (type - 7 + 4) (bitsOf (payload p.data))) := by
  rw [rtcmConvertMsm7_eq h] at hq
  split at hq
  · next ha =>
    obtain ⟨q', hbuild, -, hbits⟩ := buildPacket_eq type junk ha.2.2.1 ha.2.2.2
    rw [hbuild] at hq
    obtain rfl := Option.some.inj (Option.some.inj hq)
    exact hbits
  · exact absurd (Option.some.inj hq) (Option.some_ne_none q).symm

/-- **Asked for MSM3, the conversion gives MSM4.** No frame that it accepts is converted to
MSM3. -/
theorem not_isMsm3_rtcmConvertMsm7 {p q : Packet} {type : ℕ} (h : Msm7Frame p type)
    {junk : ℕ → Byte} (hq : rtcmConvertMsm7 junk p 3 = some (some q)) :
    ¬IsMsm3 type (bitsOf (payload p.data)) q :=
  not_isMsm3_of_msm4 h.isMsm7 (msm4_of_rtcmConvertMsm7 h hq)

/-- A frame that is accepted. -/
theorem exists_rtcmConvertMsm7_oneCell (junk : ℕ → Byte) :
    ∃ q, rtcmConvertMsm7 junk oneCellMsm7 3 = some (some q) := by
  have ha : Msm7Accepted (payload oneCellMsm7.data) := by decide +kernel
  obtain ⟨q, hbuild, -⟩ := buildPacket_eq 1077 junk ha.2.2.1 ha.2.2.2
  exact ⟨q, by rw [rtcmConvertMsm7_eq oneCellMsm7_frame, if_pos ha, hbuild]; rfl⟩

theorem not_isMsm3_rtcmConvertMsm7_oneCell :
    ∃ q, rtcmConvertMsm7 (fun _ => 0) oneCellMsm7 3 = some (some q) ∧
      ¬IsMsm3 1077 (bitsOf (payload oneCellMsm7.data)) q := by
  obtain ⟨q, hq⟩ := exists_rtcmConvertMsm7_oneCell fun _ => 0
  exact ⟨q, hq, not_isMsm3_rtcmConvertMsm7 oneCellMsm7_frame hq⟩

/-- The message of one cell becomes message 1074. -/
theorem not_msm3_oneCell :
    ¬ ∀ (p q : Packet) (type : ℕ) (junk : ℕ → Byte), Msm7Frame p type →
      rtcmConvertMsm7 junk p 3 = some (some q) → IsMsm3 type (bitsOf (payload p.data)) q := by
  intro hall
  obtain ⟨q, hq⟩ := exists_rtcmConvertMsm7_oneCell fun _ => 0
  exact not_isMsm3_of_msm4 oneCellMsm7_frame.isMsm7 (msm4_of_rtcmConvertMsm7 oneCellMsm7_frame hq)
    (hall oneCellMsm7 q 1077 _ oneCellMsm7_frame hq)

end Rtcm

end ChilopodCaster
