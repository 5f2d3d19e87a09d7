import ChilopodCaster.Lib.CrcPoly
import ChilopodCaster.Rtcm.Crc

/-!
# What the RTCM checksum finds

CRC24Q is division by the polynomial `0x1864CFB`. A frame passes the check when it is a multiple of
this polynomial as a whole, the three bytes at its end included. Bits that are flipped in a stretch
of 24, wherever it lies in the frame, are found out.

## Main results

* `rtcmCrcCheck_iff` — the frames that pass are the multiples of the polynomial
* `crc24q_finds_bursts` — the hash is a remainder, and the check finds every short burst
-/

namespace ChilopodCaster

namespace Rtcm

open Bits Bitfield Crc Polynomial

theorem generator_crc24qPoly : generator crc24qPoly = toPoly 0x1864cfb := rfl

/-- The bytes at the end of a frame, as a number. -/
theorem toNat_packetCrc {data : List Byte} (h : 3 ≤ data.length) :
    (packetCrc data).toNat = ofBits (bitsOf (data.drop (data.length - 3))) := by
  have hlength : (data.drop (data.length - 3)).length = 3 := by
    rw [List.length_drop]
    omega
  obtain ⟨b₂, b₁, b₀, hdata⟩ := List.length_eq_three.mp hlength
  have hbyte (b : Byte) : ofBits (toBits 8 b.toNat) = b.toNat := by
    rw [ofBits_toBits, Nat.mod_eq_of_lt b.isLt]
  rw [packetCrc, hdata]
  simp only [bitsOf_cons, bitsOf_nil, List.append_nil, ofBits_append, length_toBits, hbyte,
    List.length_append, BitVec.toNat_add, BitVec.toNat_shiftLeft, BitVec.toNat_setWidth,
    Nat.shiftLeft_eq]
  have h₂ := b₂.isLt
  have h₁ := b₁.isLt
  have h₀ := b₀.isLt
  omega

/-- **The frames that pass the check** are the multiples of the polynomial. -/
theorem rtcmCrcCheck_iff (data : List Byte) :
    (rtcmCrcCheck ⟨.rtcmUnchecked, data⟩).1 = true ↔
      4 ≤ data.length ∧ toPoly 0x1864cfb ∣ toPoly (ofBits (bitsOf data)) := by
  have hunchecked : PacketState.rtcmUnchecked ≠ .rtcmChecked := by decide
  have hdatalen : (⟨.rtcmUnchecked, data⟩ : Packet).datalen = data.length := rfl
  rw [rtcmCrcCheck, if_neg hunchecked, hdatalen]
  by_cases hshort : data.length < 4
  · rw [if_pos hshort]
    exact ⟨fun h => absurd h Bool.false_ne_true, fun h => absurd h.1 (Nat.not_le.mpr hshort)⟩
  · have hlast : (bitsOf (data.drop (data.length - 3))).length = 24 := by
      rw [length_bitsOf, List.length_drop]
      omega
    have hbits : bitsOf data =
        bitsOf (data.take (data.length - 3)) ++ bitsOf (data.drop (data.length - 3)) := by
      rw [← bitsOf_append, List.take_append_drop]
    have hhash : rtcmCrc24qHash (data.take (data.length - 3)) = packetCrc data ↔
        toPoly 0x1864cfb ∣ toPoly (ofBits (bitsOf data)) := by
      rw [hbits, ← generator_crc24qPoly, generator_dvd_iff crc24qPoly hlast,
        ← toNat_packetCrc (by omega), rtcmCrc24qHash_eq, ← BitVec.toNat_inj, BitVec.toNat_setWidth,
        Nat.mod_eq_of_lt ((Crc.ofBits crc24qPoly _).isLt.trans (by decide))]
    rw [if_neg hshort, ← hhash]
    dsimp only
    split
    · next hne => exact ⟨fun h => absurd h Bool.false_ne_true, fun h => absurd h.2 hne⟩
    · next heq => exact ⟨fun _ => ⟨Nat.le_of_not_lt hshort, not_not.mp heq⟩, fun _ => rfl⟩

/-- **The checksum is CRC24Q.** The hash of a string of bytes is the remainder of its bits, with 24
zeros behind them, by the polynomial. A frame that passes the check does not pass it any more when
bits in a stretch of at most 24 are flipped. -/
theorem crc24q_finds_bursts :
    (∀ data : List Byte, toPoly (rtcmCrc24qHash data).toNat =
      toPoly (ofBits (bitsOf data)) * X ^ 24 %ₘ toPoly 0x1864cfb) ∧
    ∀ data data' : List Byte, (rtcmCrcCheck ⟨.rtcmUnchecked, data⟩).1 = true →
      data'.length = data.length → data' ≠ data → DifferWithin 24 (bitsOf data) (bitsOf data') →
      (rtcmCrcCheck ⟨.rtcmUnchecked, data'⟩).1 = false := by
  refine ⟨fun data => ?_, fun data data' hdata hlength hne hwithin => ?_⟩
  · rw [rtcmCrc24qHash_eq, BitVec.toNat_setWidth,
      Nat.mod_eq_of_lt ((Crc.ofBits crc24qPoly _).isLt.trans (by decide)), toPoly_ofBits,
      generator_crc24qPoly]
  · by_contra hpass
    rw [Bool.not_eq_false] at hpass
    have hodd : crc24qPoly.getLsbD 0 = true := by decide
    have hdvd := ((rtcmCrcCheck_iff data).mp hdata).2
    have hdvd' := ((rtcmCrcCheck_iff data').mp hpass).2
    rw [← generator_crc24qPoly] at hdvd hdvd'
    have hbits : (bitsOf data).length = (bitsOf data').length := by
      rw [length_bitsOf, length_bitsOf, hlength]
    exact hne (bitsOf_injective (eq_of_generator_dvd hodd le_rfl hbits hwithin hdvd hdvd')).symm

theorem crc24q_finds_bursts_empty :
    (rtcmCrcCheck ⟨.rtcmUnchecked, emptyFrame⟩).1 = true ∧
      (rtcmCrcCheck ⟨.rtcmUnchecked, emptyFrame.set 2 0x5a⟩).1 = false := by
  have hpass : (rtcmCrcCheck ⟨.rtcmUnchecked, emptyFrame⟩).1 = true := by decide +kernel
  refine ⟨hpass, crc24q_finds_bursts.2 emptyFrame (emptyFrame.set 2 0x5a) hpass rfl (by decide)
    ⟨16, fun i hi => ?_⟩⟩
  have hchecked : ∀ i < 48, (bitsOf emptyFrame)[i]? ≠ (bitsOf (emptyFrame.set 2 0x5a))[i]? →
      16 ≤ i ∧ i < 16 + 24 := by decide +kernel
  refine hchecked i (by_contra fun hout => hi ?_) hi
  rw [List.getElem?_eq_none (Nat.le_of_not_lt hout),
    List.getElem?_eq_none (Nat.le_of_not_lt hout)]

end Rtcm

end ChilopodCaster
