import ChilopodCaster.Rtcm.Framing
import ChilopodCaster.Rtcm.Msm

/-!
# Filters and position packets

A message of type 1005 or 1006 gives the position of the base that sends it. The last ones of each
base are kept in the cache of the caster, `struct rtcm_info`, so that a client that is moved to the
base can be sent its position at once. A filter passes some types of messages, converts others, and
drops the rest.

## Main definitions

* `rtcmPacketIsPos` — `rtcm_packet_is_pos`
* `Filter`, `rtcmFilterPass`, `rtcmFilterConvert` — `struct rtcm_filter` and what it does
* `Info`, `Info.posPacket` — the positions in `struct rtcm_info`

## Main results

* `Info.OnlyPositions` — the cache holds position packets, and is kept so by `rtcm_handler_pos`
-/

namespace ChilopodCaster

namespace Rtcm

/-- `getbit_atomic`. -/
def getbitAtomic {n : ℕ} (d : Vector Byte n) (beg : ℕ) (h : beg / 8 < n) : Bool :=
  d[beg / 8] &&& (1#8 <<< (beg % 8)) ≠ 0

theorem index1k_lt {type : ℕ} (h : 1000 ≤ type ∧ type ≤ 1230) : (type - 1000) / 8 < 29 := by omega

theorem index4k_lt {type : ℕ} (h : 4000 ≤ type ∧ type ≤ 4095) : (type - 4000) / 8 < 12 := by omega

/-- `rtcm_typeset_check`. -/
def Typeset.check (this : Typeset) (type : ℕ) : Bool :=
  if h : 1000 ≤ type ∧ type ≤ 1230 then getbitAtomic this.set1k (type - 1000) (index1k_lt h)
  else if h : 4000 ≤ type ∧ type ≤ 4095 then getbitAtomic this.set4k (type - 4000) (index4k_lt h)
  else false

/-! ### Filters -/

/-- `enum rtcm_conversion`. -/
inductive Conversion
  | msm7To3
  | msm7To4
  deriving DecidableEq, Repr

/-- `struct rtcm_filter`. -/
structure Filter where
  /-- the field `pass`: types to pass directly -/
  passes : Typeset
  /-- the field `convert`: types to convert -/
  converts : Typeset
  conversion : Conversion

/-- `rtcm_filter_pass`. Reading outside the packet is `none`. -/
def rtcmFilterPass (this : Filter) (packet : Packet) : Option Bool :=
  if packet.rtcmState = .raw then some false
  else (rtcmGetType packet).map fun type => this.passes.check type.toNat

/-- `rtcm_filter_convert`. -/
def rtcmFilterConvert (junk : ℕ → Byte) (this : Filter) (packet : Packet) :
    Option (Option Packet) := do
  if packet.rtcmState = .raw then return none
  let type ← rtcmGetType packet
  if !this.converts.check type.toNat then return none
  let (ok, packet) := rtcmCrcCheck packet
  if !ok then return none
  match this.conversion with
  | .msm7To4 => rtcmConvertMsm7 junk packet 4
  | .msm7To3 => rtcmConvertMsm7 junk packet 3

/-! ### Position packets -/

/-- `rtcm_packet_is_pos`. The type is read inside the packet, which is long enough. -/
def rtcmPacketIsPos (p : Packet) : Bool :=
  let len := p.datalen
  if p.rtcmState = .raw ∨ len < 25 then false
  else (rtcmGetType p).any fun type =>
    (rtcmCrcCheck p).1 && ((type = 1005 ∧ len = 25) ∨ (type = 1006 ∧ len = 27))

/-- The positions in `struct rtcm_info`, with the seconds of their dates. -/
structure Info where
  copy1005 : Option Packet
  copy1006 : Option Packet
  date1005 : ℕ
  date1006 : ℕ
  deriving Repr

/-- `rtcm_info_new`. -/
def Info.new : Info := ⟨none, none, 0, 0⟩

/-- `handle_1005_1006`, less the coordinates. -/
def Info.handle10051006 (rp : Info) (type : BitVec 16) (p : Packet) (now : ℕ) : Info :=
  if type = 1005 then { rp with copy1005 := some p, date1005 := now }
  else if type = 1006 then { rp with copy1006 := some p, date1006 := now }
  else rp

/-- `rtcm_info_pos_packet`. -/
def Info.posPacket (this : Info) : Option Packet :=
  match this.copy1006, this.copy1005 with
  | none, p => p
  | some p, none => some p
  | some p, some q => if this.date1006 < this.date1005 then some q else some p

/-- The copies are position packets. -/
structure Info.OnlyPositions (this : Info) : Prop where
  copy1005 : ∀ p ∈ this.copy1005, rtcmPacketIsPos p
  copy1006 : ∀ p ∈ this.copy1006, rtcmPacketIsPos p

theorem Info.onlyPositions_new : Info.new.OnlyPositions where
  copy1005 := by rintro p ⟨⟩
  copy1006 := by rintro p ⟨⟩

theorem Info.OnlyPositions.handle10051006 {rp : Info} (h : rp.OnlyPositions) {p : Packet}
    (hp : rtcmPacketIsPos p) (type : BitVec 16) (now : ℕ) :
    (rp.handle10051006 type p now).OnlyPositions := by
  rw [Info.handle10051006]
  split
  · refine ⟨?_, h.copy1006⟩
    rintro _ ⟨⟩
    exact hp
  · split
    · refine ⟨h.copy1005, ?_⟩
      rintro _ ⟨⟩
      exact hp
    · exact h

theorem Info.OnlyPositions.posPacket {rp : Info} (h : rp.OnlyPositions) {p : Packet}
    (hp : rp.posPacket = some p) : rtcmPacketIsPos p := by
  rw [Info.posPacket] at hp
  split at hp
  · exact h.copy1005 p hp
  · next q hcopy _ => exact h.copy1006 p (hcopy.trans hp)
  · next q q' hcopy hcopy' =>
    split at hp
    · exact h.copy1005 p (hcopy'.trans hp)
    · exact h.copy1006 p (hcopy.trans hp)

/-- `rtcm_handler` queues `rtcm_handler_pos` for position packets only. -/
theorem rtcmHandler_posJobs {st st' : Stream} {p : Packet} (hp : p.rtcmState ≠ .raw)
    (hposJobs : ∀ q ∈ st.posJobs, rtcmPacketIsPos q) (h : rtcmHandler st p = some st') :
    ∀ q ∈ st'.posJobs, rtcmPacketIsPos q := by
  rw [rtcmHandler] at h
  split at h
  · obtain rfl := Option.some.inj h
    exact hposJobs
  · obtain ⟨type, htype, h⟩ := Option.bind_eq_some_iff.mp h
    dsimp only at h
    split at h
    · next hpos =>
      obtain rfl := Option.some.inj h
      intro q hq
      rcases List.mem_append.mp hq with hq | hq
      · exact hposJobs q hq
      · obtain rfl := List.mem_singleton.mp hq
        have hlen : ¬ q.datalen < 25 := by
          rcases hpos.1 with hpos | hpos
          · rw [hpos.2]
            decide
          · rw [hpos.2]
            decide
        rw [rtcmPacketIsPos]
        simpa [hp, hlen, htype, hpos.2] using hpos.1
    · obtain rfl := Option.some.inj h
      exact hposJobs

end Rtcm

end ChilopodCaster
