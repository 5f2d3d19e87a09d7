import ChilopodCaster.Rtcm.Filter
import ChilopodCaster.Sourcetable
import Mathlib.Data.List.Induction

/-!
# Positions of the bases

A base sends its position in packets of type 1005 or 1006. `struct rtcm_info` keeps the last packet
of each type with the date it came at, and the coordinates of the last of both. A client that asks
for a position is sent the more recent of the two packets.

The dates are kept to the microsecond, but only their seconds are compared, and of two packets of
the same second the 1006 is taken.

## Main definitions

* `PosInfo` — the fields of `struct rtcm_info` for the position
* `Arrival` — a position packet, with the date at which it is handled

## Main results

* `getInt38_eq` — `get_int38` reads a number in two's complement
* `returnsLast_iff` — when the packet taken is the last one handled
-/

namespace ChilopodCaster

namespace Rtcm

open Bits Bitfield

/-! ### The functions -/

/-- `get_int38`. -/
def getInt38 (d : List Byte) (beg : ℕ) : Option (BitVec 64) := do
  let r ← getbits d beg 38
  return if r &&& (1 <<< 37) ≠ 0 then r ||| 0xffffffc000000000 else r

/-- The fields of `struct rtcm_info` for the position of the base. -/
structure PosInfo where
  x : BitVec 64
  y : BitVec 64
  z : BitVec 64
  copy1005 : Option Packet
  copy1006 : Option Packet
  date1005 : Timeval
  date1006 : Timeval
  posdate : Timeval

/-- `rtcm_info_new`. The coordinates and their date are left as they were in memory. -/
def PosInfo.new (x y z : BitVec 64) (posdate : Timeval) : PosInfo :=
  ⟨x, y, z, none, none, ⟨0, 0⟩, ⟨0, 0⟩, posdate⟩

/-- `handle_1005_1006`. `now` is the answer of `gettimeofday`. -/
def PosInfo.handle10051006 (rp : PosInfo) (type : BitVec 16) (p : Packet) (now : Timeval) :
    Option PosInfo := do
  let data := p.data.drop 3
  let ecefX ← getInt38 data 34
  let ecefY ← getInt38 data 74
  let ecefZ ← getInt38 data 114
  let rp :=
    if type = 1005 then { rp with posdate := now, date1005 := now, copy1005 := some p }
    else if type = 1006 then { rp with posdate := now, date1006 := now, copy1006 := some p }
    else rp
  return { rp with x := ecefX, y := ecefY, z := ecefZ }

/-- `rtcm_info_pos_packet`. -/
def PosInfo.posPacket (this : PosInfo) : Option Packet :=
  match this.copy1006, this.copy1005 with
  | none, p => p
  | some p, none => some p
  | some p, some q => if this.date1006.sec < this.date1005.sec then some q else some p

/-- The packets and the seconds of their dates. -/
def PosInfo.toInfo (this : PosInfo) : Info :=
  ⟨this.copy1005, this.copy1006, this.date1005.sec.toNat, this.date1006.sec.toNat⟩

theorem PosInfo.posPacket_toInfo {this : PosInfo} (h1005 : 0 ≤ this.date1005.sec)
    (h1006 : 0 ≤ this.date1006.sec) : this.toInfo.posPacket = this.posPacket := by
  have hlt : this.date1006.sec.toNat < this.date1005.sec.toNat ↔
      this.date1006.sec < this.date1005.sec := by omega
  rw [PosInfo.posPacket, Info.posPacket, PosInfo.toInfo]
  cases this.copy1006 with
  | none => rfl
  | some p =>
    cases this.copy1005 with
    | none => rfl
    | some q => exact if_congr hlt rfl rfl

theorem PosInfo.toInfo_handle10051006 {rp that : PosInfo} {type : BitVec 16} {p : Packet}
    {now : Timeval} (h : rp.handle10051006 type p now = some that) :
    that.toInfo = rp.toInfo.handle10051006 type p now.sec.toNat := by
  obtain ⟨ecefX, -, h⟩ := Option.bind_eq_some_iff.mp h
  obtain ⟨ecefY, -, h⟩ := Option.bind_eq_some_iff.mp h
  obtain ⟨ecefZ, -, h⟩ := Option.bind_eq_some_iff.mp h
  obtain rfl := Option.some.inj h
  rw [Info.handle10051006]
  split
  · rfl
  · split
    · rfl
    · rfl

/-! ### Coordinates -/

/-- **Coordinates are signed.** -/
theorem getInt38_eq {d : List Byte} {beg : ℕ} (hd : beg + 38 ≤ 8 * d.length) :
    ∃ r, getInt38 d beg = some r ∧ r.toInt = toInt (slice (bitsOf d) beg 38) := by
  have hl : (slice (bitsOf d) beg 38).length = 38 := length_slice (by rwa [length_bitsOf])
  have hv := ofBits_lt (slice (bitsOf d) beg 38)
  rw [hl] at hv
  have hr : (BitVec.ofNat 64 (ofBits (slice (bitsOf d) beg 38))).toNat =
      ofBits (slice (bitsOf d) beg 38) := by
    rw [BitVec.toNat_ofNat]
    omega
  refine ⟨_, by rw [getInt38, getbits_eq hd (by decide)]; rfl, ?_⟩
  have hsigned := @toInt_signed 64 38 _ (1 <<< 37) 0xffffffc000000000 (by decide) (by decide)
    (hr ▸ hv) (by decide) (by decide)
  rw [hr] at hsigned
  rw [toInt, hl]
  exact hsigned

/-! ### Arrivals -/

/-- A position packet of the right length, and the date at which it is handled. -/
structure Arrival where
  type : BitVec 16
  packet : Packet
  date : Timeval
  type_eq : rtcmGetType packet = some type
  /-- the check of `rtcm_handler` -/
  position : type = 1005 ∧ packet.datalen = 25 ∨ type = 1006 ∧ packet.datalen = 27

/-- `rtcm_handler_pos` for some packets in turn, less the drift. -/
def PosInfo.handleAll (rp : PosInfo) (l : List Arrival) : Option PosInfo :=
  l.foldlM (fun rp a => rp.handle10051006 a.type a.packet a.date) rp

/-- A coordinate in a packet: the field DF025, DF026 or DF027. -/
def coordinate (p : Packet) (beg : ℕ) : ℤ := toInt (slice (bitsOf (p.data.drop 3)) beg 38)

/-- The coordinates stored are those of a packet. -/
structure PosInfo.At (this : PosInfo) (p : Packet) : Prop where
  x : this.x.toInt = coordinate p 34
  y : this.y.toInt = coordinate p 74
  z : this.z.toInt = coordinate p 114

/-- **One packet.** It is copied and dated, and its coordinates are stored. -/
theorem handle10051006_eq (rp : PosInfo) (a : Arrival) :
    ∃ that, rp.handle10051006 a.type a.packet a.date = some that ∧ that.At a.packet ∧
      that.copy1005 = (if a.type = 1005 then some a.packet else rp.copy1005) ∧
      that.date1005 = (if a.type = 1005 then a.date else rp.date1005) ∧
      that.copy1006 = (if a.type = 1006 then some a.packet else rp.copy1006) ∧
      that.date1006 = if a.type = 1006 then a.date else rp.date1006 := by
  have hlength : 114 + 38 ≤ 8 * (a.packet.data.drop 3).length := by
    have hdatalen : a.packet.datalen = a.packet.data.length := rfl
    rw [List.length_drop]
    rcases a.position with h | h <;> omega
  obtain ⟨x, hx, hxval⟩ := @getInt38_eq (a.packet.data.drop 3) 34 (by omega)
  obtain ⟨y, hy, hyval⟩ := @getInt38_eq (a.packet.data.drop 3) 74 (by omega)
  obtain ⟨z, hz, hzval⟩ := @getInt38_eq (a.packet.data.drop 3) 114 (by omega)
  refine ⟨_, by rw [PosInfo.handle10051006, hx, hy, hz]; rfl, ⟨hxval, hyval, hzval⟩, ?_⟩
  rcases a.position with ⟨htype, -⟩ | ⟨htype, -⟩
  · have hne : ¬ a.type = 1006 := by rw [htype]; decide
    simp only [if_pos htype, if_neg hne, and_self]
  · have hne : ¬ a.type = 1005 := by rw [htype]; decide
    simp only [if_pos htype, if_neg hne, and_self]

/-! ### Sequences of packets -/

/-- The last packet of a type. -/
def lastOf (type : BitVec 16) (l : List Arrival) : Option Arrival :=
  (l.filter (·.type = type)).getLast?

theorem lastOf_append_singleton (type : BitVec 16) (l : List Arrival) (a : Arrival) :
    lastOf type (l ++ [a]) = if a.type = type then some a else lastOf type l := by
  rw [lastOf, List.filter_append, List.filter_cons, List.filter_nil]
  by_cases h : a.type = type
  · rw [if_pos h, if_pos (decide_eq_true h), List.getLast?_concat]
  · rw [if_neg h, if_neg (mt of_decide_eq_true h), List.append_nil]
    rfl

theorem of_lastOf_eq_some {type : BitVec 16} {l : List Arrival} {b : Arrival}
    (h : lastOf type l = some b) : b ∈ l ∧ b.type = type := by
  obtain ⟨hmem, htype⟩ := List.mem_filter.mp (List.mem_of_getLast? h)
  exact ⟨hmem, of_decide_eq_true htype⟩

theorem of_lastOf_eq_none {type : BitVec 16} {l : List Arrival} (h : lastOf type l = none)
    {b : Arrival} (hb : b ∈ l) : b.type ≠ type := by
  intro htype
  have hmem : b ∈ l.filter (fun a => decide (a.type = type)) :=
    List.mem_filter.mpr ⟨hb, decide_eq_true htype⟩
  rw [List.getLast?_eq_none_iff.mp h] at hmem
  exact List.not_mem_nil hmem

/-- What `rtcm_info` holds after some packets. -/
structure PosInfo.Follows (this : PosInfo) (l : List Arrival) : Prop where
  copy1005 : this.copy1005 = (lastOf 1005 l).map (·.packet)
  date1005 : ∀ a ∈ lastOf 1005 l, this.date1005 = a.date
  copy1006 : this.copy1006 = (lastOf 1006 l).map (·.packet)
  date1006 : ∀ a ∈ lastOf 1006 l, this.date1006 = a.date
  at_last : ∀ a ∈ l.getLast?, this.At a.packet

theorem follows_new (x y z : BitVec 64) (posdate : Timeval) :
    (PosInfo.new x y z posdate).Follows [] where
  copy1005 := rfl
  date1005 := by rintro a ⟨⟩
  copy1006 := rfl
  date1006 := by rintro a ⟨⟩
  at_last := by rintro a ⟨⟩

/-- The dates of the copies are kept with them. -/
theorem follows_handle {rp that : PosInfo} {l : List Arrival} (h : rp.Follows l) {a : Arrival}
    (ha : rp.handle10051006 a.type a.packet a.date = some that) : that.Follows (l ++ [a]) := by
  obtain ⟨that', hthat, hat, hcopy1005, hdate1005, hcopy1006, hdate1006⟩ :=
    handle10051006_eq rp a
  obtain rfl := Option.some.inj (hthat.symm.trans ha)
  refine ⟨?_, ?_, ?_, ?_, ?_⟩
  · rw [hcopy1005, lastOf_append_singleton, h.copy1005]
    split
    · rfl
    · rfl
  · rw [hdate1005, lastOf_append_singleton]
    split
    · rintro b ⟨⟩
      rfl
    · exact h.date1005
  · rw [hcopy1006, lastOf_append_singleton, h.copy1006]
    split
    · rfl
    · rfl
  · rw [hdate1006, lastOf_append_singleton]
    split
    · rintro b ⟨⟩
      rfl
    · exact h.date1006
  · rw [List.getLast?_concat]
    rintro b ⟨⟩
    exact hat

/-- **A run.** Every packet is handled, and what is held follows the packets. -/
theorem handleAll_follows {rp : PosInfo} (h : rp.Follows []) (l : List Arrival) :
    ∃ that, rp.handleAll l = some that ∧ that.Follows l := by
  induction l using List.reverseRecOn with
  | nil => exact ⟨rp, rfl, h⟩
  | append_singleton l a ih =>
    obtain ⟨rp', hrun, hfollows⟩ := ih
    obtain ⟨that, hthat, -⟩ := handle10051006_eq rp' a
    refine ⟨that, ?_, follows_handle hfollows hthat⟩
    rw [PosInfo.handleAll, List.foldlM_append]
    rw [PosInfo.handleAll] at hrun
    rw [hrun, Option.bind_eq_bind, Option.bind_some, List.foldlM_cons, hthat]
    rfl

/-! ### The packet that is taken -/

/-- The packet taken is the last one handled, and the coordinates are its. -/
structure PosInfo.ReturnsLast (this : PosInfo) (l : List Arrival) : Prop where
  posPacket : this.posPacket = l.getLast?.map (·.packet)
  at_last : ∀ a ∈ l.getLast?, this.At a.packet

/-- The last packet is a 1005, and a 1006 came in the same second. -/
def SameSecond (l : List Arrival) : Prop :=
  ∃ a ∈ l.getLast?, a.type = 1005 ∧ ∃ b ∈ l, b.type = 1006 ∧ b.date.sec = a.date.sec

theorem sec_le_of_lt {s t : Timeval} (h : s.lt t = true) : s.sec ≤ t.sec := by
  rw [Timeval.lt] at h
  split at h
  · next heq => exact heq.le
  · exact (of_decide_eq_true h).le

/-- The last packet of a type came no earlier than the others of that type. -/
theorem sec_le_lastOf {type : BitVec 16} {l : List Arrival}
    (hdates : l.Pairwise fun a b => a.date.lt b.date = true) {b c : Arrival}
    (hb : lastOf type l = some b) (hc : c ∈ l) (htype : c.type = type) :
    c.date.sec ≤ b.date.sec := by
  obtain ⟨pre, hpre⟩ := List.getLast?_eq_some_iff.mp hb
  have hdates' := hdates.filter (fun a => decide (a.type = type))
  have hc' : c ∈ l.filter (fun a => decide (a.type = type)) :=
    List.mem_filter.mpr ⟨hc, decide_eq_true htype⟩
  rw [hpre] at hdates' hc'
  rcases List.mem_append.mp hc' with hc' | hc'
  · exact sec_le_of_lt ((List.pairwise_append.mp hdates').2.2 c hc' b (List.mem_singleton_self b))
  · rw [List.mem_singleton.mp hc']

theorem packet_ne_of_type_ne {a b : Arrival} (h : a.type ≠ b.type) : a.packet ≠ b.packet := by
  intro heq
  have htype := a.type_eq
  rw [heq, b.type_eq] at htype
  exact h (Option.some.inj htype).symm

section Last

variable {this : PosInfo} {l : List Arrival} {a : Arrival}

theorem sec_le_of_mem (hdates : (l ++ [a]).Pairwise fun a b => a.date.lt b.date = true)
    {b : Arrival} (hb : b ∈ l) : b.date.sec ≤ a.date.sec :=
  sec_le_of_lt ((List.pairwise_append.mp hdates).2.2 b hb a (List.mem_singleton_self a))

/-- A 1006 that came last is taken. -/
theorem posPacket_of_1006 (h : this.Follows (l ++ [a]))
    (hdates : (l ++ [a]).Pairwise fun a b => a.date.lt b.date = true) (ha : a.type = 1006) :
    this.posPacket = some a.packet := by
  have hlast : lastOf 1006 (l ++ [a]) = some a := by rw [lastOf_append_singleton, if_pos ha]
  have hcopy1006 := h.copy1006
  have hcopy1005 := h.copy1005
  rw [hlast, Option.map_some] at hcopy1006
  rw [PosInfo.posPacket, hcopy1006, hcopy1005]
  cases hb : lastOf 1005 (l ++ [a]) with
  | none => rfl
  | some b =>
    have hle : b.date.sec ≤ a.date.sec := by
      rcases List.mem_append.mp (of_lastOf_eq_some hb).1 with hmem | hmem
      · exact sec_le_of_mem hdates hmem
      · rw [List.mem_singleton.mp hmem]
    have hnot : ¬ this.date1006.sec < this.date1005.sec := by
      rw [h.date1006 a hlast, h.date1005 b hb]
      exact Int.not_lt.mpr hle
    exact if_neg hnot

/-- A 1005 that came last is taken unless a 1006 came in the same second. -/
theorem posPacket_of_1005 (h : this.Follows (l ++ [a]))
    (hdates : (l ++ [a]).Pairwise fun a b => a.date.lt b.date = true) (ha : a.type = 1005) :
    this.posPacket = some a.packet ↔ ¬ ∃ b ∈ l, b.type = 1006 ∧ b.date.sec = a.date.sec := by
  have hne : ¬ a.type = 1006 := by rw [ha]; decide
  have hlast : lastOf 1005 (l ++ [a]) = some a := by rw [lastOf_append_singleton, if_pos ha]
  have hlast' : lastOf 1006 (l ++ [a]) = lastOf 1006 l := by
    rw [lastOf_append_singleton, if_neg hne]
  have hcopy1005 := h.copy1005
  have hcopy1006 := h.copy1006
  rw [hlast, Option.map_some] at hcopy1005
  rw [hlast'] at hcopy1006
  rw [PosInfo.posPacket, hcopy1005, hcopy1006]
  cases hb : lastOf 1006 l with
  | none =>
    refine iff_of_true rfl ?_
    rintro ⟨b, hmem, htype, -⟩
    exact of_lastOf_eq_none hb hmem htype
  | some b =>
    obtain ⟨hmem, htype⟩ := of_lastOf_eq_some hb
    have hdate : this.date1006.sec < this.date1005.sec ↔ b.date.sec < a.date.sec := by
      rw [h.date1005 a hlast, h.date1006 b (hlast'.trans hb)]
    have hpacket : b.packet ≠ a.packet := packet_ne_of_type_ne (by rw [htype, ha]; decide)
    rw [Option.map_some]
    dsimp only
    by_cases hlt : b.date.sec < a.date.sec
    · rw [if_pos (hdate.mpr hlt)]
      refine iff_of_true rfl ?_
      rintro ⟨c, hc, hctype, hsec⟩
      have hle := sec_le_lastOf (List.pairwise_append.mp hdates).1 hb hc hctype
      omega
    · rw [if_neg (mt hdate.mp hlt)]
      refine iff_of_false (fun heq => hpacket (Option.some.inj heq)) (not_not.mpr ?_)
      exact ⟨b, hmem, htype, le_antisymm (sec_le_of_mem hdates hmem) (Int.not_lt.mp hlt)⟩

end Last

/-- **When the packet taken is the last one.** -/
theorem returnsLast_iff (x y z : BitVec 64) (posdate : Timeval) (l : List Arrival)
    (hdates : l.Pairwise fun a b => a.date.lt b.date = true) :
    ∃ that, (PosInfo.new x y z posdate).handleAll l = some that ∧
      (that.ReturnsLast l ↔ ¬ SameSecond l) := by
  obtain ⟨that, hrun, h⟩ := handleAll_follows (follows_new x y z posdate) l
  refine ⟨that, hrun, ?_⟩
  have hreturns : that.ReturnsLast l ↔ that.posPacket = l.getLast?.map (·.packet) :=
    ⟨fun hlast => hlast.posPacket, fun hlast => ⟨hlast, h.at_last⟩⟩
  rw [hreturns]
  rcases List.eq_nil_or_concat l with rfl | ⟨l, a, rfl⟩
  · have hnone : that.posPacket = none := by
      have hcopy1005 : that.copy1005 = none := h.copy1005
      have hcopy1006 : that.copy1006 = none := h.copy1006
      rw [PosInfo.posPacket, hcopy1005, hcopy1006]
    refine iff_of_true hnone ?_
    rintro ⟨a, ha, -⟩
    exact absurd ha (Option.not_mem_none a)
  · rw [List.concat_eq_append] at hdates h ⊢
    rw [List.getLast?_concat, Option.map_some]
    rcases a.position with ⟨ha, -⟩ | ⟨ha, -⟩
    · rw [posPacket_of_1005 h hdates ha]
      refine not_congr ⟨?_, ?_⟩
      · rintro ⟨b, hb, htype, hsec⟩
        exact ⟨a, List.getLast?_concat, ha, b, List.mem_append_left [a] hb, htype, hsec⟩
      · rintro ⟨a', ha', -, b, hb, htype, hsec⟩
        obtain rfl := Option.some.inj (List.getLast?_concat.symm.trans ha')
        rcases List.mem_append.mp hb with hb | hb
        · exact ⟨b, hb, htype, hsec⟩
        · rw [List.mem_singleton.mp hb, ha] at htype
          exact absurd htype (by decide)
    · refine iff_of_true (posPacket_of_1006 h hdates ha) ?_
      rintro ⟨a', ha', htype, -⟩
      obtain rfl := Option.some.inj (List.getLast?_concat.symm.trans ha')
      rw [ha] at htype
      exact absurd htype (by decide)

/-- A packet with a type, and zeros after it. The checksum plays no part here. -/
def positionPacket (typeLow : Byte) (len : ℕ) : Packet :=
  ⟨.rtcmChecked, [0xd3, 0, BitVec.ofNat 8 len, 0x3e, typeLow] ++ List.replicate (len + 1) 0⟩

/-- A 1006 that comes at some date. -/
def arrival1006 (date : Timeval) : Arrival where
  type := 1006
  packet := positionPacket 0xe0 21
  date := date
  type_eq := by decide +kernel
  position := by decide

def arrival1005 (date : Timeval) : Arrival where
  type := 1005
  packet := positionPacket 0xd0 19
  date := date
  type_eq := by decide +kernel
  position := by decide

/-- The packets come in two seconds, and the last one is taken. -/
theorem returnsLast_iff_nextSecond :
    ∃ that, (PosInfo.new 0 0 0 ⟨0, 0⟩).handleAll [arrival1006 ⟨1, 0⟩, arrival1005 ⟨2, 0⟩] =
        some that ∧
      (that.ReturnsLast [arrival1006 ⟨1, 0⟩, arrival1005 ⟨2, 0⟩] ↔
        ¬ SameSecond [arrival1006 ⟨1, 0⟩, arrival1005 ⟨2, 0⟩]) :=
  returnsLast_iff 0 0 0 ⟨0, 0⟩ [arrival1006 ⟨1, 0⟩, arrival1005 ⟨2, 0⟩] (by decide)

/-- The 1005 comes half a second after the 1006, and the 1006 is taken. -/
theorem not_returnsLast_sameSecond :
    [arrival1006 ⟨1, 0⟩, arrival1005 ⟨1, 500000⟩].Pairwise
        (fun a b => a.date.lt b.date = true) ∧
      ∀ that, (PosInfo.new 0 0 0 ⟨0, 0⟩).handleAll
          [arrival1006 ⟨1, 0⟩, arrival1005 ⟨1, 500000⟩] = some that →
        ¬ that.ReturnsLast [arrival1006 ⟨1, 0⟩, arrival1005 ⟨1, 500000⟩] := by
  have hdates : [arrival1006 ⟨1, 0⟩, arrival1005 ⟨1, 500000⟩].Pairwise
      (fun a b => a.date.lt b.date = true) := by decide
  refine ⟨hdates, fun that hrun hlast => ?_⟩
  obtain ⟨that', hrun', h⟩ := handleAll_follows (follows_new 0 0 0 ⟨0, 0⟩)
    [arrival1006 ⟨1, 0⟩, arrival1005 ⟨1, 500000⟩]
  obtain rfl := Option.some.inj (hrun'.symm.trans hrun)
  exact (posPacket_of_1005 (l := [arrival1006 ⟨1, 0⟩]) h hdates rfl).mp hlast.posPacket
    ⟨arrival1006 ⟨1, 0⟩, List.mem_singleton_self _, rfl, rfl⟩

end Rtcm

end ChilopodCaster
