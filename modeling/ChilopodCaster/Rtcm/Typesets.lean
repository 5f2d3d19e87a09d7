import ChilopodCaster.Rtcm.Filter
import Mathlib.Tactic.IntervalCases

/-!
# Sets of message types

`struct rtcm_typeset` keeps a bit for each of the types 1000 to 1230 and 4000 to 4095. Types outside
these ranges are not tracked: they are refused by `rtcm_typeset_set`, and are never found by
`rtcm_typeset_check`. As a set of numbers, a typeset is one of tracked types.

## Main results

* `check_init`, `check_set` — what is in the empty set, and in one with another type
* `exists_types_seen` — what the types seen are after some reads
* `types_observed_iff` — when these are the types of the messages received
-/

namespace ChilopodCaster

namespace Rtcm

open Bits Bitfield

/-! ### Bits -/

theorem getbitAtomic_eq {n : ℕ} (d : Vector Byte n) (beg : ℕ) (h : beg / 8 < n) :
    getbitAtomic d beg h = (d[beg / 8]).getLsbD (beg % 8) := by
  have hlt : beg % 8 < 8 := Nat.mod_lt _ (by decide)
  have hne : BitVec.twoPow 8 (beg % 8) ≠ 0 := by
    interval_cases beg % 8 <;> decide
  rw [getbitAtomic, ← BitVec.twoPow_eq, BitVec.and_twoPow]
  cases (d[beg / 8]).getLsbD (beg % 8) with
  | false => rfl
  | true => exact decide_eq_true hne

/-- A bit is set, and the others stay as they are. -/
theorem getbitAtomic_setbitAtomic {n : ℕ} (d : Vector Byte n) {i j : ℕ} (hi : i / 8 < n)
    (hj : j / 8 < n) :
    getbitAtomic (setbitAtomic d i hi) j hj = (getbitAtomic d j hj || decide (i = j)) := by
  have hlt : i % 8 < 8 := Nat.mod_lt _ (by decide)
  rw [getbitAtomic_eq, getbitAtomic_eq, setbitAtomic, Vector.getElem_set]
  by_cases hbyte : i / 8 = j / 8
  · have hbit : decide (i % 8 = j % 8) = decide (i = j) := by
      rw [decide_eq_decide]
      omega
    simp only [hbyte, if_true]
    rw [BitVec.getLsbD_or, ← BitVec.twoPow_eq, BitVec.getLsbD_twoPow, decide_eq_true hlt,
      Bool.true_and, hbit]
  · have hne : i ≠ j := fun h => hbyte (congrArg (· / 8) h)
    rw [if_neg hbyte, decide_eq_false hne, Bool.or_false]

/-! ### Types -/

/-- The types that are tracked. -/
def Tracked (type : ℕ) : Prop := 1000 ≤ type ∧ type ≤ 1230 ∨ 4000 ≤ type ∧ type ≤ 4095

instance instDecidablePredTracked : DecidablePred Tracked :=
  fun type => inferInstanceAs (Decidable (1000 ≤ type ∧ type ≤ 1230 ∨ 4000 ≤ type ∧ type ≤ 4095))

theorem tracked_of_check {this : Typeset} {type : ℕ} (h : this.check type = true) :
    Tracked type := by
  rw [Typeset.check] at h
  split at h
  · next hrange => exact Or.inl hrange
  · split at h
    · next hrange => exact Or.inr hrange
    · contradiction

@[simp] theorem check_init (type : ℕ) : Typeset.init.check type = false := by
  have hzero {n : ℕ} {beg : ℕ} (h : beg / 8 < n) :
      getbitAtomic (Vector.replicate n (0 : Byte)) beg h = false := by
    rw [getbitAtomic_eq, Vector.getElem_replicate]
    exact BitVec.getLsbD_zero
  rw [Typeset.check, Typeset.init]
  split
  · exact hzero _
  · split
    · exact hzero _
    · rfl

theorem set_eq_none_iff {this : Typeset} {type : ℕ} : this.set type = none ↔ ¬ Tracked type := by
  rw [Typeset.set, Tracked]
  split
  · next h => exact ⟨fun hnone => by contradiction, fun hnot => absurd (Or.inl h) hnot⟩
  · next h =>
    split
    · next h' => exact ⟨fun hnone => by contradiction, fun hnot => absurd (Or.inr h') hnot⟩
    · next h' => exact ⟨fun _ => not_or.mpr ⟨h, h'⟩, fun _ => rfl⟩

theorem tracked_of_set {this that : Typeset} {type : ℕ} (h : this.set type = some that) :
    Tracked type := by
  by_contra hnot
  rw [set_eq_none_iff.mpr hnot] at h
  contradiction

/-- **The set with another type.** -/
theorem check_set {this that : Typeset} {type : ℕ} (h : this.set type = some that) (t : ℕ) :
    that.check t = true ↔ this.check t = true ∨ t = type := by
  rw [Typeset.set] at h
  split at h
  · next h1k =>
    obtain rfl := Option.some.inj h
    rw [Typeset.check, Typeset.check]
    split
    · next ht1k =>
      rw [getbitAtomic_setbitAtomic, Bool.or_eq_true, decide_eq_true_eq]
      refine or_congr_right ?_
      omega
    · next ht1k =>
      have hne : t ≠ type := by
        rintro rfl
        exact ht1k h1k
      exact (or_iff_left hne).symm
  · next hnot1k =>
    split at h
    · next h4k =>
      obtain rfl := Option.some.inj h
      rw [Typeset.check, Typeset.check]
      split
      · next ht1k =>
        have hne : t ≠ type := by
          rintro rfl
          exact hnot1k ht1k
        exact (or_iff_left hne).symm
      · split
        · next ht4k =>
          rw [getbitAtomic_setbitAtomic, Bool.or_eq_true, decide_eq_true_eq]
          refine or_congr_right ?_
          omega
        · next ht4k =>
          have hne : t ≠ type := by
            rintro rfl
            exact ht4k h4k
          exact (or_iff_left hne).symm
    · contradiction

/-- A type is recorded, or refused and the set left as it is. -/
theorem check_getD_set (this : Typeset) (type t : ℕ) :
    ((this.set type).getD this).check t = true ↔
      this.check t = true ∨ Tracked t ∧ t = type := by
  cases hset : this.set type with
  | none =>
    have hnot := set_eq_none_iff.mp hset
    refine ⟨Or.inl, ?_⟩
    rintro (h | ⟨h, rfl⟩)
    · exact h
    · exact absurd h hnot
  | some that =>
    have htype := tracked_of_set hset
    rw [Option.getD_some, check_set hset]
    refine or_congr_right ⟨fun h => ⟨h ▸ htype, h⟩, fun h => h.2⟩

/-! ### Types seen -/

/-- A packet shows a type: its checksum was found right, and the type is read in it. -/
structure Shows (p : Packet) (t : ℕ) : Prop where
  checked : p.rtcmState = .rtcmChecked
  type : (rtcmGetType p).map (·.toNat) = some t

/-- The types seen are those that the packets passed on show, and those that were there before. -/
def TypesFollow (before : Typeset) (st : Stream) : Prop :=
  ∃ typeset, st.rtcmInfo = some typeset ∧ ∀ t, typeset.check t = true ↔
    before.check t = true ∨ Tracked t ∧ ∃ p ∈ st.sent, Shows p t

theorem not_shows_raw {p : Packet} (h : p.rtcmState = .raw) (t : ℕ) : ¬ Shows p t := by
  intro hshows
  rw [hshows.checked] at h
  contradiction

variable {before : Typeset} {st : Stream}

theorem exists_mem_append_singleton {α : Type*} {P : α → Prop} {l : List α} {a : α} :
    (∃ b ∈ l ++ [a], P b) ↔ (∃ b ∈ l, P b) ∨ P a := by
  constructor
  · rintro ⟨b, hb, hP⟩
    rcases List.mem_append.mp hb with hb | hb
    · exact Or.inl ⟨b, hb, hP⟩
    · exact Or.inr (List.mem_singleton.mp hb ▸ hP)
  · rintro (⟨b, hb, hP⟩ | hP)
    · exact ⟨b, List.mem_append_left _ hb, hP⟩
    · exact ⟨a, List.mem_append_right _ (List.mem_singleton_self a), hP⟩

theorem TypesFollow.sendRaw (h : TypesFollow before st) (len : ℕ) :
    TypesFollow before (sendRaw st len) := by
  obtain ⟨typeset, hinfo, htypes⟩ := h
  refine ⟨typeset, hinfo, fun t => ?_⟩
  rw [htypes, Rtcm.sendRaw, exists_mem_append_singleton, or_iff_left (not_shows_raw rfl t)]

theorem rtcmCrcCheck_state {data : List Byte} :
    (framePacket data).rtcmState = .rtcmChecked ↔
      (rtcmCrcCheck ⟨.rtcmUnchecked, data⟩).1 = true := by
  have hunchecked : PacketState.rtcmUnchecked ≠ .rtcmChecked := by decide
  rw [framePacket, rtcmCrcCheck, if_neg hunchecked]
  dsimp only
  split
  · exact ⟨fun h => absurd h hunchecked, fun h => absurd h Bool.false_ne_true⟩
  · split
    · exact ⟨fun h => absurd h hunchecked, fun h => absurd h Bool.false_ne_true⟩
    · exact ⟨fun _ => rfl, fun _ => rfl⟩

theorem TypesFollow.sendFrame {st' : Stream} (h : TypesFollow before st) {lenRtcm : ℕ}
    (hsend : Rtcm.sendFrame st lenRtcm = some st') : TypesFollow before st' := by
  obtain ⟨typeset, hinfo, htypes⟩ := h
  rw [Rtcm.sendFrame] at hsend
  dsimp only at hsend
  cases hok : (rtcmCrcCheck ⟨.rtcmUnchecked, st.input.take lenRtcm⟩).1 with
  | false =>
    rw [hok, if_neg Bool.false_ne_true] at hsend
    obtain rfl := Option.some.inj hsend
    refine ⟨typeset, hinfo, fun t => ?_⟩
    have hnot : ¬ Shows (framePacket (st.input.take lenRtcm)) t := by
      intro hshows
      rw [rtcmCrcCheck_state.mp hshows.checked] at hok
      contradiction
    rw [htypes, exists_mem_append_singleton, ← framePacket, or_iff_left hnot]
  | true =>
    rw [hok, if_pos rfl] at hsend
    obtain ⟨st₁, hst₁, hsend⟩ := Option.bind_eq_some_iff.mp hsend
    obtain rfl := Option.some.inj hsend
    obtain ⟨type, htype, hst₁⟩ := Option.bind_eq_some_iff.mp hst₁
    rw [rtcmHandler, hinfo] at hst₁
    dsimp only at hst₁
    obtain ⟨type', htype', hst₁⟩ := Option.bind_eq_some_iff.mp hst₁
    obtain rfl := Option.some.inj (htype.symm.trans htype')
    have hfinal : st₁.rtcmInfo = some ((typeset.set type.toNat).getD typeset) ∧
        st₁.sent = st.sent := by
      split at hst₁
      · obtain rfl := Option.some.inj hst₁
        exact ⟨rfl, rfl⟩
      · obtain rfl := Option.some.inj hst₁
        exact ⟨rfl, rfl⟩
    refine ⟨_, hfinal.1, fun t => ?_⟩
    have hshows : Shows (framePacket (st.input.take lenRtcm)) t ↔ t = type.toNat := by
      have htoNat : (rtcmGetType (framePacket (st.input.take lenRtcm))).map (·.toNat) =
          some type.toNat := by
        rw [framePacket, htype]
        rfl
      refine ⟨fun h => ?_, fun h => ⟨rtcmCrcCheck_state.mpr hok, h ▸ htoNat⟩⟩
      exact Option.some.inj (h.type.symm.trans htoNat)
    rw [check_getD_set, htypes, hfinal.2, exists_mem_append_singleton, ← framePacket, hshows,
      and_or_left, or_assoc]

/-- One round of the loop. -/
theorem TypesFollow.round (s : Stream × Bool) (h : TypesFollow before s.1) :
    Loop.Keeps handleBody (fun s => TypesFollow before s.1)
      (fun o => ∀ s', o = some s' → TypesFollow before s'.1) s := by
  obtain ⟨st, r⟩ := s
  rw [Loop.Keeps]
  simp only [handleBody]
  generalize (st.input.findIdx? (· = preamble)).getD st.input.length = len
  obtain ⟨st', r', hsend, hst'⟩ : ∃ st' r',
      (if len ≠ 0 then (Rtcm.sendRaw st len, true) else (st, r)) = (st', r') ∧
        TypesFollow before st' := by
    by_cases hlen : len ≠ 0
    · exact ⟨_, _, if_pos hlen, h.sendRaw len⟩
    · exact ⟨_, _, if_neg hlen, h⟩
  have hstop (o : Option (Stream × Bool)) (ho : o = some (st', r')) (s' : Stream × Bool)
      (hs' : o = some s') : TypesFollow before s'.1 := by
    obtain rfl := Option.some.inj (ho.symm.trans hs')
    exact hst'
  simp only [hsend]
  by_cases hempty : st.input.length - len = 0
  · rw [if_pos hempty]
    exact hstop _ rfl
  · rw [if_neg hempty]
    rcases hinput : st'.input with - | ⟨b, - | ⟨mem₁, - | ⟨mem₂, tail⟩⟩⟩
    · exact hstop _ rfl
    · exact hstop _ rfl
    · exact hstop _ rfl
    · dsimp only
      by_cases hshort : lenRtcm mem₁ mem₂ > st.input.length - len
      · rw [if_pos hshort]
        exact hstop _ rfl
      · rw [if_neg hshort]
        cases hframe : Rtcm.sendFrame st' (lenRtcm mem₁ mem₂) with
        | none => exact fun s' hs' => by contradiction
        | some st'' => exact hst'.sendFrame hframe

/-- One call, after bytes have arrived. -/
theorem TypesFollow.handle {s' : Stream × Bool} (h : TypesFollow before st) (read : List Byte)
    (hcall : rtcmPacketHandle { st with input := st.input ++ read } = some s') :
    TypesFollow before s'.1 := by
  obtain ⟨o, hrun, ho⟩ := Option.bind_eq_some_iff.mp hcall
  have hstart : TypesFollow before ({ st with input := st.input ++ read }, false).1 := h
  exact Loop.run_of_keeps (fun s => TypesFollow before s.1)
    (fun o => ∀ s', o = some s' → TypesFollow before s'.1) TypesFollow.round hstart hrun s' ho

/-- **A run of calls.** -/
theorem TypesFollow.receive {st' : Stream} (h : TypesFollow before st) {reads : List (List Byte)}
    (hrun : st.receive reads = some st') : TypesFollow before st' := by
  induction reads generalizing st with
  | nil =>
    obtain rfl := Option.some.inj hrun
    exact h
  | cons read reads ih =>
    obtain ⟨s, hcall, hrun⟩ := Option.bind_eq_some_iff.mp hrun
    exact ih (h.handle read hcall) hrun

/-! ### Types of the messages received -/

/-- A frame with a right checksum, as the framer cuts it off the stream. -/
def Cut (stream data : List Byte) : Prop :=
  .frame data ∈ (framer.tokens stream).1 ∧ (rtcmCrcCheck ⟨.rtcmUnchecked, data⟩).1 = true

/-- The first twelve bits of the payload, which has at least two bytes. -/
def Carries (data : List Byte) (t : ℕ) : Prop :=
  2 ≤ (payload data).length ∧ ofBits ((bitsOf (payload data)).take 12) = t

/-- A payload of less than two bytes. The twelve bits run on into the checksum. -/
def CarriesShort (data : List Byte) (t : ℕ) : Prop :=
  (payload data).length < 2 ∧ ofBits ((bitsOf (data.drop 3)).take 12) = t

/-- The twelve bits after the header of a frame. -/
def typeBits (data : List Byte) : ℕ := ofBits ((bitsOf (data.drop 3)).take 12)

theorem length_of_cut {stream data : List Byte} (h : Cut stream data) : 6 ≤ data.length := by
  refine framer.forall_mem_tokens (P := fun token => ∀ data, token = .frame data → 6 ≤ data.length)
    ?_ stream _ h.1 data rfl
  rintro x t r hcut data rfl
  rcases cutToken_cases hcut with ⟨b, -, -, ht⟩ | ⟨mem₁, mem₂, tail, -, hle, ht, -⟩
  · contradiction
  · rw [Token.frame.inj ht, List.length_take, Nat.min_eq_left hle, lenRtcm]
    omega

/-- The type of a frame is in the twelve bits after its header. -/
theorem rtcmGetType_framePacket {data : List Byte} (hlength : 6 ≤ data.length) :
    (rtcmGetType (framePacket data)).map (·.toNat) = some (typeBits data) := by
  have hlt := ofBits_lt ((bitsOf (data.drop 3)).take 12)
  have htake := List.length_take_le 12 (bitsOf (data.drop 3))
  have hpow : 2 ^ ((bitsOf (data.drop 3)).take 12).length ≤ 2 ^ 12 :=
    Nat.pow_le_pow_right (by decide) htake
  rw [rtcmGetType, if_pos (framePacket_ne_raw data), framePacket_data,
    getbits_eq (by rw [List.length_drop]; omega) (by decide), typeBits, slice, List.drop_zero]
  simp only [Option.map_some, BitVec.toNat_setWidth, BitVec.toNat_ofNat, Option.some.injEq]
  omega

theorem shows_framePacket_iff {data : List Byte} (hlength : 6 ≤ data.length) {t : ℕ} :
    Shows (framePacket data) t ↔
      (rtcmCrcCheck ⟨.rtcmUnchecked, data⟩).1 = true ∧ typeBits data = t := by
  have htype := rtcmGetType_framePacket hlength
  refine ⟨fun h => ⟨rtcmCrcCheck_state.mp h.checked, ?_⟩,
    fun h => ⟨rtcmCrcCheck_state.mpr h.1, h.2 ▸ htype⟩⟩
  exact Option.some.inj (htype.symm.trans h.type)

theorem typeBits_eq {data : List Byte} (h : 2 ≤ (payload data).length) :
    typeBits data = ofBits ((bitsOf (payload data)).take 12) := by
  have hlength : 2 ≤ data.length - 6 := by
    refine h.trans ?_
    rw [payload]
    exact List.length_take_le _ _
  rw [typeBits, payload, ← take_bitsOf, List.take_take, Nat.min_eq_left (by omega)]

/-- A frame carries a type, in its payload or beyond it. -/
theorem carries_or_carriesShort {data : List Byte} {t : ℕ} :
    Carries data t ∨ CarriesShort data t ↔ typeBits data = t := by
  rw [Carries, CarriesShort, ← typeBits]
  by_cases h : 2 ≤ (payload data).length
  · rw [← typeBits_eq h]
    exact ⟨fun hor => hor.elim And.right And.right, fun ht => Or.inl ⟨h, ht⟩⟩
  · refine ⟨?_, fun ht => Or.inr ⟨Nat.lt_of_not_le h, ht⟩⟩
    rintro (hlong | hshort)
    · exact absurd hlong.1 h
    · exact hshort.2

theorem mem_framePackets {p : Packet} {tokens : List Token} :
    p ∈ framePackets tokens ↔ ∃ data, .frame data ∈ tokens ∧ framePacket data = p := by
  rw [framePackets, List.mem_filterMap]
  constructor
  · rintro ⟨token, htoken, hp⟩
    cases token with
    | raw b => contradiction
    | frame data => exact ⟨data, htoken, Option.some.inj hp⟩
  · rintro ⟨data, hdata, rfl⟩
    exact ⟨.frame data, hdata, rfl⟩

/-- **The types seen** are those of the frames with a right checksum, whatever the length of their
payload. -/
theorem exists_types_seen (before : Typeset) (reads : List (List Byte)) :
    ∃ st typeset, (Stream.start (some before)).receive reads = some st ∧
      st.rtcmInfo = some typeset ∧ ∀ t, typeset.check t = true ↔ before.check t = true ∨
        Tracked t ∧ ∃ data, Cut reads.flatten data ∧ (Carries data t ∨ CarriesShort data t) := by
  obtain ⟨st, hst, hfollows, hcut⟩ := receive_follows (follows_start (some before)) rfl reads
  rw [List.nil_append] at hfollows
  have hstart : TypesFollow before (.start (some before)) := by
    refine ⟨before, rfl, fun t => (or_iff_left ?_).symm⟩
    rintro ⟨-, p, hp, -⟩
    contradiction
  obtain ⟨typeset, hinfo, htypes⟩ := hstart.receive hst
  have hframes : st.sent.filter IsFrame = framePackets (framer.tokens reads.flatten).1 := by
    rw [filter_isFrame hfollows.framed, hfollows.tokens, framer.tokens_of_cut_none hcut,
      List.append_nil]
  refine ⟨st, typeset, hst, hinfo, fun t => (htypes t).trans (or_congr_right (and_congr_right
    fun _ => ⟨?_, ?_⟩))⟩
  · rintro ⟨p, hp, hshows⟩
    have hne : p.rtcmState ≠ .raw := by
      rw [hshows.checked]
      decide
    have hmem : p ∈ framePackets (framer.tokens reads.flatten).1 := by
      rw [← hframes]
      refine List.mem_filter.mpr ⟨hp, decide_eq_true ⟨hne, ?_⟩⟩
      exact ((hfollows.framed p hp).resolve_left hne).1
    obtain ⟨data, hdata, rfl⟩ := mem_framePackets.mp hmem
    have hcutData : Cut reads.flatten data := ⟨hdata, rtcmCrcCheck_state.mp hshows.checked⟩
    exact ⟨data, hcutData, carries_or_carriesShort.mpr
      ((shows_framePacket_iff (length_of_cut hcutData)).mp hshows).2⟩
  · rintro ⟨data, hdata, hcarries⟩
    have hmem : framePacket data ∈ st.sent.filter IsFrame := by
      rw [hframes]
      exact mem_framePackets.mpr ⟨data, hdata.1, rfl⟩
    exact ⟨framePacket data, (List.mem_filter.mp hmem).1,
      (shows_framePacket_iff (length_of_cut hdata)).mpr
        ⟨hdata.2, carries_or_carriesShort.mp hcarries⟩⟩

/-- **When the types seen are types of messages.** A type that is tracked gets into the set if and
only if a message of the type was received, unless a frame without room for a type shows it. -/
theorem types_observed_iff (before : Typeset) (reads : List (List Byte)) (t : ℕ) :
    ∃ st typeset, (Stream.start (some before)).receive reads = some st ∧
      st.rtcmInfo = some typeset ∧
      ((typeset.check t = true ↔ before.check t = true ∨
          Tracked t ∧ ∃ data, Cut reads.flatten data ∧ Carries data t) ↔
        (before.check t = false → Tracked t →
          (∃ data, Cut reads.flatten data ∧ CarriesShort data t) →
            ∃ data, Cut reads.flatten data ∧ Carries data t)) := by
  obtain ⟨st, typeset, hst, hinfo, htypes⟩ := exists_types_seen before reads
  refine ⟨st, typeset, hst, hinfo, ?_⟩
  have hseen : typeset.check t = true ↔ before.check t = true ∨ Tracked t ∧
      ((∃ data, Cut reads.flatten data ∧ Carries data t) ∨
        ∃ data, Cut reads.flatten data ∧ CarriesShort data t) := by
    rw [htypes, ← exists_or]
    simp only [and_or_left]
  rw [hseen]
  cases hbefore : before.check t with
  | true => exact iff_of_true (iff_of_true (.inl rfl) (.inl rfl)) fun h => by contradiction
  | false =>
    rw [or_iff_right Bool.false_ne_true, or_iff_right Bool.false_ne_true, imp_iff_right rfl,
      and_congr_right_iff, or_iff_left_iff_imp]

/-- **A frame that is no message.** It has no payload, and its checksum is read as a type. -/
theorem not_types_observed_empty :
    ∃ st typeset, (Stream.start (some .init)).receive [emptyFrame] = some st ∧
      st.rtcmInfo = some typeset ∧ typeset.check 1150 = true ∧
      ¬ ∃ data, Cut emptyFrame data ∧ Carries data 1150 := by
  obtain ⟨st, typeset, hst, hinfo, htypes⟩ := exists_types_seen .init [emptyFrame]
  have htokens : (framer.tokens emptyFrame).1 = [.frame emptyFrame] := by
    have hcut : framer.cut emptyFrame = some (.frame emptyFrame, []) := by decide
    rw [framer.tokens_of_cut hcut, framer.tokens_of_cut_none rfl]
  have hcut : Cut emptyFrame emptyFrame := by
    refine ⟨?_, by decide +kernel⟩
    rw [htokens]
    exact List.mem_singleton_self _
  refine ⟨st, typeset, hst, hinfo, (htypes 1150).mpr (Or.inr ⟨by decide, emptyFrame, hcut,
    Or.inr ⟨by decide, by decide⟩⟩), ?_⟩
  rintro ⟨data, hdata, hcarries⟩
  have hmem := hdata.1
  rw [htokens, List.mem_singleton] at hmem
  rw [Token.frame.inj hmem] at hcarries
  exact absurd hcarries.1 (by decide)

end Rtcm

end ChilopodCaster
