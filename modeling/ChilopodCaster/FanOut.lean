import ChilopodCaster.Livesource
import ChilopodCaster.VirtualSwitch

/-!
# Sending a packet to the subscribers

`livesource_send_subscribers` sends each packet of a livesource to its subscribers. A session gets
what its own state and its own filter say: nothing while it waits for a position, the packet if its
filter passes it, otherwise what its filter converts it to, if anything. A filter belongs to a
configuration, and during a reload the sessions of one livesource may have different ones.

The conversion is done once: the loop keeps the converted packet in `pconv` and sends it to every
later session whose filter does not pass the packet. It is never asked whether the filter of that
session converts it.

The packet is marked once its checksum has been found right. The mark is left out here, as a filter
gives the same answers then.

## Main definitions

* `Receiver` — what the loop reads and writes of a session
* `Livesource.livesourceSendSubscribers` — the function, with the loop and what follows it
* `Receiver.reference` — what a session is to be sent, by its own state alone
* `FansOut` — every live session that is not backlogged is sent this

## Main results

* `fansOut_iff` — when it is
-/

namespace ChilopodCaster

open Rtcm

namespace Rtcm

/-- `rtcm_filter_pass`, where the pointer may be `NULL`. -/
def passOf (this : Option Filter) (packet : Packet) : Option Bool :=
  if packet.rtcmState = .raw then some false else this.bind fun f => rtcmFilterPass f packet

/-- `rtcm_filter_convert`, where the pointer may be `NULL`. -/
def convertOf (junk : ℕ → Byte) (this : Option Filter) (packet : Packet) :
    Option (Option Packet) :=
  match this with
  | none => some none
  | some f => rtcmFilterConvert junk f packet

theorem rtcmState_crcCheck {packet : Packet} (hraw : packet.rtcmState ≠ .raw) :
    (rtcmCrcCheck packet).2.rtcmState ≠ .raw := by
  rw [rtcmCrcCheck]
  dsimp only
  split_ifs <;> simp [hraw]

theorem rtcmGetType_crcCheck {packet : Packet} (hraw : packet.rtcmState ≠ .raw) :
    rtcmGetType (rtcmCrcCheck packet).2 = rtcmGetType packet := by
  rw [rtcmGetType, rtcmGetType, if_pos hraw, if_pos (rtcmState_crcCheck hraw), rtcmCrcCheck_data]

/-- The packet has a type, if it is not raw. -/
def Readable (packet : Packet) : Prop := packet.rtcmState = .raw ∨ (rtcmGetType packet).isSome

instance (packet : Packet) : Decidable (Readable packet) := inferInstanceAs (Decidable (_ ∨ _))

variable {junk : ℕ → Byte} {packet : Packet}

/-- A filter that is there answers for every packet that has a type. -/
theorem exists_passOf (hreadable : Readable packet) (f : Filter) :
    ∃ b, passOf (some f) packet = some b := by
  rw [passOf]
  split
  · exact ⟨false, rfl⟩
  · next hraw =>
    obtain ⟨type, htype⟩ := Option.isSome_iff_exists.mp (hreadable.resolve_left hraw)
    refine ⟨f.passes.check type.toNat, ?_⟩
    rw [Option.bind_some, rtcmFilterPass, if_neg hraw, htype]
    rfl

theorem exists_convertOf (junk : ℕ → Byte) (hreadable : Readable packet) (f : Option Filter) :
    ∃ q, convertOf junk f packet = some q := by
  cases f with
  | none => exact ⟨none, rfl⟩
  | some f =>
    simp only [convertOf, rtcmFilterConvert]
    by_cases hraw : packet.rtcmState = .raw
    · exact ⟨none, by rw [if_pos hraw]; rfl⟩
    have htype : (rtcmGetType packet).isSome := hreadable.resolve_left hraw
    obtain ⟨type, htype'⟩ := Option.isSome_iff_exists.mp htype
    have hconvert := fun msmVersion => exists_rtcmConvertMsm7
      (by rw [rtcmGetType_crcCheck hraw]; exact htype) junk msmVersion
    rw [if_neg hraw, htype', Option.bind_eq_bind, Option.bind_some]
    split
    · exact ⟨none, rfl⟩
    · split
      · exact ⟨none, rfl⟩
      · cases f.conversion with
        | msm7To3 => exact hconvert 3
        | msm7To4 => exact hconvert 4

/-- Two filters that convert the packet convert it to the same: the version they ask for is not
used. -/
theorem convertOf_unique {f f' : Option Filter} {q q' : Packet}
    (h : convertOf junk f packet = some (some q)) (h' : convertOf junk f' packet = some (some q')) :
    q = q' := by
  have hmsm : ∀ {f : Option Filter} {q : Packet}, convertOf junk f packet = some (some q) →
      rtcmConvertMsm7 junk (rtcmCrcCheck packet).2 4 = some (some q) := by
    intro f q h
    cases f with
    | none => simp [convertOf] at h
    | some f =>
      simp only [convertOf, rtcmFilterConvert] at h
      split at h
      · simp at h
      · obtain ⟨type, -, h⟩ := Option.bind_eq_some_iff.mp h
        split at h
        · simp at h
        · split at h
          · simp at h
          · cases hconversion : f.conversion <;> rw [hconversion] at h <;> exact h
  exact Option.some.inj (Option.some.inj ((hmsm h).symm.trans (hmsm h')))

end Rtcm

/-! ### The loop -/

/-- What `livesource_send_subscribers` reads and writes of a session. -/
structure Receiver where
  /-- whether `ntrip_get_state` is `NTRIP_END` -/
  ended : Bool
  /-- the packets in the output of the bufferevent -/
  output : List (List Byte)
  rtcmClientState : RtcmClientState
  useRtcmFilter : Bool
  /-- the field `config->dyn->rtcm_filter` -/
  rtcmFilter : Option Filter

/-- The length of the output. -/
def Receiver.backlogLen (st : Receiver) : ℕ := st.output.flatten.length

/-- `packet_send`, if there is a packet. -/
def Receiver.packetSend (st : Receiver) (p : Option Packet) : Receiver :=
  { st with output := st.output ++ (p.map Packet.data).toList }

/-- The packet `p` that is sent to a session, and `pconv` afterwards. -/
def Receiver.choosePacket (junk : ℕ → Byte) (packet : Packet) (st : Receiver)
    (pconv : Option Packet) : Option (Option Packet × Option Packet) :=
  if st.useRtcmFilter then
    (passOf st.rtcmFilter packet).bind fun pass =>
      if pass then some (some packet, pconv)
      else if pconv.isSome then some (pconv, pconv)
      else (convertOf junk st.rtcmFilter packet).map fun q => (q, q)
  else some (some packet, pconv)

namespace Livesource

theorem counted_setBacklogLen (this : Livesource) (f : Subscriber → Subscriber) :
    this.nsubs = (this.subscribers.map f).length := by
  rw [List.length_map, this.counted]

theorem distinct_setBacklogLen (this : Livesource) (st len : ℕ) :
    ((this.subscribers.map fun np =>
      if np.ntripState = st then { np with backlogLen := len } else np).map
        Subscriber.ntripState).Nodup := by
  have hsame : (Subscriber.ntripState ∘ fun np : Subscriber =>
      if np.ntripState = st then { np with backlogLen := len } else np) =
      Subscriber.ntripState := by
    funext np
    simp only [Function.comp_apply]
    split_ifs <;> rfl
  rw [List.map_map, hsame]
  exact this.distinct

/-- The store to `np->backlog_len`. -/
def setBacklogLen (this : Livesource) (st len : ℕ) : Livesource where
  mountpoint := this.mountpoint
  subscribers := this.subscribers.map fun np =>
    if np.ntripState = st then { np with backlogLen := len } else np
  nsubs := this.nsubs
  npackets := this.npackets
  state := this.state
  type := this.type
  counted := counted_setBacklogLen this _
  distinct := distinct_setBacklogLen this st len

/-- The variables of the loop. -/
structure Sends where
  this : Livesource
  sessions : ℕ → Receiver
  pconv : Option Packet
  n : ℕ
  nbacklogged : ℕ

/-- The loop of `livesource_send_subscribers`, for one subscriber. -/
def sendSubscriber (junk : ℕ → Byte) (backlogEvbuffer : ℕ) (packet : Packet) (isPos : Bool)
    (r : Sends) (np : Subscriber) : Option Sends :=
  let st := r.sessions np.ntripState
  let r := { r with n := r.n + 1 }
  if st.ended then some r
  else
    let r := { r with this := r.this.setBacklogLen np.ntripState st.backlogLen }
    if backlogEvbuffer < st.backlogLen then some { r with nbacklogged := r.nbacklogged + 1 }
    else if st.rtcmClientState = .posWait ∧ !isPos then some r
    else
      let st := { st with rtcmClientState := .posOk }
      (st.choosePacket junk packet r.pconv).map fun (p, pconv) =>
        { r with
          pconv := pconv
          sessions := Function.update r.sessions np.ntripState (st.packetSend p) }

/-- What `livesource_send_subscribers` leaves: the livesource and what was killed in it, the
sessions and the count it returns. -/
structure Sent where
  killed : Killed
  sessions : ℕ → Receiver
  n : ℕ

/-- `livesource_send_subscribers`, for a livesource that is not dead. An assertion that fails is
`none`, as is a filter that is read through `NULL`. -/
def livesourceSendSubscribers (junk : ℕ → Byte) (this : Livesource) (sessions : ℕ → Receiver)
    (backlogEvbuffer : ℕ) (packet : Packet) : Option Sent := do
  let isPos := rtcmPacketIsPos packet
  let r ← this.subscribers.foldlM (sendSubscriber junk backlogEvbuffer packet isPos)
    ⟨{ this with npackets := this.npackets + 1 }, sessions, none, 0, 0⟩
  guard (r.n = r.this.nsubs)
  if r.nbacklogged ≠ 0 then
    return ⟨r.this.killSubscribersUnlocked 1 backlogEvbuffer, r.sessions, r.n⟩
  return ⟨⟨r.this, 0, [], []⟩, r.sessions, r.n⟩

end Livesource

/-! ### What each session is to be sent -/

/-- What the session is to be sent, by its own state and its own filter. -/
def Receiver.reference (junk : ℕ → Byte) (packet : Packet) (st : Receiver) : Option Packet :=
  if st.rtcmClientState = .posWait ∧ !rtcmPacketIsPos packet then none
  else if !st.useRtcmFilter ∨ passOf st.rtcmFilter packet = some true then some packet
  else (convertOf junk st.rtcmFilter packet).join

/-- A session that is live and not backlogged has been sent what it was to be sent. -/
def Receiver.Served (junk : ℕ → Byte) (backlogEvbuffer : ℕ) (packet : Packet)
    (st st' : Receiver) : Prop :=
  st.ended = false → st.backlogLen ≤ backlogEvbuffer →
    st'.output = st.output ++ ((st.reference junk packet).map Packet.data).toList

/-- The function returns, and all its sessions have been served. -/
def FansOut (junk : ℕ → Byte) (this : Livesource) (sessions : ℕ → Receiver) (backlogEvbuffer : ℕ)
    (packet : Packet) : Prop :=
  ∃ r, this.livesourceSendSubscribers junk sessions backlogEvbuffer packet = some r ∧
    ∀ np ∈ this.subscribers,
      (sessions np.ntripState).Served junk backlogEvbuffer packet (r.sessions np.ntripState)

namespace Receiver

/-- The session passes the tests of the loop. -/
def Due (backlogEvbuffer : ℕ) (packet : Packet) (st : Receiver) : Prop :=
  st.ended = false ∧ st.backlogLen ≤ backlogEvbuffer ∧
    ¬ (st.rtcmClientState = .posWait ∧ !rtcmPacketIsPos packet)

/-- The packet goes through the filter of the session. -/
def Filters (backlogEvbuffer : ℕ) (packet : Packet) (st : Receiver) : Prop :=
  st.Due backlogEvbuffer packet ∧ st.useRtcmFilter

/-- The filter is there, and the packet has a type; a raw packet is not looked at. -/
def Usable (packet : Packet) (st : Receiver) : Prop :=
  packet.rtcmState = .raw ∨ st.rtcmFilter.isSome ∧ (rtcmGetType packet).isSome

/-- The filter of the session neither passes nor converts the packet. -/
def Drops (junk : ℕ → Byte) (packet : Packet) (st : Receiver) : Prop :=
  passOf st.rtcmFilter packet = some false ∧ convertOf junk st.rtcmFilter packet = some none

/-- The filter of the session does not pass the packet, and converts it. -/
def Converts (junk : ℕ → Byte) (packet : Packet) (st : Receiver) : Prop :=
  passOf st.rtcmFilter packet = some false ∧
    ∃ q, convertOf junk st.rtcmFilter packet = some (some q)

end Receiver

/-- Every session whose packet goes through a filter has one, and none of those whose filter drops
the packet comes after one whose filter converts it. -/
structure FiltersAgree (junk : ℕ → Byte) (subscribers : List Subscriber) (sessions : ℕ → Receiver)
    (backlogEvbuffer : ℕ) (packet : Packet) : Prop where
  usable : ∀ np ∈ subscribers, (sessions np.ntripState).Filters backlogEvbuffer packet →
    (sessions np.ntripState).Usable packet
  order : subscribers.Pairwise fun np np' =>
    (sessions np.ntripState).Filters backlogEvbuffer packet →
      (sessions np'.ntripState).Filters backlogEvbuffer packet →
        (sessions np.ntripState).Converts junk packet →
          ¬ (sessions np'.ntripState).Drops junk packet

/-! ### One subscriber -/

namespace Receiver

variable {junk : ℕ → Byte} {packet : Packet} {st : Receiver} {backlogEvbuffer : ℕ}

theorem Usable.cases (junk : ℕ → Byte) (h : st.Usable packet) :
    passOf st.rtcmFilter packet = some true ∨ st.Drops junk packet ∨ st.Converts junk packet := by
  have hreadable : Readable packet := h.imp_right And.right
  have hpass : ∃ b, passOf st.rtcmFilter packet = some b := by
    rcases h with hraw | ⟨hfilter, -⟩
    · exact ⟨false, by rw [passOf, if_pos hraw]⟩
    · obtain ⟨f, hf⟩ := Option.isSome_iff_exists.mp hfilter
      rw [hf]
      exact exists_passOf hreadable f
  obtain ⟨b, hb⟩ := hpass
  obtain ⟨q, hq⟩ := exists_convertOf junk hreadable st.rtcmFilter
  cases b with
  | true => exact .inl hb
  | false =>
    cases q with
    | none => exact .inr (.inl ⟨hb, hq⟩)
    | some q => exact .inr (.inr ⟨hb, q, hq⟩)

theorem Drops.not_converts (h : st.Drops junk packet) : ¬ st.Converts junk packet := by
  rintro ⟨-, q, hq⟩
  rw [h.2] at hq
  exact absurd (Option.some.inj hq) (Option.some_ne_none q).symm

theorem passOf_of_not_usable (h : ¬ st.Usable packet) : passOf st.rtcmFilter packet = none := by
  rw [Usable, not_or, not_and_or] at h
  obtain ⟨hraw, h⟩ := h
  rw [passOf, if_neg hraw]
  rcases h with h | h
  · rw [Option.not_isSome_iff_eq_none.mp h]
    rfl
  · cases st.rtcmFilter with
    | none => rfl
    | some f =>
      rw [Option.bind_some, rtcmFilterPass, if_neg hraw, Option.not_isSome_iff_eq_none.mp h]
      rfl

theorem choosePacket_of_pass
    (h : st.useRtcmFilter = false ∨ passOf st.rtcmFilter packet = some true)
    (pconv : Option Packet) :
    st.choosePacket junk packet pconv = some (some packet, pconv) := by
  rw [choosePacket]
  rcases h with h | h
  · rw [if_neg (by rw [h]; decide)]
  · rw [h]
    split <;> rfl

theorem choosePacket_of_drops (huse : st.useRtcmFilter) (h : st.Drops junk packet)
    (pconv : Option Packet) : st.choosePacket junk packet pconv = some (pconv, pconv) := by
  rw [choosePacket, if_pos huse, h.1, h.2]
  cases pconv <;> rfl

/-- The kept packet is what the filter of the session would have made. -/
theorem choosePacket_of_converts (huse : st.useRtcmFilter)
    (hpass : passOf st.rtcmFilter packet = some false) {q : Packet}
    (hq : convertOf junk st.rtcmFilter packet = some (some q)) {pconv : Option Packet}
    (hpconv : ∀ q ∈ pconv, ∃ f, convertOf junk f packet = some (some q)) :
    st.choosePacket junk packet pconv = some (some q, some q) := by
  rw [choosePacket, if_pos huse, hpass, hq]
  cases pconv with
  | none => rfl
  | some q' =>
    obtain ⟨f, hf⟩ := hpconv q' rfl
    rw [convertOf_unique hq hf]
    rfl

theorem choosePacket_of_not_usable (huse : st.useRtcmFilter) (h : ¬ st.Usable packet)
    (pconv : Option Packet) : st.choosePacket junk packet pconv = none := by
  rw [choosePacket, if_pos huse, passOf_of_not_usable h]
  rfl

theorem served_packetSend (hdue : st.Due backlogEvbuffer packet) {p : Option Packet} :
    st.Served junk backlogEvbuffer packet
      (packetSend { st with rtcmClientState := .posOk } p) ↔
        (p.map Packet.data).toList = ((st.reference junk packet).map Packet.data).toList := by
  constructor
  · intro h
    exact List.append_cancel_left (h hdue.1 hdue.2.1)
  · intro h _ _
    exact congrArg (st.output ++ ·) h

theorem reference_of_due (junk : ℕ → Byte) (hdue : st.Due backlogEvbuffer packet) :
    st.reference junk packet =
      if !st.useRtcmFilter ∨ passOf st.rtcmFilter packet = some true then some packet
      else (convertOf junk st.rtcmFilter packet).join := by
  rw [reference, if_neg hdue.2.2]

end Receiver

namespace Livesource

variable {junk : ℕ → Byte} {packet : Packet} {backlogEvbuffer : ℕ} {r r' : Sends}
  {np : Subscriber} {sessions : ℕ → Receiver}

/-- What one round leaves alone. -/
structure Sends.Next (r r' : Sends) (np : Subscriber) : Prop where
  n : r'.n = r.n + 1
  nsubs : r'.this.nsubs = r.this.nsubs
  others : ∀ st, st ≠ np.ntripState → r'.sessions st = r.sessions st

theorem sendSubscriber_of_not_due (junk : ℕ → Byte)
    (h : ¬ (r.sessions np.ntripState).Due backlogEvbuffer packet) :
    ∃ r', sendSubscriber junk backlogEvbuffer packet (rtcmPacketIsPos packet) r np = some r' ∧
      r.Next r' np ∧ r'.pconv = r.pconv ∧ r'.sessions = r.sessions := by
  dsimp only [sendSubscriber]
  split
  · exact ⟨_, rfl, ⟨rfl, rfl, fun _ _ => rfl⟩, rfl, rfl⟩
  split
  · exact ⟨_, rfl, ⟨rfl, rfl, fun _ _ => rfl⟩, rfl, rfl⟩
  split
  · exact ⟨_, rfl, ⟨rfl, rfl, fun _ _ => rfl⟩, rfl, rfl⟩
  · next hended hbacklog hwait =>
    exact absurd ⟨Bool.eq_false_of_not_eq_true hended, Nat.le_of_not_lt hbacklog, hwait⟩ h

theorem sendSubscriber_of_due (h : (r.sessions np.ntripState).Due backlogEvbuffer packet) :
    sendSubscriber junk backlogEvbuffer packet (rtcmPacketIsPos packet) r np =
      ((r.sessions np.ntripState).choosePacket junk packet r.pconv).map fun c =>
        { this := r.this.setBacklogLen np.ntripState (r.sessions np.ntripState).backlogLen
          sessions := Function.update r.sessions np.ntripState
            (Receiver.packetSend { r.sessions np.ntripState with rtcmClientState := .posOk } c.1)
          pconv := c.2
          n := r.n + 1
          nbacklogged := r.nbacklogged } := by
  dsimp only [sendSubscriber]
  rw [if_neg (by rw [h.1]; decide), if_neg (Nat.not_lt.mpr h.2.1), if_neg h.2.2]
  rfl

theorem next_of_due (h : (r.sessions np.ntripState).Due backlogEvbuffer packet)
    {p pconv : Option Packet}
    (hchoose : (r.sessions np.ntripState).choosePacket junk packet r.pconv = some (p, pconv)) :
    ∃ r', sendSubscriber junk backlogEvbuffer packet (rtcmPacketIsPos packet) r np = some r' ∧
      r.Next r' np ∧ r'.pconv = pconv ∧ r'.sessions np.ntripState =
        Receiver.packetSend { r.sessions np.ntripState with rtcmClientState := .posOk } p := by
  rw [sendSubscriber_of_due h, hchoose]
  exact ⟨_, rfl, ⟨rfl, rfl, fun st hst => Function.update_of_ne hst _ _⟩, rfl,
    Function.update_self _ _ _⟩

theorem next_of_eq_some
    (h : sendSubscriber junk backlogEvbuffer packet (rtcmPacketIsPos packet) r np = some r') :
    r.Next r' np := by
  by_cases hdue : (r.sessions np.ntripState).Due backlogEvbuffer packet
  · rw [sendSubscriber_of_due hdue] at h
    obtain ⟨c, hchoose, -⟩ := Option.map_eq_some_iff.mp h
    obtain ⟨r'', hr'', hnext, -⟩ := next_of_due hdue hchoose
    rw [sendSubscriber_of_due hdue, h] at hr''
    exact Option.some.inj hr'' ▸ hnext
  · obtain ⟨r'', hr'', hnext, -⟩ := sendSubscriber_of_not_due junk hdue
    rw [h] at hr''
    exact Option.some.inj hr'' ▸ hnext

/-! ### The whole list -/

theorem foldlM_frame {subs : List Subscriber}
    (h : subs.foldlM (sendSubscriber junk backlogEvbuffer packet (rtcmPacketIsPos packet)) r =
      some r') :
    r'.n = r.n + subs.length ∧ r'.this.nsubs = r.this.nsubs ∧
      ∀ st, st ∉ subs.map Subscriber.ntripState → r'.sessions st = r.sessions st := by
  induction subs generalizing r with
  | nil =>
    obtain rfl := Option.some.inj h
    exact ⟨rfl, rfl, fun _ _ => rfl⟩
  | cons np subs ih =>
    rw [List.foldlM_cons] at h
    obtain ⟨r₁, hr₁, h⟩ := Option.bind_eq_some_iff.mp h
    obtain ⟨hn, hnsubs, hothers⟩ := ih h
    have hnext := next_of_eq_some hr₁
    refine ⟨?_, hnsubs.trans hnext.nsubs, fun st hst => ?_⟩
    · rw [hn, hnext.n, List.length_cons]
      omega
    · rw [List.map_cons, List.mem_cons, not_or] at hst
      rw [hothers st hst.2, hnext.others st hst.1]

/-- The loop goes through the list, and serves all its sessions. -/
def ServesAll (junk : ℕ → Byte) (backlogEvbuffer : ℕ) (packet : Packet) (sessions : ℕ → Receiver)
    (subs : List Subscriber) (r : Sends) : Prop :=
  ∃ r', subs.foldlM (sendSubscriber junk backlogEvbuffer packet (rtcmPacketIsPos packet)) r =
    some r' ∧ ∀ np ∈ subs, (sessions np.ntripState).Served junk backlogEvbuffer packet
      (r'.sessions np.ntripState)

theorem servesAll_cons {subs : List Subscriber}
    (hne : np.ntripState ∉ subs.map Subscriber.ntripState)
    (h : sendSubscriber junk backlogEvbuffer packet (rtcmPacketIsPos packet) r np = some r') :
    ServesAll junk backlogEvbuffer packet sessions (np :: subs) r ↔
      (sessions np.ntripState).Served junk backlogEvbuffer packet (r'.sessions np.ntripState) ∧
        ServesAll junk backlogEvbuffer packet sessions subs r' := by
  rw [ServesAll, List.foldlM_cons, h]
  constructor
  · rintro ⟨r'', hr'', hall⟩
    refine ⟨?_, r'', hr'', fun q hq => hall q (List.mem_cons_of_mem _ hq)⟩
    rw [← (foldlM_frame hr'').2.2 _ hne]
    exact hall np List.mem_cons_self
  · rintro ⟨hnp, r'', hr'', hall⟩
    refine ⟨r'', hr'', fun q hq => ?_⟩
    rcases List.mem_cons.mp hq with rfl | hq
    · rw [(foldlM_frame hr'').2.2 _ hne]
      exact hnp
    · exact hall q hq

/-- No session of the list whose packet goes through its filter has a filter that drops it. -/
def NoneDrops (junk : ℕ → Byte) (backlogEvbuffer : ℕ) (packet : Packet)
    (sessions : ℕ → Receiver) (subs : List Subscriber) : Prop :=
  ∀ np ∈ subs, (sessions np.ntripState).Filters backlogEvbuffer packet →
    ¬ (sessions np.ntripState).Drops junk packet

theorem filtersAgree_cons {subs : List Subscriber} :
    FiltersAgree junk (np :: subs) sessions backlogEvbuffer packet ↔
      ((sessions np.ntripState).Filters backlogEvbuffer packet →
        (sessions np.ntripState).Usable packet ∧ ((sessions np.ntripState).Converts junk packet →
          NoneDrops junk backlogEvbuffer packet sessions subs)) ∧
        FiltersAgree junk subs sessions backlogEvbuffer packet := by
  constructor
  · rintro ⟨husable, horder⟩
    obtain ⟨hfirst, horder⟩ := List.pairwise_cons.mp horder
    refine ⟨fun hf => ⟨husable np List.mem_cons_self hf, fun hc q hq hfq => ?_⟩,
      fun q hq => husable q (List.mem_cons_of_mem _ hq), horder⟩
    exact hfirst q hq hf hfq hc
  · rintro ⟨hnp, husable, horder⟩
    refine ⟨fun q hq hf => ?_, List.pairwise_cons.mpr ⟨fun q hq hf hfq hc => ?_, horder⟩⟩
    · rcases List.mem_cons.mp hq with rfl | hq
      · exact (hnp hf).1
      · exact husable q hq hf
    · exact (hnp hf).2 hc q hq hfq

theorem noneDrops_cons {subs : List Subscriber} :
    NoneDrops junk backlogEvbuffer packet sessions (np :: subs) ↔
      ((sessions np.ntripState).Filters backlogEvbuffer packet →
        ¬ (sessions np.ntripState).Drops junk packet) ∧
        NoneDrops junk backlogEvbuffer packet sessions subs :=
  List.forall_mem_cons

/-- **The loop, from any of its states.** The sessions of the list are served if and only if their
filters agree, and none drops the packet when a converted one is kept already. -/
theorem servesAll_iff {subs : List Subscriber} (hnodup : (subs.map Subscriber.ntripState).Nodup)
    (hsame : ∀ np ∈ subs, r.sessions np.ntripState = sessions np.ntripState)
    (hpconv : ∀ q ∈ r.pconv, ∃ f, convertOf junk f packet = some (some q)) :
    ServesAll junk backlogEvbuffer packet sessions subs r ↔
      FiltersAgree junk subs sessions backlogEvbuffer packet ∧
        (r.pconv.isSome → NoneDrops junk backlogEvbuffer packet sessions subs) := by
  induction subs generalizing r with
  | nil =>
    refine iff_of_true ⟨r, rfl, fun np hnp => by contradiction⟩ ⟨⟨?_, .nil⟩, ?_⟩
    · exact fun np hnp => by contradiction
    · exact fun _ np hnp => by contradiction
  | cons np subs ih =>
    rw [List.map_cons, List.nodup_cons] at hnodup
    obtain ⟨hne, hnodup⟩ := hnodup
    have hst := hsame np List.mem_cons_self
    have hsame' : ∀ {r' : Sends}, r.Next r' np →
        ∀ q ∈ subs, r'.sessions q.ntripState = sessions q.ntripState := by
      intro r' hnext q hq
      rw [hnext.others _ fun heq => hne (heq ▸ List.mem_map_of_mem hq)]
      exact hsame q (List.mem_cons_of_mem _ hq)
    rw [filtersAgree_cons, noneDrops_cons]
    by_cases hdue : (sessions np.ntripState).Due backlogEvbuffer packet
    · have hdue' : (r.sessions np.ntripState).Due backlogEvbuffer packet := hst ▸ hdue
      -- what the loop does with a session that is due, once the packet has been chosen
      have hcons : ∀ {p pconv : Option Packet},
          (sessions np.ntripState).choosePacket junk packet r.pconv = some (p, pconv) →
          (∀ q ∈ pconv, ∃ f, convertOf junk f packet = some (some q)) →
          (ServesAll junk backlogEvbuffer packet sessions (np :: subs) r ↔
            (p.map Packet.data).toList =
              (((sessions np.ntripState).reference junk packet).map Packet.data).toList ∧
              FiltersAgree junk subs sessions backlogEvbuffer packet ∧
                (pconv.isSome → NoneDrops junk backlogEvbuffer packet sessions subs)) := by
        intro p pconv hchoose hvalid
        obtain ⟨r', hr', hnext, hpconv', hsessions⟩ := next_of_due hdue' (hst ▸ hchoose)
        rw [servesAll_cons hne hr', hsessions, hst, Receiver.served_packetSend hdue,
          ih hnodup (hsame' hnext) (hpconv' ▸ hvalid), hpconv']
      have href := Receiver.reference_of_due junk hdue
      by_cases huse : (sessions np.ntripState).useRtcmFilter = true
      · have hfilters : (sessions np.ntripState).Filters backlogEvbuffer packet := ⟨hdue, huse⟩
        by_cases husable : (sessions np.ntripState).Usable packet
        · rcases husable.cases junk with hpass | hdrops | ⟨hpass, q, hq⟩
          · rw [if_pos (.inr hpass)] at href
            rw [hcons (Receiver.choosePacket_of_pass (.inr hpass) _) hpconv, href]
            have hnot : passOf (sessions np.ntripState).rtcmFilter packet ≠ some false := by
              rw [hpass]
              decide
            simp [hfilters, husable, Receiver.Converts, Receiver.Drops, hnot]
          · rw [if_neg (by simp [huse, hdrops.1]), hdrops.2] at href
            rw [hcons (Receiver.choosePacket_of_drops huse hdrops _) hpconv, href]
            have hnot := hdrops.not_converts
            cases r.pconv <;> simp [hfilters, husable, hdrops, hnot]
          · rw [if_neg (by simp [huse, hpass]), hq] at href
            rw [hcons (Receiver.choosePacket_of_converts huse hpass hq hpconv)
              (fun _ hmem => ⟨_, Option.some.inj hmem ▸ hq⟩), href]
            have hconverts : (sessions np.ntripState).Converts junk packet := ⟨hpass, q, hq⟩
            have hnot : ¬ (sessions np.ntripState).Drops junk packet :=
              fun hdrops => hdrops.not_converts hconverts
            simp only [hfilters, husable, hconverts, hnot, Option.join_some]
            tauto
        · refine iff_of_false ?_ fun h => husable (h.1.1 hfilters).1
          rintro ⟨r', hr', -⟩
          rw [List.foldlM_cons, sendSubscriber_of_due hdue', hst,
            Receiver.choosePacket_of_not_usable huse husable] at hr'
          contradiction
      · have hnot : ¬ (sessions np.ntripState).Filters backlogEvbuffer packet :=
          fun hf => huse hf.2
        rw [if_pos (.inl (by simp [huse]))] at href
        rw [hcons (Receiver.choosePacket_of_pass (.inl (Bool.eq_false_of_not_eq_true huse)) _)
          hpconv, href]
        simp [hnot]
    · have hnot : ¬ (sessions np.ntripState).Filters backlogEvbuffer packet := fun hf => hdue hf.1
      obtain ⟨r', hr', hnext, hpconv', hsessions⟩ :=
        sendSubscriber_of_not_due junk (hst ▸ hdue)
      have hserved : (sessions np.ntripState).Served junk backlogEvbuffer packet
          (r'.sessions np.ntripState) := by
        intro hended hbacklog
        have hwait : (sessions np.ntripState).rtcmClientState = .posWait ∧
            !rtcmPacketIsPos packet := by
          by_contra hwait
          exact hdue ⟨hended, hbacklog, hwait⟩
        rw [hsessions, hst, Receiver.reference, if_pos hwait]
        exact (List.append_nil _).symm
      rw [servesAll_cons hne hr', ih hnodup (hsame' hnext) (hpconv' ▸ hpconv), hpconv']
      simp [hserved, hnot]

end Livesource

/-- The assertion on the count holds, and what follows the loop sends nothing. -/
theorem fansOut_iff_servesAll {junk : ℕ → Byte} {this : Livesource} {sessions : ℕ → Receiver}
    {backlogEvbuffer : ℕ} {packet : Packet} :
    FansOut junk this sessions backlogEvbuffer packet ↔
      Livesource.ServesAll junk backlogEvbuffer packet sessions this.subscribers
        ⟨{ this with npackets := this.npackets + 1 }, sessions, none, 0, 0⟩ := by
  rw [FansOut]
  constructor
  · rintro ⟨sent, hsent, hserved⟩
    obtain ⟨r, hr, hsent⟩ := Option.bind_eq_some_iff.mp hsent
    obtain ⟨-, -, hsent⟩ := Option.bind_eq_some_iff.mp hsent
    refine ⟨r, hr, ?_⟩
    split at hsent <;> obtain rfl := Option.some.inj hsent <;> exact hserved
  · rintro ⟨r, hr, hserved⟩
    obtain ⟨hn, hnsubs, -⟩ := Livesource.foldlM_frame hr
    have hassert : r.n = r.this.nsubs := by
      rw [hn, hnsubs, Nat.zero_add]
      exact this.counted.symm
    simp only [Livesource.livesourceSendSubscribers, hr, Option.bind_eq_bind, Option.bind_some,
      hassert, guard_true, Option.pure_def]
    split <;> exact ⟨_, rfl, hserved⟩

/-- **The packet is fanned out as each session is to be sent it, if and only if the filters
agree.** The loop returns and serves every live session that is not backlogged exactly when each
session whose packet goes through a filter has one, and no such session whose filter drops the
packet stands in the list after one whose filter converts it. -/
theorem fansOut_iff (junk : ℕ → Byte) (this : Livesource) (sessions : ℕ → Receiver)
    (backlogEvbuffer : ℕ) (packet : Packet) :
    FansOut junk this sessions backlogEvbuffer packet ↔
      FiltersAgree junk this.subscribers sessions backlogEvbuffer packet := by
  refine fansOut_iff_servesAll.trans
    ((Livesource.servesAll_iff this.distinct (fun _ _ => rfl) ?_).trans ?_)
  · exact fun _ hq => by contradiction
  · exact and_iff_left fun h => by contradiction

/-- A set of one type. -/
def oneType (type : ℕ) : Typeset := (Typeset.init.set type).getD Typeset.init

/-- Two subscribers. -/
def twoSubscribers : Livesource where
  mountpoint := cstr "BASE"
  subscribers := [⟨0, 0, false⟩, ⟨1, 0, false⟩]
  nsubs := 2
  npackets := 0
  state := .running
  type := .direct
  counted := rfl
  distinct := by decide

/-- The first session has a filter that converts the messages of type 1077, and the second one a
newer filter, for positions only. -/
def twoFilters (st : ℕ) : Receiver where
  ended := false
  output := []
  rtcmClientState := .posOk
  useRtcmFilter := true
  rtcmFilter := some ⟨oneType 1005, oneType (if st = 0 then 1077 else 1087), .msm7To4⟩

theorem not_fansOut_twoFilters :
    ¬ FansOut (fun _ => 0) twoSubscribers twoFilters 65536 oneCellMsm7 := by
  have hobserve : (twoSubscribers.livesourceSendSubscribers (fun _ => 0) twoFilters 65536
      oneCellMsm7).map (fun r => (r.sessions 1).output.length) = some 1 := by
    decide +kernel
  have href : (twoFilters 1).reference (fun _ => 0) oneCellMsm7 = none := by decide +kernel
  rintro ⟨r, hr, hserved⟩
  have hnothing := hserved ⟨1, 0, false⟩ (by decide) rfl (Nat.zero_le _)
  rw [href] at hnothing
  rw [hr, Option.map_some, hnothing] at hobserve
  exact absurd hobserve (by decide)

end ChilopodCaster
