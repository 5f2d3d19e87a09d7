import ChilopodCaster.Lib.Loop
import ChilopodCaster.Lib.Tokenizer
import ChilopodCaster.Rtcm.Crc

/-!
# RTCM framing

What a source sends is a stream of RTCM frames, possibly with other bytes between them.
`rtcm_packet_handle` is called each time bytes have been added to the input of the session: it cuts
off the complete frames and the runs of other bytes, and passes each one to the subscribers of the
source as a packet.

The abstract framer is a `Tokenizer`: a byte other than the preamble is a token of its own, and a
preamble starts a frame whose length is in its header. It says nothing about reads, and the loop of
the source is shown to follow it. A packet of other bytes stands for as many tokens as it has bytes,
since where such a run is cut depends on what had arrived.

## Main definitions

* `Typeset` — the set of message types seen, `struct rtcm_typeset`
* `Stream` — the part of a session the framer works on
* `rtcmPacketHandle` — `rtcm_packet_handle`
* `Stream.receive` — one call for each read of a list of reads
* `framer` — the abstract framer

## Main results

* `rtcmPacketHandle_follows` — one call does what the abstract framer does
* `receive_conserves_stream` — a whole run, for every split of the stream
-/

namespace ChilopodCaster

namespace Rtcm

open Bits Bitfield

/-! ### Message types seen -/

/-- `struct rtcm_typeset`: a bit for each type from 1000 to 1230, and one for each type from 4000 to
4095. -/
structure Typeset where
  set1k : Vector Byte 29
  set4k : Vector Byte 12
  deriving DecidableEq

/-- `setbit_atomic`. These bit fields count from the least significant bit of each byte. -/
def setbitAtomic {n : ℕ} (d : Vector Byte n) (beg : ℕ) (h : beg / 8 < n) : Vector Byte n :=
  d.set (beg / 8) (d[beg / 8] ||| (1#8 <<< (beg % 8))) h

/-- `rtcm_typeset_init`. -/
def Typeset.init : Typeset := ⟨Vector.replicate 29 0, Vector.replicate 12 0⟩

/-- `rtcm_typeset_set`: a type outside both ranges is refused. -/
def Typeset.set (this : Typeset) (type : ℕ) : Option Typeset :=
  if h : 1000 ≤ type ∧ type ≤ 1230 then
    some { this with set1k := setbitAtomic this.set1k (type - 1000) (by omega) }
  else if h : 4000 ≤ type ∧ type ≤ 4095 then
    some { this with set4k := setbitAtomic this.set4k (type - 4000) (by omega) }
  else none

/-! ### The framer of the source -/

/-- The part of a session, and of the source it feeds, that `rtcm_packet_handle` works on.
`receivedBytes` is a 64-bit counter of bytes, which no session makes wrap. -/
structure Stream where
  /-- `st->input` -/
  input : List Byte
  /-- `st->received_bytes` -/
  receivedBytes : ℕ
  /-- the packets passed to `livesource_send_subscribers`, in order -/
  sent : List Packet
  /-- `st->rtcm_info->typeset`, when the session has an `rtcm_info` -/
  rtcmInfo : Option Typeset
  /-- the packets `rtcm_handler_pos` has been queued for -/
  posJobs : List Packet

/-- `rtcm_handler`. Its calls of `rtcm_typeset_set` ignore the returned error. -/
def rtcmHandler (st : Stream) (p : Packet) : Option Stream := do
  match st.rtcmInfo with
  | none => return st
  | some typeset =>
    let type ← rtcmGetType p
    let st := { st with rtcmInfo := some ((typeset.set type.toNat).getD typeset) }
    if ((type = 1005 ∧ p.datalen = 25) ∨ (type = 1006 ∧ p.datalen = 27)) ∧ (rtcmCrcCheck p).1 then
      return { st with posJobs := st.posJobs ++ [p] }
    else return st

/-- The preamble of a frame. -/
def preamble : Byte := 0xd3

/-- The raw run before the first preamble is taken off the input and passed on. -/
def sendRaw (st : Stream) (len : ℕ) : Stream :=
  { st with
    input := st.input.drop len
    receivedBytes := st.receivedBytes + len
    sent := st.sent ++ [Packet.new (st.input.take len)] }

/-- A whole frame is taken off the input, checked, and passed on whether or not its checksum is
right. -/
def sendFrame (st : Stream) (lenRtcm : ℕ) : Option Stream := do
  let rtcmp : Packet := ⟨.rtcmUnchecked, st.input.take lenRtcm⟩
  let st := { st with
    input := st.input.drop lenRtcm
    receivedBytes := st.receivedBytes + lenRtcm }
  let (ok, rtcmp) := rtcmCrcCheck rtcmp
  -- the type is read for the log before `rtcm_handler` reads it again
  let st ← if ok then rtcmGetType rtcmp >>= fun _ => rtcmHandler st rtcmp else some st
  return { st with sent := st.sent ++ [rtcmp] }

/-- `len_rtcm`, computed from the second and third bytes of a frame. -/
def lenRtcm (mem₁ mem₂ : Byte) : ℕ := (mem₁ &&& 3).toNat * 256 + mem₂.toNat + 6

/-- One round of the loop of `rtcm_packet_handle`, on the session and the value to return. Returning
`none` stands for a read outside a packet. -/
def handleBody (s : Stream × Bool) : (Stream × Bool) ⊕ Option (Stream × Bool) :=
  let (st, r) := s
  let maxLen := st.input.length
  let len := (st.input.findIdx? (· = preamble)).getD maxLen
  let (st, r) := if len ≠ 0 then (sendRaw st len, true) else (st, r)
  let maxLen := maxLen - len
  if maxLen = 0 then .inr (some (st, r))
  else
    -- `evbuffer_pullup(input, 3)`
    match st.input with
    | _ :: mem₁ :: mem₂ :: _ =>
      if lenRtcm mem₁ mem₂ > maxLen then .inr (some (st, r))
      else
        match sendFrame st (lenRtcm mem₁ mem₂) with
        | some st => .inl (st, true)
        | none => .inr none
    | _ => .inr (some (st, r))

/-- `rtcm_packet_handle`: the session after the call and the value returned. -/
def rtcmPacketHandle (st : Stream) : Option (Stream × Bool) :=
  (Loop.run handleBody (st.input.length + 1) (st, false)).join

/-- The session after a list of reads, `rtcm_packet_handle` being called after each one. -/
def Stream.receive (st : Stream) : List (List Byte) → Option Stream
  | [] => some st
  | read :: reads => do
    let (st, _) ← rtcmPacketHandle { st with input := st.input ++ read }
    st.receive reads

/-- A session whose source is about to send. -/
def Stream.start (rtcmInfo : Option Typeset) : Stream :=
  ⟨[], 0, [], rtcmInfo, []⟩

/-! ### The abstract framer -/

/-- What a stream is made of. -/
inductive Token
  | raw (b : Byte)
  | frame (data : List Byte)
  deriving DecidableEq, Repr

/-- The first token of a buffer. -/
def cutToken : List Byte → Option (Token × List Byte)
  | [] => none
  | b :: rest =>
    if b ≠ preamble then some (.raw b, rest)
    else
      match rest with
      | mem₁ :: mem₂ :: _ =>
        if lenRtcm mem₁ mem₂ ≤ rest.length + 1 then
          some (.frame ((b :: rest).take (lenRtcm mem₁ mem₂)),
            (b :: rest).drop (lenRtcm mem₁ mem₂))
        else none
      | _ => none

theorem cutToken_preamble {mem₁ mem₂ : Byte} {tail : List Byte}
    (h : lenRtcm mem₁ mem₂ ≤ tail.length + 3) :
    cutToken (preamble :: mem₁ :: mem₂ :: tail) =
      some (.frame ((preamble :: mem₁ :: mem₂ :: tail).take (lenRtcm mem₁ mem₂)),
        (preamble :: mem₁ :: mem₂ :: tail).drop (lenRtcm mem₁ mem₂)) := by
  simp only [cutToken, ne_eq, not_true_eq_false, if_false, List.length_cons]
  rw [if_pos (by omega)]

/-- The frames a buffer starts with, spelled out. -/
theorem cutToken_cases {x r : List Byte} {t : Token} (h : cutToken x = some (t, r)) :
    (∃ b, b ≠ preamble ∧ x = b :: r ∧ t = .raw b) ∨
    (∃ mem₁ mem₂ tail, x = preamble :: mem₁ :: mem₂ :: tail ∧ lenRtcm mem₁ mem₂ ≤ x.length ∧
      t = .frame (x.take (lenRtcm mem₁ mem₂)) ∧ r = x.drop (lenRtcm mem₁ mem₂)) := by
  unfold cutToken at h
  split at h
  · contradiction
  · next b rest =>
    split at h
    · next hb =>
      obtain ⟨rfl, rfl⟩ := Prod.mk.injEq .. ▸ Option.some.inj h
      exact .inl ⟨b, hb, rfl, rfl⟩
    · next hb =>
      split at h
      · next mem₁ mem₂ tail =>
        split at h
        · next hlen =>
          obtain ⟨rfl, rfl⟩ := Prod.mk.injEq .. ▸ Option.some.inj h
          rw [not_not.mp hb]
          exact .inr ⟨mem₁, mem₂, tail, rfl, by simpa using hlen, rfl, rfl⟩
        · contradiction
      · contradiction

/-- **The abstract framer.** -/
def framer : Tokenizer Byte Token where
  cut := cutToken
  progress := by
    intro x t r h
    rcases cutToken_cases h with ⟨b, -, rfl, -⟩ | ⟨mem₁, mem₂, tail, rfl, -, -, rfl⟩
    · simp
    · simp only [List.length_drop, List.length_cons, lenRtcm]
      omega
  stable := by
    intro x t r y h
    rcases cutToken_cases h with ⟨b, hb, rfl, rfl⟩ | ⟨mem₁, mem₂, tail, rfl, hlen, rfl, rfl⟩
    · simp [cutToken, hb]
    · simp only [List.length_cons] at hlen
      simp only [List.cons_append]
      rw [cutToken_preamble (by simp only [List.length_append]; omega)]
      rw [← List.cons_append, ← List.cons_append, ← List.cons_append,
        List.take_append_of_le_length (by simpa using hlen),
        List.drop_append_of_le_length (by simpa using hlen)]

/-- Bytes other than the preamble are tokens of their own. -/
theorem tokens_run {run : List Byte} (hrun : ∀ b ∈ run, b ≠ preamble) (rest : List Byte) :
    framer.tokens (run ++ rest) =
      (run.map .raw ++ (framer.tokens rest).1, (framer.tokens rest).2) := by
  induction run with
  | nil => rfl
  | cons b run ih =>
    have hcut : framer.cut (b :: (run ++ rest)) = some (.raw b, run ++ rest) := by
      simp [framer, cutToken, hrun b]
    rw [List.cons_append, framer.tokens_of_cut hcut,
      ih fun c hc => hrun c (List.mem_cons_of_mem _ hc)]
    rfl

/-! ### The source follows the abstract framer -/

/-- The tokens a packet stands for. -/
def packetTokens (p : Packet) : List Token :=
  if p.rtcmState = .raw then p.data.map .raw else [.frame p.data]

/-- The packet a frame is passed on as: its bytes, and the verdict on its checksum. -/
def framePacket (data : List Byte) : Packet := (rtcmCrcCheck ⟨.rtcmUnchecked, data⟩).2

/-- A packet that starts with the preamble and is marked RTCM. -/
def IsFrame (p : Packet) : Prop := p.rtcmState ≠ .raw ∧ p.data.head? = some preamble

instance : DecidablePred IsFrame := fun _ => inferInstanceAs (Decidable (_ ∧ _))

@[simp] theorem rtcmCrcCheck_data (p : Packet) : (rtcmCrcCheck p).2.data = p.data := by
  rw [rtcmCrcCheck]
  dsimp only
  split_ifs <;> rfl

@[simp] theorem framePacket_data (data : List Byte) : (framePacket data).data = data :=
  rtcmCrcCheck_data _

theorem framePacket_ne_raw (data : List Byte) : (framePacket data).rtcmState ≠ .raw := by
  rw [framePacket, rtcmCrcCheck]
  dsimp only
  split_ifs <;> simp

/-- What the framer has done so far with the bytes received. -/
structure Follows (received : List Byte) (st : Stream) : Prop where
  /-- what it has passed on and what it holds are the stream -/
  bytes : st.sent.flatMap Packet.data ++ st.input = received
  /-- the counter counts what it has passed on -/
  count : st.receivedBytes = (st.sent.flatMap Packet.data).length
  /-- it has passed on the tokens of the stream, less those still in its input -/
  tokens : framer.tokens received =
    (st.sent.flatMap packetTokens ++ (framer.tokens st.input).1, (framer.tokens st.input).2)
  /-- what it has passed on is raw or a frame -/
  framed : ∀ p ∈ st.sent, p.rtcmState = .raw ∨ p.data.head? = some preamble ∧ p = framePacket p.data

theorem follows_start (rtcmInfo : Option Typeset) : Follows [] (.start rtcmInfo) := by
  have hnil : framer.tokens [] = ([], []) := framer.tokens_of_cut_none rfl
  exact ⟨rfl, rfl, by simp [Stream.start, hnil], by simp [Stream.start]⟩

/-- Bytes that arrive are not looked at before the next call. -/
theorem Follows.append {received : List Byte} {st : Stream} (h : Follows received st)
    (read : List Byte) : Follows (received ++ read) { st with input := st.input ++ read } where
  bytes := by rw [← h.bytes, List.append_assoc]
  count := h.count
  tokens := by
    rw [framer.tokens_append, h.tokens, framer.tokens_append st.input]
    simp only [List.append_assoc]
  framed := h.framed

theorem Follows.sendRaw {received run rest : List Byte} {st : Stream} (h : Follows received st)
    (hinput : st.input = run ++ rest) (hrun : ∀ b ∈ run, b ≠ preamble) :
    Follows received (sendRaw st run.length) := by
  have htake : st.input.take run.length = run := by rw [hinput, List.take_left']; rfl
  have hdrop : st.input.drop run.length = rest := by rw [hinput, List.drop_left']; rfl
  refine ⟨?_, ?_, ?_, ?_⟩
  · simp only [Rtcm.sendRaw, htake, hdrop, List.flatMap_append, List.flatMap_singleton, Packet.new]
    rw [List.append_assoc, ← hinput, h.bytes]
  · simp [Rtcm.sendRaw, htake, h.count, Packet.new]
  · rw [h.tokens, hinput, tokens_run hrun]
    simp [Rtcm.sendRaw, htake, hdrop, Packet.new, packetTokens]
  · intro p hp
    simp only [Rtcm.sendRaw, List.mem_append, List.mem_singleton] at hp
    rcases hp with hp | rfl
    · exact h.framed p hp
    · exact .inl rfl

/-- The type of a packet as long as the shortest frame is inside it. -/
theorem rtcmGetType_isSome {p : Packet} (h : 6 ≤ p.datalen) : (rtcmGetType p).isSome := by
  rw [rtcmGetType]
  rw [Packet.datalen] at h
  split
  · rw [getbits_eq (by rw [List.length_drop]; omega) (by decide)]
    rfl
  · rfl

theorem rtcmHandler_eq (st : Stream) {p : Packet} (h : 6 ≤ p.datalen) :
    ∃ rtcmInfo posJobs,
      rtcmHandler st p = some { st with rtcmInfo := rtcmInfo, posJobs := posJobs } := by
  obtain ⟨type, htype⟩ := Option.isSome_iff_exists.mp (rtcmGetType_isSome h)
  cases hinfo : st.rtcmInfo with
  | none =>
    have hself : { st with rtcmInfo := none } = st := by rw [← hinfo]
    refine ⟨none, st.posJobs, ?_⟩
    simp only [rtcmHandler, hinfo]
    exact congrArg some hself.symm
  | some typeset =>
    simp only [rtcmHandler, hinfo, htype, Option.pure_def, Option.bind_eq_bind, Option.bind_some]
    split
    · exact ⟨_, _, rfl⟩
    · exact ⟨_, _, rfl⟩

theorem sendFrame_eq {st : Stream} {n : ℕ} (h6 : 6 ≤ n) (hn : n ≤ st.input.length) :
    ∃ rtcmInfo posJobs, sendFrame st n = some
      { input := st.input.drop n
        receivedBytes := st.receivedBytes + n
        sent := st.sent ++ [framePacket (st.input.take n)]
        rtcmInfo := rtcmInfo
        posJobs := posJobs } := by
  have hlen : 6 ≤ (framePacket (st.input.take n)).datalen := by
    rw [Packet.datalen, framePacket_data, List.length_take]
    omega
  obtain ⟨type, htype⟩ := Option.isSome_iff_exists.mp (rtcmGetType_isSome hlen)
  obtain ⟨rtcmInfo, posJobs, hhandler⟩ := rtcmHandler_eq
    { st with input := st.input.drop n, receivedBytes := st.receivedBytes + n } hlen
  unfold framePacket at *
  cases hok : (rtcmCrcCheck ⟨.rtcmUnchecked, st.input.take n⟩).1 with
  | false => exact ⟨st.rtcmInfo, st.posJobs, by simp [sendFrame, hok]⟩
  | true => exact ⟨rtcmInfo, posJobs, by simp [sendFrame, hok, htype, hhandler]⟩

theorem Follows.sendFrame {received tail : List Byte} {mem₁ mem₂ : Byte} {st : Stream}
    (h : Follows received st) (hinput : st.input = preamble :: mem₁ :: mem₂ :: tail)
    (hlen : lenRtcm mem₁ mem₂ ≤ st.input.length) :
    ∃ st', Rtcm.sendFrame st (lenRtcm mem₁ mem₂) = some st' ∧ Follows received st' ∧
      st'.input.length < st.input.length := by
  have h6 : 6 ≤ lenRtcm mem₁ mem₂ := by rw [lenRtcm]; omega
  obtain ⟨rtcmInfo, posJobs, hst'⟩ := sendFrame_eq h6 hlen
  have hcut : framer.cut st.input = some (.frame (st.input.take (lenRtcm mem₁ mem₂)),
      st.input.drop (lenRtcm mem₁ mem₂)) := by
    rw [hinput] at hlen ⊢
    exact cutToken_preamble (by simpa using hlen)
  refine ⟨_, hst', ⟨?_, ?_, ?_, ?_⟩, ?_⟩
  · rw [List.flatMap_append, List.flatMap_singleton, framePacket_data, List.append_assoc,
      List.take_append_drop, h.bytes]
  · rw [List.flatMap_append, List.flatMap_singleton, framePacket_data, List.length_append,
      List.length_take, Nat.min_eq_left hlen, ← h.count]
  · rw [h.tokens, framer.tokens_of_cut hcut, List.flatMap_append, List.flatMap_singleton,
      packetTokens, if_neg (framePacket_ne_raw _), framePacket_data, List.append_assoc]
    rfl
  · intro p hp
    rw [List.mem_append, List.mem_singleton] at hp
    rcases hp with hp | rfl
    · exact h.framed p hp
    · refine .inr ⟨?_, by rw [framePacket_data]⟩
      rw [framePacket_data, hinput, List.head?_take, if_neg (by omega), List.head?_cons]
  · rw [List.length_drop]
    omega

/-- The run before the first preamble, as the source computes its length. -/
theorem exists_run (input : List Byte) :
    ∃ run rest, input = run ++ rest ∧ (∀ b ∈ run, b ≠ preamble) ∧
      (input.findIdx? (· = preamble)).getD input.length = run.length ∧
      (rest = [] ∨ ∃ tail, rest = preamble :: tail) := by
  induction input with
  | nil => exact ⟨[], [], rfl, by simp, rfl, .inl rfl⟩
  | cons b input ih =>
    by_cases hb : b = preamble
    · exact ⟨[], b :: input, rfl, by simp, by simp [List.findIdx?_cons, hb],
        .inr ⟨input, by rw [hb]⟩⟩
    · obtain ⟨run, rest, hinput, hrun, hlen, hrest⟩ := ih
      refine ⟨b :: run, rest, by rw [hinput, List.cons_append], ?_, ?_, hrest⟩
      · intro c hc
        rcases List.mem_cons.mp hc with rfl | hc
        · exact hb
        · exact hrun c hc
      · rw [List.findIdx?_cons, List.length_cons, List.length_cons, ← hlen]
        simp only [hb, decide_false, Bool.false_eq_true, if_false]
        cases List.findIdx? (· = preamble) input <;> rfl

/-- What holds when `rtcm_packet_handle` returns: it has gone as far as it can. -/
def Handled (received : List Byte) (o : Option (Stream × Bool)) : Prop :=
  ∃ st r, o = some (st, r) ∧ Follows received st ∧ framer.cut st.input = none

/-- One round of the loop of `rtcm_packet_handle`. -/
theorem handleBody_round {received : List Byte} (s : Stream × Bool) (h : Follows received s.1) :
    Loop.Round handleBody (fun s => Follows received s.1) (fun s => s.1.input.length)
      (Handled received) s := by
  obtain ⟨st, r⟩ := s
  obtain ⟨run, rest, hinput, hrun, hlen, hrest⟩ := exists_run st.input
  -- after the raw run, if there is one, the input is `rest`
  obtain ⟨st', r', hsend, hst', hinput', hle⟩ : ∃ st' r',
      (if run.length ≠ 0 then (sendRaw st run.length, true) else (st, r)) = (st', r') ∧
      Follows received st' ∧ st'.input = rest ∧ rest.length ≤ st.input.length := by
    have hle : rest.length ≤ st.input.length := by rw [hinput, List.length_append]; omega
    by_cases h0 : run.length = 0
    · refine ⟨st, r, by simp [h0], h, ?_, hle⟩
      rw [hinput, List.eq_nil_of_length_eq_zero h0, List.nil_append]
    · refine ⟨_, true, by rw [if_pos h0], h.sendRaw hinput hrun, ?_, hle⟩
      rw [Rtcm.sendRaw, hinput, List.drop_left']
      rfl
  have hmax : st.input.length - run.length = rest.length := by
    rw [hinput, List.length_append, Nat.add_sub_cancel_left]
  rw [Loop.Round]
  simp only [handleBody, hlen, hsend, hmax, hinput']
  rcases hrest with rfl | ⟨tail, rfl⟩
  · exact ⟨st', r', rfl, hst', by rw [hinput']; rfl⟩
  · rw [if_neg (by simp)]
    rcases tail with _ | ⟨mem₁, _ | ⟨mem₂, tail⟩⟩
    · exact ⟨st', r', rfl, hst', by rw [hinput']; rfl⟩
    · exact ⟨st', r', rfl, hst', by rw [hinput']; rfl⟩
    · dsimp only
      by_cases hshort : lenRtcm mem₁ mem₂ > (preamble :: mem₁ :: mem₂ :: tail).length
      · rw [if_pos hshort]
        refine ⟨st', r', rfl, hst', ?_⟩
        simp only [List.length_cons] at hshort
        simp only [hinput', framer, cutToken, ne_eq, not_true_eq_false, if_false, List.length_cons]
        rw [if_neg (by omega)]
      · obtain ⟨st'', hframe, hst'', hlt⟩ := hst'.sendFrame hinput' (by rw [hinput']; omega)
        rw [if_neg hshort, hframe]
        refine ⟨hst'', ?_⟩
        dsimp only
        rw [hinput'] at hlt
        omega

/-- **One call.** On a session that has followed the abstract framer so far, `rtcm_packet_handle`
returns, has followed it further, and leaves no complete token in the input. -/
theorem rtcmPacketHandle_follows {received : List Byte} {st : Stream} (h : Follows received st) :
    Handled received (rtcmPacketHandle st) := by
  obtain ⟨o, hrun, hpost⟩ := Loop.run_total _ _ handleBody_round (st.input.length + 1) (st, false) h
    (Nat.lt_succ_self _)
  rw [rtcmPacketHandle, hrun]
  exact hpost

/-- A round that goes on has read something, and so has a call that returns 1. -/
theorem handleBody_length {n : ℕ} (s : Stream × Bool)
    (h : s.1.input.length ≤ n ∧ (s.2 = true → s.1.input.length < n)) :
    Loop.Keeps handleBody
      (fun s => s.1.input.length ≤ n ∧ (s.2 = true → s.1.input.length < n))
      (fun o => ∀ r, o = some r → r.1.input.length ≤ n ∧ (r.2 = true → r.1.input.length < n))
      s := by
  obtain ⟨st, r⟩ := s
  obtain ⟨hle, hlt⟩ := h
  rw [Loop.Keeps, handleBody]
  dsimp only at hle hlt ⊢
  generalize hlen : (st.input.findIdx? (· = preamble)).getD st.input.length = len
  have hne : len ≠ 0 → 0 < st.input.length := by
    intro hlen0
    by_contra h0
    have hnil : st.input = [] := List.eq_nil_of_length_eq_zero (by omega)
    rw [hnil] at hlen
    exact hlen0 hlen.symm
  obtain ⟨st', r', hsend, hinput, hle', hlt'⟩ : ∃ st' r',
      (if len ≠ 0 then (sendRaw st len, true) else (st, r)) = (st', r') ∧
      st'.input.length = st.input.length - len ∧ st'.input.length ≤ n ∧
      (r' = true → st'.input.length < n) := by
    by_cases h0 : len = 0
    · exact ⟨st, r, by simp [h0], by simp [h0], hle, hlt⟩
    · have hpos := hne h0
      refine ⟨sendRaw st len, true, by simp [h0], by simp [sendRaw], ?_, ?_⟩
      · simp only [sendRaw, List.length_drop]
        omega
      · intro _
        simp only [sendRaw, List.length_drop]
        omega
  have hkeep : ∀ r'', some (st', r') = some r'' →
      r''.1.input.length ≤ n ∧ (r''.2 = true → r''.1.input.length < n) := by
    intro r'' hr''
    rw [← Option.some.inj hr'']
    exact ⟨hle', hlt'⟩
  rw [hsend]
  dsimp only
  by_cases h0 : st.input.length - len = 0
  · rw [if_pos h0]
    exact hkeep
  · rw [if_neg h0]
    rcases hst' : st'.input with _ | ⟨mem₀, _ | ⟨mem₁, _ | ⟨mem₂, tail⟩⟩⟩
    · exact hkeep
    · exact hkeep
    · exact hkeep
    · dsimp only
      by_cases hshort : lenRtcm mem₁ mem₂ > st.input.length - len
      · rw [if_pos hshort]
        exact hkeep
      · have h6 : 6 ≤ lenRtcm mem₁ mem₂ := Nat.le_add_left 6 _
        obtain ⟨rtcmInfo, posJobs, hframe⟩ := @sendFrame_eq st' _ h6 (by omega)
        rw [if_neg hshort, hframe]
        simp only [List.length_drop]
        exact ⟨by omega, fun _ => by omega⟩

theorem rtcmPacketHandle_length {st : Stream} {r : Stream × Bool}
    (h : rtcmPacketHandle st = some r) (hr : r.2 = true) :
    r.1.input.length < st.input.length := by
  rw [rtcmPacketHandle, Option.join_eq_some_iff] at h
  exact (Loop.run_of_keeps _ _ handleBody_length ⟨Nat.le_refl _, by simp⟩ h r rfl).2 hr

theorem rtcmPacketHandle_length_le {st : Stream} {r : Stream × Bool}
    (h : rtcmPacketHandle st = some r) : r.1.input.length ≤ st.input.length := by
  rw [rtcmPacketHandle, Option.join_eq_some_iff] at h
  exact (Loop.run_of_keeps _ _ handleBody_length ⟨Nat.le_refl _, by simp⟩ h r rfl).1

/-- A run of calls, from any session that has followed the abstract framer. -/
theorem receive_follows {received : List Byte} {st : Stream} (h : Follows received st)
    (hcut : framer.cut st.input = none) (reads : List (List Byte)) :
    ∃ st', st.receive reads = some st' ∧ Follows (received ++ reads.flatten) st' ∧
      framer.cut st'.input = none := by
  induction reads generalizing received st with
  | nil => exact ⟨st, rfl, by simpa using h, hcut⟩
  | cons read reads ih =>
    obtain ⟨st₁, r, hcall, h₁, hcut₁⟩ := rtcmPacketHandle_follows (h.append read)
    obtain ⟨st₂, hrun, h₂, hcut₂⟩ := ih h₁ hcut₁
    refine ⟨st₂, ?_, by rwa [List.flatten_cons, ← List.append_assoc], hcut₂⟩
    rw [Stream.receive, hcall]
    exact hrun

/-- The frame packets the abstract framer asks for. -/
def framePackets (tokens : List Token) : List Packet :=
  tokens.filterMap fun
    | .raw _ => none
    | .frame data => some (framePacket data)

theorem framePackets_append (ts ts' : List Token) :
    framePackets (ts ++ ts') = framePackets ts ++ framePackets ts' :=
  List.filterMap_append

theorem framePackets_packetTokens {p : Packet}
    (h : p.rtcmState = .raw ∨ p.data.head? = some preamble ∧ p = framePacket p.data) :
    framePackets (packetTokens p) = [p].filter IsFrame := by
  rcases h with hraw | ⟨hhead, hp⟩
  · have hnone : framePackets (p.data.map .raw) = [] := by
      rw [framePackets, List.filterMap_map]
      exact List.filterMap_none p.data
    rw [packetTokens, if_pos hraw, hnone]
    simp [IsFrame, hraw]
  · have hne : p.rtcmState ≠ .raw := by rw [hp]; exact framePacket_ne_raw _
    rw [packetTokens, if_neg hne]
    simp [framePackets, IsFrame, hne, hhead, ← hp]

theorem filter_isFrame {sent : List Packet}
    (h : ∀ p ∈ sent, p.rtcmState = .raw ∨ p.data.head? = some preamble ∧ p = framePacket p.data) :
    sent.filter IsFrame = framePackets (sent.flatMap packetTokens) := by
  induction sent with
  | nil => rfl
  | cons p sent ih =>
    rw [List.flatMap_cons, framePackets_append, ← ih fun q hq => h q (List.mem_cons_of_mem _ hq),
      framePackets_packetTokens (h p (List.mem_cons_self ..)), ← List.filter_append,
      List.singleton_append]

/-- **Framing conserves the stream and does not depend on how it is split.** For every split of a
stream into reads every call returns, and after the calls the packets passed on, followed by what is
left in the input, are the bytes received; the counter of received bytes is their total length; and
the frame packets are those that the framer cuts from the whole stream. As the reads are any list,
this is so after each call of a longer run. -/
theorem receive_conserves_stream (rtcmInfo : Option Typeset) (reads : List (List Byte)) :
    ∃ st, (Stream.start rtcmInfo).receive reads = some st ∧
      st.sent.flatMap Packet.data ++ st.input = reads.flatten ∧
      st.receivedBytes = (st.sent.map Packet.datalen).sum ∧
      st.sent.filter IsFrame = framePackets (framer.tokens reads.flatten).1 := by
  obtain ⟨st, hst, h, hcut⟩ := receive_follows (follows_start rtcmInfo) rfl reads
  rw [List.nil_append] at h
  refine ⟨st, hst, h.bytes, ?_, ?_⟩
  · rw [h.count, List.length_flatMap]
    rfl
  · rw [filter_isFrame h.framed, h.tokens, framer.tokens_of_cut_none hcut, List.append_nil]

end Rtcm

end ChilopodCaster
