import ChilopodCaster.Bytes
import ChilopodCaster.Lib.Loop
import ChilopodCaster.Session
import Mathlib.Data.List.Induction

/-!
# HTTP chunk decapsulation

The input filter of a session that receives `Transfer-Encoding: chunked`. Libevent appends what it
reads to the session's raw buffer; `ntripChunkDecode` moves the payloads from there to a second
buffer, `chunkBuf`, which the rest of the session reads through `st->input`. When the final chunk is
over the filter takes itself out, *frees* `chunkBuf` and points `st->input` back at the raw buffer.

## Main definitions

* `ntripChunkDecode`, `ntripFilterRunInput`, `ntripChunkDecodeInit` — the functions of the source
* `Chunk`, `encode` — a chunked body as it travels
* `run` — reads of any size and drains of any size, in any order

## Main results

* `ntripChunkDecode_spec` — one call, on any part of a chunked body, says what it moved and where it
  stopped
* `decodesExactly_iff_drainedBeforeEnd` — nothing is lost, over a whole run, exactly when the
  consumer has emptied the decoded buffer before the read that completes the body
-/

namespace ChilopodCaster

namespace ChunkDecode

/-! ### The session and the functions of the source -/

/-- `enum ntrip_chunk_state`. -/
inductive ChunkState
  | chunkNone
  | chunkInit
  | chunkWaitLen
  | chunkInProgress
  | chunkWaitingTrailer
  | chunkLast
  | chunkErr
  | chunkEnd
  deriving DecidableEq, Repr

/-- What a filter answers, `enum bufferevent_filter_result`. -/
inductive FilterResult
  | bevOk
  | bevNeedMore
  | bevError
  deriving DecidableEq, Repr

/-- Which buffer `st->input` points at. -/
inductive InputPointer
  | rawInput
  | chunkBuf
  deriving DecidableEq, Repr

/-- The fields of `struct ntrip_state` that chunk handling reads and writes. `inFilter` tells
whether `filter.in_filter` is set: it is `ntrip_chunk_decode` when it is. -/
structure Session where
  /-- `filter.raw_input`, what libevent has read and nobody has consumed. -/
  rawInput : List Byte
  /-- `chunk_buf`, `none` for `NULL`. -/
  chunkBuf : Option (List Byte)
  input : InputPointer
  inFilter : Bool
  chunkState : ChunkState
  /-- `chunk_len`, what remains of the current chunk. -/
  chunkLen : ℕ
  receivedBytes : ℕ
  state : SessionState
  deriving DecidableEq, Repr

/-- Append to the buffer `st->input` points at, the destination the filter is given. -/
def Session.addInput (st : Session) (data : List Byte) : Session :=
  match st.input with
  | .rawInput => { st with rawInput := st.rawInput ++ data }
  | .chunkBuf => { st with chunkBuf := st.chunkBuf.map (· ++ data) }

/-- `len_done?BEV_OK:BEV_NEED_MORE`. -/
def okOrMore (lenDone : ℕ) : FilterResult := if lenDone ≠ 0 then .bevOk else .bevNeedMore

/-- The part of a size line before a chunk extension: the source writes a NUL at the first `;`, CR,
LF or NUL. -/
def cutSizeLine (line : List Byte) : List Byte :=
  line.takeWhile fun c => c ≠ 0 ∧ c ≠ 59 ∧ c ≠ LF ∧ c ≠ CR

/-- One round of the loop of `ntrip_chunk_decode`, on the session and `len_done`. -/
def ntripChunkDecodeRound : Session × ℕ → (Session × ℕ) ⊕ (FilterResult × Session)
  | (st, lenDone) =>
    let lenRaw := st.rawInput.length
    if lenRaw = 0 then .inr (okOrMore lenDone, st)
    else
      match st.chunkState with
      | .chunkWaitLen =>
        match evbufferReadlnCrlfStrict st.rawInput with
        | none => .inr (okOrMore lenDone, st)
        | some (line, rest) =>
          let st := { st with rawInput := rest }
          match sscanfZx (cutSizeLine line) with
          | none =>
            let st := { st with chunkState := .chunkErr }
            if lenDone = 0 then .inr (.bevError, { st with state := .forceClose })
            else .inr (.bevOk, st)
          | some chunkLen =>
            .inl ({ st with
              chunkState := if chunkLen = 0 then .chunkLast else .chunkInProgress
              chunkLen := chunkLen }, lenDone)
      | .chunkErr => .inr (.bevError, { st with state := .forceClose })
      | .chunkInProgress =>
        let lenUsed := if lenRaw ≤ st.chunkLen then lenRaw else st.chunkLen
        let st := ({ st with rawInput := st.rawInput.drop lenUsed }).addInput
          (st.rawInput.take lenUsed)
        .inl ({ st with
          chunkLen := st.chunkLen - lenUsed
          chunkState :=
            if st.chunkLen - lenUsed = 0 then .chunkWaitingTrailer else .chunkInProgress
          receivedBytes := st.receivedBytes + lenUsed }, lenDone + lenUsed)
      | .chunkWaitingTrailer =>
        if lenRaw < 2 then .inr (okOrMore lenDone, st)
        else .inl ({ st with rawInput := st.rawInput.drop 2, chunkState := .chunkWaitLen }, lenDone)
      | .chunkLast =>
        if lenRaw < 2 then .inr (okOrMore lenDone, st)
        else
          -- `evbuffer_free(st->chunk_buf)`, whatever it still holds
          .inr (.bevOk, { st with
            rawInput := st.rawInput.drop 2
            chunkState := .chunkEnd
            inFilter := false
            chunkBuf := none
            input := .rawInput })
      | .chunkEnd => .inr (.bevError, st)
      -- no branch of the loop is for these two states: it goes round unchanged
      | .chunkNone => .inl (st, lenDone)
      | .chunkInit => .inl (st, lenDone)

/-- `ntrip_chunk_decode`. Every round that does not return takes at least one byte from the raw
buffer in the states the filter is called in, so the number of rounds is bounded by its length. -/
def ntripChunkDecode (st : Session) : Option (FilterResult × Session) :=
  Loop.run ntripChunkDecodeRound (st.rawInput.length + 1) (st, 0)

/-- `ntrip_decref_end`, on the fields of this model. -/
def ntripDecrefEnd (st : Session) : Session :=
  if st.state = .ntripEnd then st
  else if st.chunkBuf.isSome then
    { st with state := .ntripEnd, chunkBuf := none, chunkState := .chunkNone }
  else { st with state := .ntripEnd }

/-- `ntrip_filter_run_input`: what it returns, what the filter answered if it was called, and the
session after it. -/
def ntripFilterRunInput (st : Session) : Option (ℤ × Option FilterResult × Session) :=
  if st.inFilter then
    (ntripChunkDecode st).map fun
      | (.bevNeedMore, st) => (-1, some .bevNeedMore, st)
      | (.bevError, st) => (-1, some .bevError, ntripDecrefEnd st)
      | (.bevOk, st) => (0, some .bevOk, st)
  else some (0, none, st)

/-- `ntrip_chunk_decode_init`, with the answer of the filter if it was called; the source ignores
that answer. -/
def ntripChunkDecodeInit (st : Session) : Option (Option FilterResult × Session) :=
  let st := { st with
    chunkBuf := some (st.chunkBuf.getD [])
    inFilter := true
    chunkState := .chunkWaitLen
    input := .chunkBuf }
  if 0 < st.rawInput.length then (ntripChunkDecode st).map fun r => (some r.1, r.2)
  else some (none, st)

/-! ### What a call can do to the session -/

/-- What one round does to the session, on any input. -/
inductive Moved (st : Session) : Session → Prop
  | parsed (rest : List Byte) (chunkState : ChunkState) (chunkLen : ℕ) (state : SessionState)
      (hrest : rest.length ≤ st.rawInput.length)
      (hstate : state = st.state ∨ state = .forceClose) :
      Moved st { st with
        rawInput := rest
        chunkState := chunkState
        chunkLen := chunkLen
        state := state }
  | payload (n : ℕ) (chunkState : ChunkState) (chunkLen receivedBytes : ℕ) :
      Moved st { ({ st with rawInput := st.rawInput.drop n }).addInput (st.rawInput.take n) with
        chunkState := chunkState
        chunkLen := chunkLen
        receivedBytes := receivedBytes }
  | ended (rest : List Byte) (hrest : rest.length ≤ st.rawInput.length) :
      Moved st { st with
        rawInput := rest
        chunkState := .chunkEnd
        inFilter := false
        chunkBuf := none
        input := .rawInput }

theorem Moved.refl (st : Session) : Moved st st :=
  .parsed st.rawInput st.chunkState st.chunkLen st.state (Nat.le_refl _) (.inl rfl)

theorem moved_of_round (st : Session) (lenDone : ℕ) :
    Loop.Keeps ntripChunkDecodeRound (fun s => Moved st s.1) (fun r => Moved st r.2)
      (st, lenDone) := by
  rw [Loop.Keeps, ntripChunkDecodeRound]
  dsimp only
  by_cases hraw : st.rawInput.length = 0
  · rw [if_pos hraw]
    exact .refl st
  · rw [if_neg hraw]
    cases hstate : st.chunkState with
    | chunkWaitLen =>
      dsimp only
      cases hread : evbufferReadlnCrlfStrict st.rawInput with
      | none => exact .refl st
      | some lr =>
        have hrest := Nat.le_of_lt (length_of_readln_eq_some hread)
        dsimp only
        cases sscanfZx (cutSizeLine lr.1) with
        | none =>
          by_cases h0 : lenDone = 0
          · simp only [h0, if_true]
            exact .parsed lr.2 _ _ _ hrest (.inr rfl)
          · simp only [h0, if_false]
            exact .parsed lr.2 _ _ _ hrest (.inl rfl)
        | some chunkLen => exact .parsed lr.2 _ _ _ hrest (.inl rfl)
    | chunkErr => exact .parsed _ _ _ _ (Nat.le_refl _) (.inr rfl)
    | chunkInProgress =>
      dsimp only
      rw [← hstate]
      exact (.payload _ _ _ _ : Moved st _)
    | chunkWaitingTrailer =>
      by_cases h2 : st.rawInput.length < 2
      · simp only [h2, if_true]
        exact .refl st
      · simp only [h2, if_false]
        exact .parsed _ _ _ _ (by rw [List.length_drop]; omega) (.inl rfl)
    | chunkLast =>
      by_cases h2 : st.rawInput.length < 2
      · simp only [h2, if_true]
        exact .refl st
      · simp only [h2, if_false]
        exact .ended _ (by rw [List.length_drop]; omega)
    | chunkEnd => exact .refl st
    | chunkNone => exact .refl st
    | chunkInit => exact .refl st

/-- **One call, on any input.** What every move keeps, the call keeps. -/
theorem ntripChunkDecode_keeps (Inv : Session → Prop)
    (hmoved : ∀ st st', Inv st → Moved st st' → Inv st') {st : Session}
    {r : FilterResult × Session} (hst : Inv st) (h : ntripChunkDecode st = some r) : Inv r.2 := by
  refine Loop.run_of_keeps (fun s => Inv s.1) (fun r => Inv r.2) ?_ hst h
  rintro ⟨s, lenDone⟩ hs
  have hround := moved_of_round s lenDone
  rw [Loop.Keeps] at hround ⊢
  cases hb : ntripChunkDecodeRound (s, lenDone) with
  | inl s' =>
    rw [hb] at hround
    exact hmoved s s'.1 hs hround
  | inr r =>
    rw [hb] at hround
    exact hmoved s r.2 hs hround

/-- The bytes in the two buffers. -/
def buffered (st : Session) : ℕ := st.rawInput.length + (st.chunkBuf.getD []).length

theorem buffered_addInput_le (st : Session) (data : List Byte) :
    buffered (st.addInput data) ≤ buffered st + data.length := by
  rw [Session.addInput]
  split
  · simp only [buffered, List.length_append]
    omega
  · cases hbuf : st.chunkBuf with
    | none => simp [buffered, hbuf]
    | some buf =>
      simp [buffered, hbuf]
      omega

theorem buffered_le_of_moved {st st' : Session} (h : Moved st st') :
    buffered st' ≤ buffered st := by
  cases h with
  | parsed rest chunkState chunkLen state hrest hstate =>
    simp only [buffered]
    omega
  | payload n chunkState chunkLen receivedBytes =>
    have hadd := buffered_addInput_le { st with rawInput := st.rawInput.drop n }
      (st.rawInput.take n)
    simp only [buffered, List.length_drop, List.length_take] at hadd ⊢
    omega
  | ended rest hrest =>
    simp only [buffered, Option.getD_none, List.length_nil]
    omega

/-- The filter moves bytes from one buffer to the other, or drops them. -/
theorem ntripChunkDecode_buffered {st : Session} {r : FilterResult × Session}
    (h : ntripChunkDecode st = some r) : buffered r.2 ≤ buffered st :=
  ntripChunkDecode_keeps (fun st' => buffered st' ≤ buffered st)
    (fun _ _ hst hmoved => Nat.le_trans (buffered_le_of_moved hmoved) hst) (Nat.le_refl _) h

theorem ntripChunkDecodeInit_buffered {st : Session} {r : Option FilterResult × Session}
    (h : ntripChunkDecodeInit st = some r) : buffered r.2 ≤ buffered st := by
  rw [ntripChunkDecodeInit] at h
  dsimp only at h
  have hinit : buffered { st with
      chunkBuf := some (st.chunkBuf.getD [])
      inFilter := true
      chunkState := .chunkWaitLen
      input := .chunkBuf } = buffered st := by
    simp [buffered]
  split at h
  · obtain ⟨r', hr', rfl⟩ := Option.map_eq_some_iff.mp h
    exact hinit ▸ ntripChunkDecode_buffered hr'
  · obtain rfl := Option.some.inj h
    exact Nat.le_of_eq hinit

/-- The decoder does not end the session by itself. -/
theorem state_of_moved {st st' : Session} (hm : Moved st st') (h : st.state ≠ .ntripEnd) :
    st'.state ≠ .ntripEnd := by
  cases hm with
  | parsed rest chunkState chunkLen state hrest hstate =>
    rcases hstate with rfl | rfl
    · exact h
    · simp
  | payload n chunkState chunkLen receivedBytes =>
    change (Session.addInput _ _).state ≠ _
    rw [Session.addInput]
    split <;> exact h
  | ended rest hrest => exact h

theorem state_ntripChunkDecode {st : Session} {r : FilterResult × Session}
    (hr : ntripChunkDecode st = some r) (h : st.state ≠ .ntripEnd) : r.2.state ≠ .ntripEnd :=
  ntripChunkDecode_keeps (fun st => st.state ≠ .ntripEnd) (fun _ _ hst hm => state_of_moved hm hst)
    h hr

theorem state_ntripChunkDecodeInit {st : Session} {r : Option FilterResult × Session}
    (hr : ntripChunkDecodeInit st = some r) (h : st.state ≠ .ntripEnd) :
    r.2.state ≠ .ntripEnd := by
  rw [ntripChunkDecodeInit] at hr
  dsimp only at hr
  split at hr
  · obtain ⟨r', hr', rfl⟩ := Option.map_eq_some_iff.mp hr
    exact state_ntripChunkDecode hr' h
  · rw [← Option.some.inj hr]
    exact h

/-! ### A chunked body on the wire -/

/-- One chunk: a size line of hexadecimal digits, of either case and with any leading zeros, and the
non-empty payload whose length it announces. Lengths are `size_t` values. -/
structure Chunk where
  sizeLine : List Byte
  payload : List Byte
  digits : ∀ c ∈ sizeLine, isxdigit c
  size : hexValue sizeLine = payload.length
  nonempty : payload ≠ []
  fits : payload.length ≤ SIZE_MAX

/-- Size line, CR LF, payload, CR LF. -/
def Chunk.encode (c : Chunk) : List Byte := c.sizeLine ++ crlf ++ c.payload ++ crlf

/-- The final chunk: a size line of `z + 1` zeros, and the empty line after it. -/
def lastChunk (z : ℕ) : List Byte := List.replicate (z + 1) 48 ++ crlf ++ crlf

/-- A whole chunked body, without trailers. -/
def encode (cs : List Chunk) (z : ℕ) : List Byte := cs.flatMap Chunk.encode ++ lastChunk z

/-- What the body carries. -/
def payloads (cs : List Chunk) : List Byte := cs.flatMap Chunk.payload

theorem encode_cons (c : Chunk) (cs : List Chunk) (z : ℕ) :
    encode (c :: cs) z = c.sizeLine ++ crlf ++ (c.payload ++ crlf ++ encode cs z) := by
  simp [encode, Chunk.encode]

theorem payloads_cons (c : Chunk) (cs : List Chunk) :
    payloads (c :: cs) = c.payload ++ payloads cs := by
  simp [payloads]

theorem length_lastChunk (z : ℕ) : (lastChunk z).length = z + 5 := by
  simp [lastChunk]

theorem length_lastChunk_le_encode (cs : List Chunk) (z : ℕ) : z + 5 ≤ (encode cs z).length := by
  rw [encode, List.length_append, length_lastChunk]
  omega

theorem encode_ne_nil (cs : List Chunk) (z : ℕ) : encode cs z ≠ [] := by
  intro h
  have := length_lastChunk_le_encode cs z
  rw [h, List.length_nil] at this
  omega

theorem payloads_eq_nil_iff (cs : List Chunk) : payloads cs = [] ↔ cs = [] := by
  cases cs with
  | nil => simp [payloads]
  | cons c cs => simp [payloads_cons, c.nonempty]

theorem CR_not_mem_of_isxdigit {s : List Byte} (h : ∀ c ∈ s, isxdigit c) : CR ∉ s :=
  fun hmem => (ne_of_isxdigit (h CR hmem)).2.2.2.2.1 rfl

theorem cutSizeLine_of_isxdigit {s : List Byte} (h : ∀ c ∈ s, isxdigit c) : cutSizeLine s = s := by
  refine List.takeWhile_eq_self_iff.mpr fun c hc => ?_
  obtain ⟨-, -, -, -, h13, h10, h59, h0⟩ := ne_of_isxdigit (h c hc)
  simpa using ⟨h0, h59, h10, h13⟩

theorem Chunk.sizeLine_ne_nil (c : Chunk) : c.sizeLine ≠ [] := by
  intro h
  have hlen := c.size
  rw [h, hexValue, List.foldl_nil] at hlen
  exact c.nonempty (List.eq_nil_of_length_eq_zero hlen.symm)

theorem Chunk.sscanfZx_sizeLine (c : Chunk) :
    sscanfZx (cutSizeLine c.sizeLine) = some c.payload.length := by
  rw [cutSizeLine_of_isxdigit c.digits,
    sscanfZx_of_isxdigit c.sizeLine_ne_nil c.digits (c.size ▸ c.fits), c.size]

theorem isxdigit_of_mem_zeros {n : ℕ} : ∀ c ∈ List.replicate n (48 : Byte), isxdigit c := by
  intro c hc
  rw [List.eq_of_mem_replicate hc]
  decide

theorem hexValue_zeros (n : ℕ) : hexValue (List.replicate n 48) = 0 := by
  induction n with
  | zero => rfl
  | succ n ih =>
    rw [List.replicate_succ, hexValue, List.foldl_cons]
    exact ih

theorem sscanfZx_zeros (z : ℕ) : sscanfZx (cutSizeLine (List.replicate (z + 1) 48)) = some 0 := by
  rw [cutSizeLine_of_isxdigit isxdigit_of_mem_zeros,
    sscanfZx_of_isxdigit (by simp) isxdigit_of_mem_zeros (by rw [hexValue_zeros]; omega),
    hexValue_zeros]

/-! ### Where the decoder stands in a body

`Expects z state len pending owed` relates the decoder's state to what is still to be parsed:
`pending` are the bytes of the body not consumed yet, received or not, and `owed` the payload bytes
among them. It is the invariant of the whole development. -/

/-- The decoder, in state `state` with `len` bytes of the current chunk to go, stands before
`pending`, which carries `owed`. -/
inductive Expects (z : ℕ) : ChunkState → ℕ → List Byte → List Byte → Prop
  | waitLen (n : ℕ) (cs : List Chunk) : Expects z .chunkWaitLen n (encode cs z) (payloads cs)
  | inProgress (p : List Byte) (cs : List Chunk) (hp : p ≠ []) :
      Expects z .chunkInProgress p.length (p ++ crlf ++ encode cs z) (p ++ payloads cs)
  | waitingTrailer (n : ℕ) (cs : List Chunk) :
      Expects z .chunkWaitingTrailer n (crlf ++ encode cs z) (payloads cs)
  | last (n : ℕ) : Expects z .chunkLast n crlf []

/-- The session is decoding: the filter is in place, the decoded buffer holds `buf`, and the
decoder stands before the raw buffer followed by `fut`, what has not been received yet. -/
structure Decoding (z : ℕ) (fut buf owed : List Byte) (st : Session) : Prop where
  input : st.input = .chunkBuf
  inFilter : st.inFilter = true
  chunkBuf : st.chunkBuf = some buf
  expects : Expects z st.chunkState st.chunkLen (st.rawInput ++ fut) owed

/-- Nothing more can be parsed from the raw buffer. -/
def Idle (st : Session) : Prop :=
  match st.chunkState with
  | .chunkWaitLen => evbufferReadlnCrlfStrict st.rawInput = none
  | .chunkInProgress => st.rawInput = []
  | _ => st.rawInput.length < 2

/-- The filter has taken itself out, with nothing left in the raw buffer. -/
structure Ended (st : Session) : Prop where
  input : st.input = .rawInput
  inFilter : st.inFilter = false
  chunkBuf : st.chunkBuf = none
  rawInput : st.rawInput = []
  chunkState : st.chunkState = .chunkEnd

theorem Expects.pending_ne_nil {z : ℕ} {s : ChunkState} {n : ℕ} {pending owed : List Byte}
    (h : Expects z s n pending owed) : pending ≠ [] := by
  cases h with
  | waitLen n cs => exact encode_ne_nil cs z
  | inProgress p cs hp => simp [hp]
  | waitingTrailer n cs => simp
  | last n => simp

/-! ### One round -/

section Round

variable {z : ℕ} {fut buf owed : List Byte} {st : Session} {lenDone : ℕ}

/-- Some of what was owed has moved to the decoded buffer, and the rest is still to come. -/
def Advanced (z : ℕ) (fut buf owed : List Byte) (st : Session) : Prop :=
  ∃ moved owed', owed = moved ++ owed' ∧ Decoding z fut (buf ++ moved) owed' st

/-- What a call leaves: an idle decoder that needs more of the body, or the end. -/
def Returned (z : ℕ) (fut buf owed : List Byte) (r : FilterResult × Session) : Prop :=
  r.1 ≠ .bevError ∧
    ((fut ≠ [] ∧ Advanced z fut buf owed r.2 ∧ Idle r.2) ∨ (fut = [] ∧ Ended r.2))

theorem Advanced.refl (h : Decoding z fut buf owed st) : Advanced z fut buf owed st :=
  ⟨[], owed, rfl, by rwa [List.append_nil]⟩

theorem Advanced.trans {moved owed' : List Byte} (howed : owed = moved ++ owed')
    (h : Advanced z fut (buf ++ moved) owed' st) : Advanced z fut buf owed st := by
  obtain ⟨m, o, ho, hd⟩ := h
  exact ⟨moved ++ m, o, by rw [howed, ho, List.append_assoc], by rwa [← List.append_assoc]⟩

theorem okOrMore_ne_bevError (lenDone : ℕ) : okOrMore lenDone ≠ .bevError := by
  rw [okOrMore]
  split <;> simp

/-- Leaving because nothing more can be parsed: the body is not complete. -/
theorem returned_of_idle (h : Decoding z fut buf owed st) (hidle : Idle st) (hfut : fut ≠ []) :
    Returned z fut buf owed (okOrMore lenDone, st) :=
  ⟨okOrMore_ne_bevError lenDone, Or.inl ⟨hfut, Advanced.refl h, hidle⟩⟩

/-- The shape of a round on a decoding session. -/
def GoodRound (z : ℕ) (fut buf owed : List Byte) (s : Session × ℕ) : Prop :=
  match ntripChunkDecodeRound s with
  | .inl s' => Advanced z fut buf owed s'.1 ∧ s'.1.rawInput.length < s.1.rawInput.length
  | .inr r => Returned z fut buf owed r

theorem goodRound_nil (h : Decoding z fut buf owed st) (hraw : st.rawInput = []) :
    GoodRound z fut buf owed (st, lenDone) := by
  have hfut : fut ≠ [] := by
    have := h.expects.pending_ne_nil
    rwa [hraw, List.nil_append] at this
  have hidle : Idle st := by
    rw [Idle]
    split <;> simp [hraw, evbufferReadlnCrlfStrict]
  simp only [GoodRound, ntripChunkDecodeRound, hraw, List.length_nil, if_true]
  exact returned_of_idle h hidle hfut

/-- A size line, of a chunk or of the last one, that has not arrived whole yet. -/
theorem fut_ne_nil_of_readln_eq_none {line rest : List Byte} (hline : CR ∉ line)
    (hn : evbufferReadlnCrlfStrict st.rawInput = none)
    (hpend : st.rawInput ++ fut = line ++ crlf ++ rest) : fut ≠ [] := by
  rintro rfl
  rw [List.append_nil] at hpend
  rw [hpend, evbufferReadlnCrlfStrict_append hline] at hn
  exact absurd hn (by simp)

theorem goodRound_waitLen (h : Decoding z fut buf owed st) (hraw : st.rawInput ≠ [])
    (hstate : st.chunkState = .chunkWaitLen) : GoodRound z fut buf owed (st, lenDone) := by
  have hlen : st.rawInput.length ≠ 0 := fun h0 => hraw (List.eq_nil_of_length_eq_zero h0)
  -- the size line, what follows it, and the state it leads to
  obtain ⟨line, rest, len, hline, hpend, hscan, hnext⟩ : ∃ line rest len, CR ∉ line ∧
      st.rawInput ++ fut = line ++ crlf ++ rest ∧ sscanfZx (cutSizeLine line) = some len ∧
      Expects z (if len = 0 then .chunkLast else .chunkInProgress) len rest owed := by
    have hexp := h.expects
    rw [hstate] at hexp
    generalize hp : st.rawInput ++ fut = pending at hexp
    cases hexp with
    | waitLen n cs =>
      cases cs with
      | nil =>
        exact ⟨_, crlf, 0, CR_not_mem_of_isxdigit isxdigit_of_mem_zeros, by
          simp [encode, lastChunk], sscanfZx_zeros z, by simpa [payloads] using Expects.last 0⟩
      | cons c cs =>
        have hpos : c.payload.length ≠ 0 := fun h0 => c.nonempty (List.eq_nil_of_length_eq_zero h0)
        refine ⟨_, _, _, CR_not_mem_of_isxdigit c.digits, encode_cons c cs z, c.sscanfZx_sizeLine,
          ?_⟩
        rw [if_neg hpos, payloads_cons]
        exact Expects.inProgress c.payload cs c.nonempty
  rw [GoodRound, ntripChunkDecodeRound]
  simp only [hlen, if_false, hstate]
  cases hread : evbufferReadlnCrlfStrict st.rawInput with
  | none =>
    refine returned_of_idle h ?_ (fut_ne_nil_of_readln_eq_none hline hread hpend)
    rw [Idle, hstate]
    exact hread
  | some lr =>
    obtain ⟨l, r⟩ := lr
    obtain ⟨rfl, hrest⟩ := readln_eq_of_append hline hpend hread
    simp only [hscan]
    refine ⟨Advanced.refl ⟨h.input, h.inFilter, h.chunkBuf, ?_⟩, length_of_readln_eq_some hread⟩
    simp only [hrest]
    exact hnext

theorem goodRound_inProgress (h : Decoding z fut buf owed st) (hraw : st.rawInput ≠ [])
    (hstate : st.chunkState = .chunkInProgress) : GoodRound z fut buf owed (st, lenDone) := by
  have hlen : st.rawInput.length ≠ 0 := fun h0 => hraw (List.eq_nil_of_length_eq_zero h0)
  obtain ⟨p, cs, hp, hchunk, hpend, rfl⟩ : ∃ p cs, p ≠ [] ∧ st.chunkLen = p.length ∧
      st.rawInput ++ fut = p ++ crlf ++ encode cs z ∧ owed = p ++ payloads cs := by
    have hexp := h.expects
    rw [hstate] at hexp
    generalize hpe : st.rawInput ++ fut = pending at hexp
    generalize hle : st.chunkLen = len at hexp
    cases hexp with
    | inProgress p cs hp => exact ⟨p, cs, hp, rfl, rfl, rfl⟩
  -- the bytes this round moves: as many as have arrived, as many as the chunk still has
  obtain ⟨k, hk⟩ : ∃ k, k = min st.rawInput.length p.length := ⟨_, rfl⟩
  have hused :
      (if st.rawInput.length ≤ st.chunkLen then st.rawInput.length else st.chunkLen) = k := by
    rw [hchunk]
    split <;> omega
  have hplen : p.length ≠ 0 := fun h0 => hp (List.eq_nil_of_length_eq_zero h0)
  have htake : st.rawInput.take k = p.take k := by
    have := congrArg (List.take k) hpend
    rwa [List.take_append_of_le_length (by omega), List.append_assoc,
      List.take_append_of_le_length (by omega)] at this
  have hdrop : st.rawInput.drop k ++ fut = p.drop k ++ (crlf ++ encode cs z) := by
    have := congrArg (List.drop k) hpend
    rwa [List.drop_append_of_le_length (by omega), List.append_assoc,
      List.drop_append_of_le_length (by omega)] at this
  have hshorter : (st.rawInput.drop k).length < st.rawInput.length := by
    rw [List.length_drop]
    omega
  simp only [GoodRound, ntripChunkDecodeRound, hlen, if_false, hstate, hused, Session.addInput,
    h.input, h.chunkBuf, Option.map_some]
  refine ⟨⟨p.take k, p.drop k ++ payloads cs, ?_, rfl, h.inFilter, by rw [htake], ?_⟩, hshorter⟩
  · rw [← List.append_assoc, List.take_append_drop]
  · simp only [hdrop, hchunk]
    rcases Nat.eq_zero_or_pos (p.length - k) with h0 | h0
    · have hd : p.drop k = [] := List.drop_eq_nil_of_le (by omega)
      rw [if_pos h0, hd]
      exact Expects.waitingTrailer _ cs
    · have hd : p.drop k ≠ [] := by rw [Ne, List.drop_eq_nil_iff]; omega
      have hl : p.length - k = (p.drop k).length := by rw [List.length_drop]
      rw [if_neg (by omega), hl, ← List.append_assoc]
      exact Expects.inProgress _ cs hd

/-- The two bytes after a chunk, once both are there. -/
theorem drop_two_of_append {raw rest : List Byte} (h2 : ¬ raw.length < 2)
    (hpend : raw ++ fut = crlf ++ rest) : raw.drop 2 ++ fut = rest := by
  have := congrArg (List.drop 2) hpend
  rwa [List.drop_append_of_le_length (by omega), List.drop_append_of_le_length (by simp)] at this

theorem fut_ne_nil_of_length_lt {raw rest : List Byte} (h2 : raw.length < 2)
    (hpend : raw ++ fut = crlf ++ rest) : fut ≠ [] := by
  rintro rfl
  have := congrArg List.length hpend
  simp at this
  omega

theorem goodRound_waitingTrailer (h : Decoding z fut buf owed st) (hraw : st.rawInput ≠ [])
    (hstate : st.chunkState = .chunkWaitingTrailer) : GoodRound z fut buf owed (st, lenDone) := by
  have hlen : st.rawInput.length ≠ 0 := fun h0 => hraw (List.eq_nil_of_length_eq_zero h0)
  obtain ⟨cs, hpend, rfl⟩ :
      ∃ cs, st.rawInput ++ fut = crlf ++ encode cs z ∧ owed = payloads cs := by
    have hexp := h.expects
    rw [hstate] at hexp
    generalize hpe : st.rawInput ++ fut = pending at hexp
    cases hexp with
    | waitingTrailer n cs => exact ⟨cs, rfl, rfl⟩
  simp only [GoodRound, ntripChunkDecodeRound, hlen, if_false, hstate]
  by_cases h2 : st.rawInput.length < 2
  · rw [if_pos h2]
    refine returned_of_idle h ?_ (fut_ne_nil_of_length_lt h2 hpend)
    rwa [Idle, hstate]
  · rw [if_neg h2]
    refine ⟨Advanced.refl ⟨h.input, h.inFilter, h.chunkBuf, ?_⟩, ?_⟩
    · simp only [drop_two_of_append h2 hpend]
      exact Expects.waitLen _ cs
    · simp only [List.length_drop]
      omega

theorem goodRound_last (h : Decoding z fut buf owed st) (hraw : st.rawInput ≠ [])
    (hstate : st.chunkState = .chunkLast) : GoodRound z fut buf owed (st, lenDone) := by
  have hlen : st.rawInput.length ≠ 0 := fun h0 => hraw (List.eq_nil_of_length_eq_zero h0)
  have hpend : st.rawInput ++ fut = crlf ++ [] := by
    have hexp := h.expects
    rw [hstate] at hexp
    generalize hpe : st.rawInput ++ fut = pending at hexp
    cases hexp with
    | last n => rfl
  simp only [GoodRound, ntripChunkDecodeRound, hlen, if_false, hstate]
  by_cases h2 : st.rawInput.length < 2
  · rw [if_pos h2]
    refine returned_of_idle h ?_ (fut_ne_nil_of_length_lt h2 hpend)
    rwa [Idle, hstate]
  · obtain ⟨hdrop, hfut⟩ := List.append_eq_nil_iff.mp (drop_two_of_append h2 hpend)
    rw [if_neg h2]
    exact ⟨by simp, Or.inr ⟨hfut, rfl, rfl, rfl, hdrop, rfl⟩⟩

/-- **One round**, in any of the states a decoding session can be in. -/
theorem goodRound (h : Decoding z fut buf owed st) : GoodRound z fut buf owed (st, lenDone) := by
  by_cases hraw : st.rawInput = []
  · exact goodRound_nil h hraw
  · have hexp := h.expects
    cases hstate : st.chunkState with
    | chunkWaitLen => exact goodRound_waitLen h hraw hstate
    | chunkInProgress => exact goodRound_inProgress h hraw hstate
    | chunkWaitingTrailer => exact goodRound_waitingTrailer h hraw hstate
    | chunkLast => exact goodRound_last h hraw hstate
    | _ => rw [hstate] at hexp; cases hexp

/-- **One call.** On a decoding session the filter returns, reports no error, and either stops idle
because the body is not complete or, exactly when it is, takes itself out. -/
theorem ntripChunkDecode_spec (h : Decoding z fut buf owed st) :
    ∃ r, ntripChunkDecode st = some r ∧ Returned z fut buf owed r := by
  refine Loop.run_total (fun s => Advanced z fut buf owed s.1) (fun s => s.1.rawInput.length) ?_ _ _
    (Advanced.refl h) (Nat.lt_succ_self _)
  rintro ⟨s, lenDone⟩ ⟨moved, owed', howed, hdec⟩
  have hround : GoodRound _ _ _ _ (s, lenDone) := goodRound hdec
  rw [GoodRound] at hround
  rw [Loop.Round]
  cases hb : ntripChunkDecodeRound (s, lenDone) with
  | inl s' =>
    rw [hb] at hround
    exact ⟨Advanced.trans howed hround.1, hround.2⟩
  | inr r =>
    rw [hb] at hround
    refine ⟨hround.1, ?_⟩
    rcases hround.2 with ⟨hfut, hadv, hidle⟩ | hend
    · exact Or.inl ⟨hfut, Advanced.trans howed hadv, hidle⟩
    · exact Or.inr hend

end Round

/-! ### Runs: reads and drains in any order -/

/-- What happens to a session between two calls: libevent reads a segment of the body, or the
consumer takes up to `n` bytes from `st->input`. -/
inductive Event
  | read (seg : List Byte)
  | drain (n : ℕ)
  deriving DecidableEq, Repr

/-- A session, what its consumer has taken as decoded data so far, and every answer the filter has
given. -/
structure Run where
  st : Session
  consumed : List Byte
  results : List FilterResult
  deriving DecidableEq, Repr

/-- The end of the headers of a message with `Transfer-Encoding: chunked`. -/
def start : Run where
  st :=
    { rawInput := [], chunkBuf := none, input := .rawInput, inFilter := false
      chunkState := .chunkInit, chunkLen := 0, receivedBytes := 0, state := .waitHttpHeader }
  consumed := []
  results := []

/-- A read callback, as `ntripsrv_readcb` and `ntripcli_readcb` make it: the filter, if there is
one, and then its installation when the headers announced chunks. -/
def deliver (st : Session) (seg : List Byte) : Option (Option FilterResult × Session) :=
  (ntripFilterRunInput { st with rawInput := st.rawInput ++ seg }).bind fun (_, r, st) =>
    if st.chunkState = .chunkInit then ntripChunkDecodeInit st else some (r, st)

/-- `evbuffer_remove(st->input, ..., n)` by the consumer. Only what comes from the chunk buffer is
decoded data. -/
def drain (r : Run) (n : ℕ) : Run :=
  match r.st.input with
  | .rawInput => { r with st := { r.st with rawInput := r.st.rawInput.drop n } }
  | .chunkBuf =>
    { r with
      st := { r.st with chunkBuf := r.st.chunkBuf.map (List.drop n) }
      consumed := r.consumed ++ (r.st.chunkBuf.getD []).take n }

def step (r : Run) : Event → Option Run
  | .read seg => (deliver r.st seg).map fun (res, st) =>
      { r with st := st, results := r.results ++ res.toList }
  | .drain n => some (drain r n)

/-- A whole run from the end of the headers. -/
def run (evs : List Event) : Option Run := evs.foldlM step start

/-- The bytes libevent has appended to the raw buffer. -/
def received (evs : List Event) : List Byte :=
  evs.flatMap fun
    | .read seg => seg
    | .drain _ => []

@[simp] theorem received_nil : received [] = [] := rfl

@[simp] theorem received_read_cons (seg : List Byte) (evs : List Event) :
    received (.read seg :: evs) = seg ++ received evs := rfl

@[simp] theorem received_drain_cons (n : ℕ) (evs : List Event) :
    received (.drain n :: evs) = received evs := rfl

@[simp] theorem received_append (evs evs' : List Event) :
    received (evs ++ evs') = received evs ++ received evs' := List.flatMap_append

/-- What the consumer can still read from `st->input` as decoded data. -/
def Session.readable (st : Session) : List Byte :=
  match st.input with
  | .rawInput => []
  | .chunkBuf => st.chunkBuf.getD []

/-- The decoder loses and duplicates nothing over the run `evs` of the body `encode cs z`. -/
structure DecodesExactly (cs : List Chunk) (z : ℕ) (evs : List Event) : Prop where
  /-- Every call returns, and the decoder never reports an error. -/
  noError : ∀ pre, pre <+: evs → ∃ r, run pre = some r ∧ .bevError ∉ r.results ∧
    r.st.chunkState ≠ .chunkErr
  /-- The session is back on the raw buffer in state `CHUNK_END` exactly once the whole body, up to
  the CR LF of the final chunk, has been received and consumed. -/
  ended : ∀ pre, pre <+: evs → ∀ r, run pre = some r →
    (r.st.input = .rawInput ∧ r.st.chunkState = .chunkEnd ∧ r.st.rawInput = [] ↔
      received pre = encode cs z)
  /-- What the consumer has read and can still read is what the body carries. -/
  exact : ∀ r, run evs = some r → r.consumed ++ r.st.readable = payloads cs

/-- When the read that completes the body arrives, the decoded buffer is empty, and that read brings
no payload: it is part of the last CR LF and the final chunk. -/
def DrainedBeforeEnd (cs : List Chunk) (z : ℕ) (evs : List Event) : Prop :=
  ∀ pre seg post r, evs = pre ++ .read seg :: post → received pre ≠ encode cs z →
    received pre ++ seg = encode cs z → run pre = some r →
    r.st.chunkBuf.getD [] = [] ∧ seg.length ≤ (crlf ++ lastChunk z).length

/-! ### The invariant of a run -/

/-- Where a run stands when `fut` of the body is still to come. Once the body is complete, `lost` is
what the decoded buffer held when it was freed. -/
inductive Stage (cs : List Chunk) (z : ℕ) (fut : List Byte) (r : Run) : Prop
  | before (hst : r.st = start.st) (hconsumed : r.consumed = []) (hfut : fut = encode cs z)
  | decoding (buf owed : List Byte) (hdec : Decoding z fut buf owed r.st) (hidle : Idle r.st)
      (hfut : fut ≠ []) (howed : r.consumed ++ buf ++ owed = payloads cs)
  | ended (lost : List Byte) (hend : Ended r.st) (hfut : fut = [])
      (hlost : r.consumed ++ lost = payloads cs)

section Stage

variable {cs : List Chunk} {z : ℕ} {fut seg : List Byte} {r : Run}

/-- A call of the filter on a decoding session, seen from the run. -/
theorem stage_of_returned {buf owed : List Byte} {res : FilterResult × Session}
    {results : List FilterResult} (howed : r.consumed ++ buf ++ owed = payloads cs)
    (h : Returned z fut buf owed res) : Stage cs z fut ⟨res.2, r.consumed, results⟩ := by
  rcases h.2 with ⟨hfut, ⟨moved, owed', rfl, hdec⟩, hidle⟩ | ⟨hfut, hend⟩
  · exact .decoding _ owed' hdec hidle hfut (by rw [← howed]; simp)
  · exact .ended (buf ++ owed) hend hfut (by rw [← howed, List.append_assoc])

/-- `ntrip_filter_run_input` on a decoding session: the filter is called and its answer is not an
error, so the session is left as the filter leaves it. -/
theorem ntripFilterRunInput_of_decoding {buf owed : List Byte} {st : Session}
    (h : Decoding z fut buf owed st) :
    ∃ n res, ntripFilterRunInput st = some (n, some res.1, res.2) ∧
      Returned z fut buf owed res := by
  obtain ⟨res, hres, hret⟩ := ntripChunkDecode_spec h
  obtain ⟨a, st'⟩ := res
  have hne : a ≠ .bevError := hret.1
  rw [ntripFilterRunInput, if_pos h.inFilter, hres, Option.map_some]
  cases a with
  | bevOk => exact ⟨_, _, rfl, hret⟩
  | bevNeedMore => exact ⟨_, _, rfl, hret⟩
  | bevError => exact absurd rfl hne

theorem Returned.chunkState_ne {buf owed : List Byte} {res : FilterResult × Session}
    (h : Returned z fut buf owed res) :
    res.2.chunkState ≠ .chunkInit ∧ res.2.chunkState ≠ .chunkErr := by
  rcases h.2 with ⟨-, ⟨moved, owed', -, hdec⟩, -⟩ | ⟨-, hend⟩
  · have hexp := hdec.expects
    constructor <;> intro hs <;> rw [hs] at hexp <;> cases hexp
  · simp [hend.chunkState]

/-- A read while the session decodes. -/
theorem deliver_of_decoding {buf owed : List Byte} {st : Session}
    (h : Decoding z (seg ++ fut) buf owed st) :
    ∃ res, deliver st seg = some (some res.1, res.2) ∧ Returned z fut buf owed res := by
  have hdec : Decoding z fut buf owed { st with rawInput := st.rawInput ++ seg } :=
    ⟨h.input, h.inFilter, h.chunkBuf, by simpa using h.expects⟩
  obtain ⟨n, res, hrun, hret⟩ := ntripFilterRunInput_of_decoding hdec
  refine ⟨res, ?_, hret⟩
  rw [deliver, hrun, Option.bind_some]
  exact if_neg hret.chunkState_ne.1

/-- The first read installs the filter, and runs it on what the read brought. -/
theorem deliver_start (hfut : seg ++ fut = encode cs z) :
    ∃ res, deliver start.st seg = some res ∧ res.1 ≠ some .bevError ∧
      Stage cs z fut ⟨res.2, [], res.1.toList⟩ := by
  have hdec : Decoding z fut [] (payloads cs)
      { start.st with
        rawInput := seg, chunkBuf := some [], inFilter := true
        chunkState := .chunkWaitLen, input := .chunkBuf } :=
    ⟨rfl, rfl, rfl, by rw [hfut]; exact .waitLen _ cs⟩
  have hdel : deliver start.st seg = ntripChunkDecodeInit { start.st with rawInput := seg } := by
    simp [deliver, ntripFilterRunInput, start]
  rw [hdel, ntripChunkDecodeInit]
  by_cases hseg : 0 < seg.length
  · obtain ⟨res, hres, hret⟩ := ntripChunkDecode_spec hdec
    refine ⟨(some res.1, res.2), ?_, ?_, ?_⟩
    · simp only [start, Option.getD_none, hseg, if_true] at hres ⊢
      rw [hres]
      rfl
    · simpa using hret.1
    · exact stage_of_returned (r := ⟨start.st, [], []⟩) (by simp) hret
  · obtain rfl : seg = [] := List.eq_nil_of_length_eq_zero (by omega)
    refine ⟨(none, _), rfl, by simp, ?_⟩
    have hne : fut ≠ [] := by
      rw [← List.nil_append fut, hfut]
      exact encode_ne_nil cs z
    exact .decoding [] (payloads cs) hdec rfl hne (by simp)

/-- **A read moves the run one stage on**, reports no error and takes nothing from the consumer. -/
theorem stage_read (h : Stage cs z (seg ++ fut) r) (herr : .bevError ∉ r.results) :
    ∃ r', step r (.read seg) = some r' ∧ Stage cs z fut r' ∧ .bevError ∉ r'.results ∧
      r'.consumed = r.consumed := by
  cases h with
  | before hst hconsumed hfut =>
    obtain ⟨res, hres, hne, hstage⟩ := deliver_start hfut
    refine ⟨⟨res.2, r.consumed, r.results ++ res.1.toList⟩, ?_, ?_, ?_, rfl⟩
    · rw [step, hst, hres]
      rfl
    · rw [hconsumed]
      cases hstage with
      | before h1 h2 h3 => exact .before h1 rfl h3
      | decoding buf owed h1 h2 h3 h4 => exact .decoding buf owed h1 h2 h3 h4
      | ended lost h1 h2 h3 => exact .ended lost h1 h2 h3
    · simpa [herr] using fun h => hne h
  | decoding buf owed hdec hidle hne howed =>
    obtain ⟨res, hres, hret⟩ := deliver_of_decoding hdec
    refine ⟨⟨res.2, r.consumed, r.results ++ [res.1]⟩, ?_, stage_of_returned howed hret, ?_, rfl⟩
    · rw [step, hres]
      rfl
    · simpa [herr] using fun h => hret.1 h.symm
  | ended lost hend hfut hlost =>
    obtain ⟨rfl, rfl⟩ := List.append_eq_nil_iff.mp hfut
    refine ⟨r, ?_, .ended lost hend rfl hlost, herr, rfl⟩
    have hdel : deliver r.st [] = some (none, r.st) := by
      rw [deliver, List.append_nil, ntripFilterRunInput, if_neg (by simp [hend.inFilter]),
        Option.bind_some]
      exact if_neg (by simp [hend.chunkState])
    rw [step, hdel]
    simp

/-- A drain moves bytes from the decoded buffer to what the consumer has read. -/
theorem stage_drain (n : ℕ) (h : Stage cs z fut r) : Stage cs z fut (drain r n) := by
  cases h with
  | before hst hconsumed hfut =>
    refine .before ?_ ?_ hfut
    · simp [drain, hst, start]
    · simp [drain, hst, start, hconsumed]
  | decoding buf owed hdec hidle hne howed =>
    refine .decoding (buf.drop n) owed ⟨?_, ?_, ?_, ?_⟩ ?_ hne ?_
    · simp [drain, hdec.input]
    · simp [drain, hdec.input, hdec.inFilter]
    · simp [drain, hdec.input, hdec.chunkBuf]
    · simpa [drain, hdec.input] using hdec.expects
    · simpa [drain, hdec.input, Idle] using hidle
    · simp only [drain, hdec.input, hdec.chunkBuf, Option.getD_some]
      rw [List.append_assoc r.consumed, List.take_append_drop, howed]
  | ended lost hend hfut hlost =>
    refine .ended lost ⟨?_, ?_, ?_, ?_, ?_⟩ hfut ?_
    · simp [drain, hend.input]
    · simp [drain, hend.input, hend.inFilter]
    · simp [drain, hend.input, hend.chunkBuf]
    · simp [drain, hend.input, hend.rawInput]
    · simp [drain, hend.input, hend.chunkState]
    · simpa [drain, hend.input] using hlost

theorem run_concat (evs : List Event) (e : Event) :
    run (evs ++ [e]) = (run evs).bind fun r => step r e := by
  simp [run, List.foldlM_append]

/-- **Every run of a prefix of the body**, whatever the cuts and the drains. -/
theorem stage_run : ∀ (evs : List Event) (fut : List Byte), received evs ++ fut = encode cs z →
    ∃ r, run evs = some r ∧ Stage cs z fut r ∧ .bevError ∉ r.results := by
  intro evs
  induction evs using List.reverseRecOn with
  | nil =>
    intro fut hfut
    exact ⟨start, rfl, .before rfl rfl (by simpa using hfut), by simp [start]⟩
  | append_singleton evs e ih =>
    intro fut hfut
    rw [received_append, List.append_assoc] at hfut
    obtain ⟨r, hr, hstage, herr⟩ := ih _ hfut
    rw [run_concat, hr, Option.bind_some]
    cases e with
    | read seg =>
      obtain ⟨r', hr', hstage', herr', -⟩ := stage_read (by simpa using hstage) herr
      exact ⟨r', hr', hstage', herr'⟩
    | drain n =>
      refine ⟨drain r n, rfl, stage_drain n (by simpa using hstage), ?_⟩
      rw [drain]
      split <;> exact herr

/-- Standing idle before the rest of the body, nothing is owed exactly when what is to come is no
longer than the CR LF of the last payload and the final chunk. -/
theorem Expects.owed_eq_nil_iff {st : Session} {owed : List Byte}
    (h : Expects z st.chunkState st.chunkLen (st.rawInput ++ seg) owed) (hidle : Idle st) :
    owed = [] ↔ seg.length ≤ z + 7 := by
  generalize hp : st.rawInput ++ seg = pending at h
  generalize hs : st.chunkState = state at h
  generalize hl : st.chunkLen = len at h
  have hplen := congrArg List.length hp
  rw [List.length_append] at hplen
  rw [Idle, hs] at hidle
  cases h with
  | waitLen n cs =>
    rw [payloads_eq_nil_iff]
    cases cs with
    | nil =>
      simp only [encode, List.flatMap_nil, List.nil_append, length_lastChunk] at hplen
      exact iff_of_true rfl (by omega)
    | cons c cs =>
      rw [encode_cons] at hp hplen
      have hraw := length_le_of_readln_eq_none (CR_not_mem_of_isxdigit c.digits) hidle hp
      have hpay := List.length_pos_iff.mpr c.nonempty
      have := length_lastChunk_le_encode cs z
      simp only [List.length_append, List.length_cons, List.length_nil] at hplen
      exact iff_of_false (by simp) (by omega)
  | inProgress p cs hne =>
    have hpos := List.length_pos_iff.mpr hne
    have := length_lastChunk_le_encode cs z
    simp only [hidle, List.length_append, List.length_cons, List.length_nil] at hplen
    exact iff_of_false (by simp [hne]) (by omega)
  | waitingTrailer n cs =>
    rw [payloads_eq_nil_iff]
    cases cs with
    | nil =>
      simp only [encode, List.flatMap_nil, List.nil_append, List.length_append, length_lastChunk,
        List.length_cons, List.length_nil] at hplen
      exact iff_of_true rfl (by omega)
    | cons c cs =>
      have hpay := List.length_pos_iff.mpr c.nonempty
      have hline := List.length_pos_iff.mpr c.sizeLine_ne_nil
      have := length_lastChunk_le_encode cs z
      simp only [encode_cons, List.length_append, List.length_cons, List.length_nil] at hplen hidle
      exact iff_of_false (by simp) (by omega)
  | last n =>
    simp only [List.length_cons, List.length_nil] at hplen
    exact iff_of_true rfl (by omega)

/-- Before the read that completes the body: everything has been consumed exactly when the decoded
buffer is empty and that read brings no payload. -/
theorem Stage.consumed_eq_iff (h : Stage cs z seg r) (hseg : seg ≠ []) :
    r.consumed = payloads cs ↔
      r.st.chunkBuf.getD [] = [] ∧ seg.length ≤ (crlf ++ lastChunk z).length := by
  have hlen : (crlf ++ lastChunk z).length = z + 7 := by
    rw [List.length_append, length_lastChunk]
    simp only [List.length_cons, List.length_nil]
    omega
  rw [hlen]
  cases h with
  | before hst hconsumed hfut =>
    have hbuf : r.st.chunkBuf.getD [] = [] := by rw [hst]; rfl
    rw [hconsumed, hfut, eq_comm, payloads_eq_nil_iff, and_iff_right hbuf]
    cases cs with
    | nil => simp [encode, length_lastChunk]
    | cons c cs =>
      have hpay := List.length_pos_iff.mpr c.nonempty
      have hline := List.length_pos_iff.mpr c.sizeLine_ne_nil
      have := length_lastChunk_le_encode cs z
      simp only [encode_cons, List.length_append, List.length_cons, List.length_nil]
      exact iff_of_false (by simp) (by omega)
  | decoding buf owed hdec hidle hne howed =>
    rw [← hdec.expects.owed_eq_nil_iff hidle, hdec.chunkBuf, Option.getD_some, ← howed,
      List.append_assoc, List.self_eq_append_right, List.append_eq_nil_iff]
  | ended lost hend hfut hlost => exact absurd hfut hseg

theorem Stage.ended_iff (h : Stage cs z fut r) :
    (r.st.input = .rawInput ∧ r.st.chunkState = .chunkEnd ∧ r.st.rawInput = []) ↔ fut = [] := by
  cases h with
  | before hst hconsumed hfut =>
    rw [hfut]
    exact iff_of_false (by simp [hst, start]) (encode_ne_nil cs z)
  | decoding buf owed hdec hidle hne howed =>
    exact iff_of_false (by simp [hdec.input]) hne
  | ended lost hend hfut hlost =>
    exact iff_of_true ⟨hend.input, hend.chunkState, hend.rawInput⟩ hfut

theorem Stage.chunkState_ne_chunkErr (h : Stage cs z fut r) : r.st.chunkState ≠ .chunkErr := by
  cases h with
  | before hst hconsumed hfut => simp [hst, start]
  | decoding buf owed hdec hidle hne howed =>
    have hexp := hdec.expects
    intro hs
    rw [hs] at hexp
    cases hexp
  | ended lost hend hfut hlost => simp [hend.chunkState]

/-- Once the body is complete nothing the run does changes what the consumer has read. -/
theorem consumed_of_ended : ∀ (post : List Event) (r : Run), Stage cs z [] r →
    .bevError ∉ r.results → received post = [] → ∀ r', post.foldlM step r = some r' →
      r'.consumed = r.consumed := by
  intro post
  induction post with
  | nil => rintro r - - - r' hr'; simpa using (Option.some.inj hr').symm ▸ rfl
  | cons e post ih =>
    intro r hstage herr hpost r' hr'
    rw [List.foldlM_cons] at hr'
    cases e with
    | read seg =>
      obtain ⟨rfl, hpost'⟩ : seg = [] ∧ received post = [] := by simpa using hpost
      obtain ⟨r₁, hr₁, hstage₁, herr₁, hcons⟩ := @stage_read cs z [] [] r hstage herr
      rw [hr₁] at hr'
      rw [← hcons]
      exact ih r₁ hstage₁ herr₁ hpost' r' hr'
    | drain n =>
      have hin : r.st.input = .rawInput := (hstage.ended_iff.mpr rfl).1
      have hcons : (drain r n).consumed = r.consumed := by simp [drain, hin]
      have herr₁ : .bevError ∉ (drain r n).results := by simpa [drain, hin] using herr
      rw [← hcons]
      exact ih _ (stage_drain n hstage) herr₁ (by simpa using hpost) r' hr'

/-- The read that completes the body. -/
theorem exists_completing_read {body : List Byte} : ∀ (evs : List Event) (got : List Byte),
    got ≠ body → got ++ received evs = body → ∃ pre seg post, evs = pre ++ Event.read seg :: post ∧
      got ++ received pre ≠ body ∧ got ++ received pre ++ seg = body := by
  intro evs
  induction evs with
  | nil => intro got hne hgot; exact absurd (by simpa using hgot) hne
  | cons e evs ih =>
    intro got hne hgot
    cases e with
    | read seg =>
      by_cases hdone : got ++ seg = body
      · exact ⟨[], seg, evs, rfl, by simpa using hne, by simpa using hdone⟩
      · obtain ⟨pre, seg', post, rfl, h1, h2⟩ := ih (got ++ seg) hdone (by simpa using hgot)
        exact ⟨.read seg :: pre, seg', post, rfl, by simpa using h1,
          by simpa using h2⟩
    | drain n =>
      obtain ⟨pre, seg', post, rfl, h1, h2⟩ := ih got hne (by simpa using hgot)
      exact ⟨.drain n :: pre, seg', post, rfl, by simpa using h1,
        by simpa using h2⟩

/-- What a whole run gives the consumer is what it had read before the completing read. -/
theorem exact_iff_of_completing {pre post : List Event} (hne : received pre ≠ encode cs z)
    (hdone : received pre ++ seg = encode cs z) (hpost : received post = []) {rp r : Run}
    (hrp : run pre = some rp) (hr : run (pre ++ .read seg :: post) = some r) :
    r.consumed ++ r.st.readable = payloads cs ↔
      rp.st.chunkBuf.getD [] = [] ∧ seg.length ≤ (crlf ++ lastChunk z).length := by
  have hseg : seg ≠ [] := by
    rintro rfl
    exact hne (by simpa using hdone)
  obtain ⟨rp', hrp', hstage, herr⟩ := stage_run pre seg hdone
  obtain rfl : rp' = rp := by simpa [hrp'] using hrp
  obtain ⟨r₁, hr₁, hstage₁, herr₁, hcons₁⟩ :=
    @stage_read cs z [] seg rp' (by simpa using hstage) herr
  have hrun : post.foldlM step r₁ = some r := by
    rw [run, List.foldlM_append, ← run, hrp'] at hr
    simpa [List.foldlM_cons, hr₁] using hr
  obtain ⟨r', hr', hend, -⟩ := @stage_run cs z (pre ++ .read seg :: post) [] (by
    simpa [hpost] using hdone)
  obtain rfl : r' = r := by simpa [hr'] using hr
  have hread : r'.st.readable = [] := by
    rw [Session.readable, (hend.ended_iff.mpr rfl).1]
  rw [hread, List.append_nil, consumed_of_ended post r₁ hstage₁ herr₁ hpost r' hrun, hcons₁]
  exact hstage.consumed_eq_iff hseg

end Stage

/-- **Chunked input and the read that completes it.** For every body, every way of cutting it into
reads and every schedule of drains, the decoder loses and duplicates nothing exactly when the
consumer has emptied the decoded buffer before the read that completes the body, and that read
brings no payload: the buffer is freed with whatever it holds. -/
theorem decodesExactly_iff_drainedBeforeEnd (cs : List Chunk) (z : ℕ) (evs : List Event)
    (hbody : received evs = encode cs z) :
    DecodesExactly cs z evs ↔ DrainedBeforeEnd cs z evs := by
  have hprefix : ∀ pre, pre <+: evs → ∃ fut r, received pre ++ fut = encode cs z ∧
      run pre = some r ∧ Stage cs z fut r ∧ .bevError ∉ r.results := by
    rintro pre ⟨rest, rfl⟩
    rw [received_append] at hbody
    obtain ⟨r, hr⟩ := stage_run pre _ hbody
    exact ⟨_, r, hbody, hr⟩
  constructor
  · rintro hdec pre seg post r rfl hne hdone hr
    have hpost : received post = [] := by
      rw [← hdone] at hbody
      simpa using hbody
    obtain ⟨fut, rf, -, hrf, -⟩ := hprefix _ (List.prefix_refl _)
    exact (exact_iff_of_completing hne hdone hpost hr hrf).mp (hdec.exact rf hrf)
  · intro hdrained
    refine ⟨?_, ?_, ?_⟩
    · intro pre hpre
      obtain ⟨fut, r, -, hr, hstage, herr⟩ := hprefix pre hpre
      exact ⟨r, hr, herr, hstage.chunkState_ne_chunkErr⟩
    · intro pre hpre r hr
      obtain ⟨fut, r', hfut, hr', hstage, -⟩ := hprefix pre hpre
      obtain rfl : r' = r := by simpa [hr'] using hr
      rw [hstage.ended_iff]
      constructor
      · rintro rfl
        simpa using hfut
      · intro heq
        rw [heq] at hfut
        simpa using hfut
    · intro r hr
      obtain ⟨pre, seg, post, rfl, hne, hdone⟩ :=
        exists_completing_read evs [] (encode_ne_nil cs z).symm (by simpa using hbody)
      rw [List.nil_append] at hne hdone
      have hpost : received post = [] := by
        rw [← hdone] at hbody
        simpa using hbody
      obtain ⟨fut, rp, -, hrp, -⟩ := hprefix pre (List.prefix_append ..)
      exact (exact_iff_of_completing hne hdone hpost hrp hr).mpr
        (hdrained pre seg post rp rfl hne hdone hrp)

/-- The chunk `3 CR LF abc CR LF`. -/
def abcChunk : Chunk where
  sizeLine := [51]
  payload := [97, 98, 99]
  digits := by decide
  size := by decide
  nonempty := by decide
  fits := by decide

/-- The payload in one read, drained at once, and the rest of the body in another: the consumer gets
all of it. -/
theorem decodesExactly_abc_drained :
    received [.read [51, 13, 10, 97, 98, 99], .drain 3, .read [13, 10, 48, 13, 10, 13, 10]] =
        encode [abcChunk] 0 ∧
      DecodesExactly [abcChunk] 0
        [.read [51, 13, 10, 97, 98, 99], .drain 3, .read [13, 10, 48, 13, 10, 13, 10]] := by
  have hbody : received [.read [51, 13, 10, 97, 98, 99], .drain 3,
      .read [13, 10, 48, 13, 10, 13, 10]] = encode [abcChunk] 0 := by decide
  refine ⟨hbody, (decodesExactly_iff_drainedBeforeEnd _ _ _ hbody).mpr ?_⟩
  intro pre seg post r heq hne hdone hr
  match pre with
  | [] =>
    obtain ⟨rfl, -⟩ : [51, 13, 10, 97, 98, 99] = seg ∧ _ := by simpa using heq
    exact absurd hdone (by decide)
  | [_] => simp at heq
  | [_, _] =>
    obtain ⟨rfl, rfl, rfl, -⟩ : _ ∧ _ ∧ [13, 10, 48, 13, 10, 13, 10] = seg ∧ _ := by simpa using heq
    have hrun : run [.read [51, 13, 10, 97, 98, 99], .drain 3] = some r := hr
    have hbuf :
        (run [.read [51, 13, 10, 97, 98, 99], .drain 3]).map (fun r => r.st.chunkBuf.getD [])
        = some [] := by decide
    rw [hrun] at hbuf
    exact ⟨by simpa using hbuf, by decide⟩
  | _ :: _ :: _ :: _ => simp at heq

/-- The whole body in one read: the payload is freed before the consumer sees it. -/
theorem not_decodesExactly_abc_at_once :
    received [.read (encode [abcChunk] 0)] = encode [abcChunk] 0 ∧
      ¬ DecodesExactly [abcChunk] 0 [.read (encode [abcChunk] 0)] := by
  refine ⟨by decide, fun h => ?_⟩
  have hdata : (run [.read (encode [abcChunk] 0)]).map (fun r => r.consumed ++ r.st.readable)
      = some [] := by decide
  obtain ⟨r, hr, heq⟩ := Option.map_eq_some_iff.mp hdata
  have := h.exact r hr
  rw [heq] at this
  exact absurd this (by decide)

end ChunkDecode

end ChilopodCaster
