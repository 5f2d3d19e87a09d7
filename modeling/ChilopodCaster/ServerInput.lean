import ChilopodCaster.Lib.Transition
import ChilopodCaster.ServerRound

/-!
# The input buffer of a server session

A session reads requests through the pointer `st->input`: to the raw buffer of the connection, or to
`chunk_buf` once the filter for chunked transfers is installed. `ntrip_clear_request`, at the start
of each request, frees `chunk_buf` but leaves the pointer and the filter as they are. It does no
harm if the filter of the previous request has taken itself out by then. If it has not, because the
request was answered before its last chunk came, the request line is read from the freed buffer.

Without threads, a session that drops itself through the API is freed in the middle of its own
callback.

## Main definitions

* `Live` — the pointer is to a buffer, and the filter is there exactly when it is `chunk_buf`
* `Unfiltered`, `SparesItself` — what a round must find: no filter when it starts a request, and no
  request that drops its own session
* `InputKept` — the condition on a step

## Main results

* `reachable_live` — under this condition, the pointer is always live and nothing freed is read
* `readcb_reads_freed` — a run in which a freed buffer is read
-/

namespace ChilopodCaster

namespace Ntripsrv

open ChunkDecode

variable {W G : Type} {c : Caster W G} {config : Config} {s s' : Server W G}

/-- `st->input` is the raw buffer or a `chunk_buf` that is there, and it is `chunk_buf` exactly when
the filter is in place. -/
structure Live (st : Session) : Prop where
  input : st.input = .rawInput ∨ st.chunkBuf.isSome = true
  inFilter : st.inFilter = true ↔ st.input = .chunkBuf

/-- The faults that are not reads of freed memory. -/
def Unfreed (f : Fault) : Prop := f ≠ .freedBuffer ∧ f ≠ .freedSession

/-! ### The filter -/

theorem Live.moved {st st' : Session} (h : Live st) (hmoved : Moved st st') : Live st' := by
  cases hmoved with
  | parsed rest chunkState chunkLen state hrest hstate => exact ⟨h.input, h.inFilter⟩
  | payload n chunkState chunkLen receivedBytes =>
    cases hinput : st.input with
    | rawInput => exact ⟨.inl (by simp [Session.addInput]), by
        simpa [Session.addInput, hinput] using h.inFilter⟩
    | chunkBuf =>
      have hbuf := h.input.resolve_left (by rw [hinput]; decide)
      exact ⟨.inr (by simpa [Session.addInput, hinput] using hbuf), by
        simpa [Session.addInput, hinput] using h.inFilter⟩
  | ended rest hrest => exact ⟨.inl rfl, by simp⟩

theorem Live.decode {st : Session} (h : Live st) {r : FilterResult × Session}
    (hdecode : ntripChunkDecode st = some r) : Live r.2 :=
  ntripChunkDecode_keeps Live (fun _ _ => Live.moved) h hdecode

theorem Live.filterInput (h : Live s.st.toSession) :
    okAll Unfreed (fun r => (r.2 = false → r.1.st.state = .ntripEnd ∨ Live r.1.st.toSession) ∧
      (r.2 = true → Live r.1.st.toSession)) (filterInput s) := by
  refine (filterInput_all Live (fun _ _ => Live.moved) h).imp (fun f hf => ?_) ?_
  · rw [hf]
    exact ⟨Fault.noConfusion, Fault.noConfusion⟩
  · rintro ⟨_, goesOn⟩ ⟨session, rfl, hlive, hend⟩
    exact ⟨fun _ => hend, hlive⟩

theorem Live.init {st : Session} {r : Option FilterResult × Session}
    (h : ntripChunkDecodeInit st = some r) : Live r.2 := by
  have hlive : Live { st with
      chunkBuf := some (st.chunkBuf.getD [])
      inFilter := true
      chunkState := .chunkWaitLen
      input := .chunkBuf } := ⟨.inr rfl, by simp⟩
  rw [ntripChunkDecodeInit] at h
  dsimp only at h
  split at h
  · obtain ⟨r', hdecode, rfl⟩ := Option.map_eq_some_iff.mp h
    exact hlive.decode hdecode
  · obtain rfl := Option.some.inj h
    exact hlive

/-! ### A round -/

theorem Live.state {st : Session} (h : Live st) (state : SessionState) :
    Live { st with state := state } := ⟨h.input, h.inFilter⟩

theorem Live.answered (h : Live s.st.toSession) (hs : Answered s s') : Live s'.st.toSession := by
  rw [hs.toSession]
  exact h.state _

theorem Live.setInput {st : NtripState G} (h : Live st.toSession) (rest : List Byte) :
    Live (st.setInput rest).toSession := by
  rw [NtripState.setInput]
  split
  · next hinput => exact ⟨.inl hinput, h.inFilter⟩
  · exact ⟨.inr rfl, h.inFilter⟩

theorem Live.takeLine (h : Live s.st.toSession) (line rest : List Byte) :
    Live (s.takeLine line rest).st.toSession :=
  ⟨(h.setInput rest).input, (h.setInput rest).inFilter⟩

theorem exists_inputBuf {st : NtripState G} (h : Live st.toSession) :
    ∃ buf, st.inputBuf = some buf := by
  rw [NtripState.inputBuf]
  cases hinput : st.input with
  | rawInput => exact ⟨_, rfl⟩
  | chunkBuf => exact Option.isSome_iff_exists.mp (h.input.resolve_left (by rw [hinput]; decide))

/-- The request is cleared: the filter must be out. -/
theorem Live.clearRequest (h : Live s.st.toSession) (hfilter : s.st.inFilter = false) :
    Live s.clearRequest.st.toSession := by
  have hraw : s.st.input = .rawInput := by
    cases hinput : s.st.input with
    | rawInput => rfl
    | chunkBuf => exact absurd (h.inFilter.mpr hinput) (by rw [hfilter]; decide)
  exact ⟨.inl hraw, h.inFilter⟩

theorem Live.prepare (h : Live s.st.toSession) :
    okAll Unfreed (fun s' => Live s'.st.toSession) (prepare config s) := by
  rw [Ntripsrv.prepare]
  dsimp only
  split
  · exact ⟨Fault.noConfusion, Fault.noConfusion⟩
  · next session hsession =>
    rw [okAll_ok, Server.record]
    dsimp only
    rw [cutQuery_toSession]
    dsimp only
    split at hsession
    · obtain ⟨r, hr, rfl⟩ := Option.map_eq_some_iff.mp hsession
      exact .init hr
    · obtain rfl := Option.some.inj hsession
      exact h

theorem Live.handleHeader (h : Live s.st.toSession) {key value : CString} :
    okAll Unfreed (fun r => Live r.1.st.toSession) (handleHeader c config s key value) := by
  rw [Ntripsrv.handleHeader]
  dsimp only
  split
  · rw [handleForwardedHeader]
    split
    · exact h
    · split
      · exact h
      · split
        · exact ⟨Fault.noConfusion, Fault.noConfusion⟩
        · exact h
  · have hset := setHeader_set c config s.st value (headerKind config key)
    exact ⟨by rw [hset.input, hset.chunkBuf]; exact h.input, by
      rw [hset.input, hset.inFilter]; exact h.inFilter⟩

/-! ### A request that drops its own session -/

/-- The request that is complete once a round has read: with its headers if it has no content, or
with the last of its content. -/
def nextRequest (config : Config) (s : Server W G) : Option (Server W G) :=
  s.st.inputBuf.bind fun buf =>
    match s.st.state, evbufferReadlnCrlf buf with
    | .waitHttpHeader, some ([], rest) =>
      (prepare config (s.takeLine [] rest)).toOption.filter (·.st.contentLength = 0)
    | .waitClientContent, _ =>
      let s := takeContent s buf
        (min buf.length (s.st.contentLength - (s.st.content.getD []).length))
      if (s.st.content.getD []).length = s.st.contentLength then some s else none
    | _, _ => none

/-- The request does not drop its own session, or there are threads. -/
def SparesItself (c : Caster W G) (config : Config) (s : Server W G) : Prop :=
  c.threads = true ∨ (nextRequest config s).all fun s' => !namesItself c config s'

instance : Decidable (SparesItself c config s) := inferInstanceAs (Decidable (_ ∨ _ = true))

theorem DropsItself.unfreed {f : Fault} (h : DropsItself c config s' f)
    (hspares : SparesItself c config s) (hnext : nextRequest config s = some s') : Unfreed f := by
  obtain ⟨-, hthreads, hnames⟩ := h
  rcases hspares with hspares | hspares
  · rw [hthreads] at hspares
    contradiction
  · rw [hnext, Option.all_some, hnames] at hspares
    contradiction

theorem Live.dispatch (h : Live s'.st.toSession) (hspares : SparesItself c config s)
    (hnext : s'.st.contentLength = 0 → nextRequest config s = some s') :
    (dispatch c config s').All Unfreed fun s'' => Live s''.st.toSession :=
  dispatch_answered.imp (fun _ hf => hf.2.unfreed hspares (hnext hf.1)) fun _ => h.answered

theorem Live.methodLine (h : Live s.st.toSession) (line : List Byte) :
    (methodLine s line).All Unfreed fun s' => Live s'.st.toSession := by
  rw [Ntripsrv.methodLine]
  dsimp only
  split
  · exact h
  · exact h.state _

theorem Live.headerLine (h : Live s'.st.toSession) {line : List Byte}
    (hspares : SparesItself c config s)
    (hnext : ∀ s'', line.length = 0 → Ntripsrv.prepare config s' = .ok s'' →
      s''.st.contentLength = 0 → nextRequest config s = some s'') :
    (Ntripsrv.headerLine c config s' line).All Unfreed fun s'' => Live s''.st.toSession := by
  refine headerLine_all (fun hempty => ?_) h
    fun key value _ => Live.handleHeader (s := s'.addHeader config key value) h
  have hprepare : okAll Unfreed (fun s'' => Live s''.st.toSession) (Ntripsrv.prepare config s') :=
    h.prepare
  cases hok : Ntripsrv.prepare config s' with
  | error f =>
    rw [hok] at hprepare
    exact hprepare
  | ok s'' =>
    rw [hok] at hprepare
    exact Live.dispatch hprepare hspares (hnext s'' hempty hok)

/-- The round does not start a request with the filter of an earlier one in place. -/
def Unfiltered (s : Server W G) : Prop :=
  s.st.state = .waitHttpMethod → s.st.inputBuf ≠ some [] → s.st.inFilter = false

instance : Decidable (Unfiltered s) := inferInstanceAs (Decidable (_ → _ → _))

/-- **One round.** The input stays live if no request is started with the filter in place. -/
theorem Live.round (h : Live s.st.toSession) (hfilter : Unfiltered s)
    (hspares : SparesItself c config s) :
    (round c config s).All Unfreed fun s' => Live s'.st.toSession := by
  obtain ⟨buf, hbuf⟩ := exists_inputBuf h
  rw [Ntripsrv.round]
  split
  · exact h
  · rw [hbuf]
    dsimp only
    split
    · exact h
    · next hne =>
      split
      · next hstate =>
        have hclear := h.clearRequest
          (hfilter hstate (by rw [hbuf]; exact fun heq => hne (Option.some.inj heq)))
        obtain ⟨buf', hbuf'⟩ := exists_inputBuf hclear
        exact readLine_all hbuf' hclear (fun _ _ _ => hclear.takeLine _ _)
          fun _ _ _ => (hclear.takeLine _ _).methodLine _
      · next hstate =>
        refine readLine_all hbuf h (fun _ _ _ => h.takeLine _ _) fun line rest hread =>
          (h.takeLine line rest).headerLine hspares fun s' hempty hprepare hlength => ?_
        obtain rfl := List.length_eq_zero_iff.mp hempty
        rw [nextRequest, hbuf, Option.bind_some, hstate, hread]
        dsimp only
        rw [hprepare]
        exact if_pos (decide_eq_true hlength)
      · rw [clientInput]
        split
        · exact h
        · dsimp only
          split <;> exact h.takeLine _ _
      · next hstate =>
        rw [clientContent]
        split
        · exact h
        · have htake : Live (takeContent s buf
              (min buf.length (s.st.contentLength - (s.st.content.getD []).length))).st.toSession :=
            ⟨(h.setInput _).input, (h.setInput _).inFilter⟩
          dsimp only
          split
          · next hlength =>
            refine endContent_answered.imp (fun f hf => hf.unfreed hspares ?_)
              fun _ => htake.answered
            rw [nextRequest, hbuf, Option.bind_some, hstate]
            exact if_pos hlength
          · exact htake
      · rw [streamSource]
        split
        · exact h.state _
        · split
          · exact ⟨Fault.noConfusion, Fault.noConfusion⟩
          · exact ⟨(h.setInput _).input, (h.setInput _).inFilter⟩
      · exact h
      · exact h.state _

/-! ### Runs -/

/-- What a step must find: in a read, no request is started with the filter of an earlier one in
place; and without threads, no request or job drops the session that it comes from. -/
def InputKept (c : Caster W G) (s : Server W G) : Label W → Prop
  | .read config bytes =>
    ∀ s' ∈ visited c config (s.receive bytes), Unfiltered s' ∧ SparesItself c config s'
  | .job i => c.threads = true ∨ ∀ job ∈ s.jobs[i]?, job.contentCb ≠ .drop
  | _ => True

instance (s : Server W G) : (l : Label W) → Decidable (InputKept c s l)
  | .read config bytes => inferInstanceAs (Decidable
      (∀ s' ∈ visited c config (s.receive bytes), Unfiltered s' ∧ SparesItself c config s'))
  | .job i => inferInstanceAs (Decidable
      (c.threads = true ∨ ∀ job ∈ s.jobs[i]?, job.contentCb ≠ .drop))
  | .written => inferInstanceAs (Decidable True)
  | .hangup => inferInstanceAs (Decidable True)
  | .caster _ => inferInstanceAs (Decidable True)

/-- The input is live, or the session has ended. -/
def LiveOrEnded (s : Server W G) : Prop := s.st.state = .ntripEnd ∨ Live s.st.toSession

theorem Live.afterLoop (h : Live s.st.toSession) (l : Leave) : LiveOrEnded (afterLoop s l) := by
  obtain ⟨s', hs', heq | heq⟩ := afterLoop_answered s l
  · exact .inr (heq ▸ h.answered hs')
  · exact .inl (heq ▸ state_decrefEnd s')

theorem Live.ntripsrvReadcb (h : Live s.st.toSession)
    (hvisited : ∀ s' ∈ visited c config s, Unfiltered s' ∧ SparesItself c config s') :
    okAll Unfreed LiveOrEnded (ntripsrvReadcb c config s) :=
  ntripsrvReadcb_all (fun s => Live s.st.toSession) h.filterInput
    (fun _ hs hok => hs.round hok.1 hok.2) hvisited (fun _ l hs => hs.afterLoop l) fun s hs _ =>
      Live.afterLoop (s := s.setState .forceClose) (hs.state _) _

theorem LiveOrEnded.deferredOutput (h : LiveOrEnded s) {contentCb : ContentCb} {req : Request}
    (hspares : c.threads = true ∨ contentCb ≠ .drop) :
    okAll Unfreed LiveOrEnded (deferredOutput c s contentCb req) := by
  cases hcall : Ntripsrv.deferredOutput c s contentCb req with
  | error f =>
    obtain ⟨-, hthreads, hdrop, -⟩ := deferredOutput_fault hcall
    rcases hspares with hspares | hspares
    · rw [hthreads] at hspares
      contradiction
    · contradiction
  | ok s' =>
    obtain ⟨hend, w, rfl⟩ | ⟨-, -, -, w, rfl⟩ | ⟨hend, answer, -, rfl⟩ := deferredOutput_cases hcall
    · exact .inl hend
    · exact .inl (state_decrefEnd _)
    · exact .inr ((h.resolve_left hend).state _)

/-- **One step.** -/
theorem LiveOrEnded.step (h : LiveOrEnded s) {l : Label W} (hl : InputKept c s l) :
    okAll Unfreed LiveOrEnded (s.step c l) := by
  cases l with
  | read config bytes =>
    rw [Server.step]
    split
    · exact h
    · next hstate =>
      have hlive := h.resolve_left hstate
      exact Live.ntripsrvReadcb (s := s.receive bytes) ⟨hlive.input, hlive.inFilter⟩ hl
  | job i =>
    rw [Server.step]
    split
    · exact h
    · next job hjob =>
      exact LiveOrEnded.deferredOutput (s := { s with jobs := s.jobs.eraseIdx i }) h
        (hl.imp_right fun hdrop => hdrop job hjob)
  | written =>
    rw [Server.step, okAll_ok]
    split
    · exact .inl (state_decrefEnd s)
    · exact h
  | hangup => exact .inl (state_decrefEnd s)
  | caster w => exact h

theorem live_accepted (peer : Peer) (w : W) (ipcount : HashTable ℤ) :
    LiveOrEnded (Server.accepted (G := G) peer w ipcount) :=
  .inr ⟨.inl rfl, by simp [Server.accepted, NtripState.new]⟩

/-- **The input of a server session is live.** On a connection on which no request is started with
the filter of an earlier one in place, and no request drops its own session without threads, the
input of a session that has not ended is the raw buffer or an allocated `chunk_buf`, the filter is
in place exactly when it is `chunk_buf`, and no step reads freed memory. -/
theorem reachable_live {peer : Peer} {w : W} {ipcount : HashTable ℤ}
    (hs : Transition.Reachable (· = Server.accepted peer w ipcount) (InputKept c)
      (Server.stepOk c) s) :
    (s.st.state ≠ .ntripEnd → Live s.st.toSession) ∧
      ∀ l f, InputKept c s l → s.step c l = .error f → f ≠ .freedBuffer ∧ f ≠ .freedSession := by
  have hinv : LiveOrEnded s := by
    refine hs.invariant ?_ fun s l s' hs hl hstep => ?_
    · rintro _ rfl
      exact live_accepted peer w ipcount
    · have h := hs.step hl
      rw [Server.stepOk] at hstep
      cases hok : s.step c l with
      | ok s₁ =>
        rw [hok] at h hstep
        obtain rfl := Option.some.inj hstep
        exact h
      | error f =>
        rw [hok] at hstep
        contradiction
  refine ⟨hinv.resolve_left, fun l f hl hf => ?_⟩
  have h := hinv.step hl
  rwa [hf] at h

/-- A chunked request with its body, and one more request. -/
def bodyWithRequest : List (Label Unit) :=
  [.read smallConfig (cstr "GET / HTTP/1.1\r\nConnection: keep-alive\r\n"),
    .read smallConfig (cstr "Transfer-Encoding: chunked\r\n\r\n0\r\n\r\n"),
    .read smallConfig (cstr "GET / HTTP/1.1\r\n\r\n")]

theorem reachable_live_bodyWithRequest : ∃ s : Server Unit Unit,
    Transition.Reachable (· = smallServer) (InputKept (smallCaster false))
      (Server.stepOk (smallCaster false)) s ∧
    s.log.length = 4 ∧ s.st.state = .waitClose ∧ Live s.st.toSession := by
  have hobserve : (bodyWithRequest.foldlM (fun s l =>
      if InputKept (smallCaster false) s l then Server.stepOk (smallCaster false) s l else none)
      smallServer).map (fun s => (s.log.length, s.st.state)) = some (4, .waitClose) := by
    decide +kernel
  obtain ⟨s, hrun, hs⟩ := Option.map_eq_some_iff.mp hobserve
  obtain ⟨hlog, hstate⟩ := Prod.mk.inj hs
  have hreach : Transition.Reachable (· = smallServer) (InputKept (smallCaster false))
      (Server.stepOk (smallCaster false)) s := Transition.reachable_of_foldlM (.refl rfl) hrun
  exact ⟨s, hreach, hlog, hstate, (reachable_live hreach).1 (by rw [hstate]; decide)⟩

/-- A chunked request, without its body. -/
def bodyAfterReply : List (Label Unit) :=
  [.read smallConfig (cstr "GET / HTTP/1.1\r\nConnection: keep-alive\r\n"),
    .read smallConfig (cstr "Transfer-Encoding: chunked\r\n\r\n")]

/-- **A freed buffer is read.** The request is answered before its body, and the first chunk is then
taken for a request line. -/
theorem readcb_reads_freed : ∃ s : Server Unit Unit,
    Transition.Reachable (· = smallServer) (fun _ _ => True) (Server.stepOk (smallCaster false)) s ∧
      s.step (smallCaster false) (.read smallConfig (cstr "1\r\nG\r\n")) =
        .error .freedBuffer := by
  have hobserve : (bodyAfterReply.foldlM (fun s l =>
      if True then Server.stepOk (smallCaster false) s l else none) smallServer).map
      (fun s => match s.step (smallCaster false) (.read smallConfig (cstr "1\r\nG\r\n")) with
        | .error f => some f
        | .ok _ => none) = some (some .freedBuffer) := by
    decide +kernel
  obtain ⟨s, hrun, hs⟩ := Option.map_eq_some_iff.mp hobserve
  refine ⟨s, Transition.reachable_of_foldlM (.refl rfl) hrun, ?_⟩
  split at hs
  · next f hf => rw [hf, Option.some.inj hs]
  · contradiction

end Ntripsrv

end ChilopodCaster
