import ChilopodCaster.ServerRound

/-!
# What a request leaves behind

`ntrip_clear_request` is called before each request, so that nothing of the last one is left. It
does not clear all that the headers of a request set: the version and the agent of the client, the
scheme of its credentials, its position, and the address a proxy forwards. If no header of the
earlier requests sets one of these, the fields that are not cleared are as the connection started
with, for as long as it is kept.

## Main definitions

* `leaks` — the header sets a field that is not cleared
* `Unchunked` — nothing is left of the filter once it is out
* `Kept` — the invariant of a connection none of whose headers leaks

## Main results

* `Kept.round`, `Kept.step` — rounds and steps that leak nothing
-/

namespace ChilopodCaster

namespace Ntripsrv

open ChunkDecode

variable {W G : Type} {c : Caster W G} {config : Config} {s s' : Server W G} {peer : Peer}

/-- The header leaves something in the session that `ntrip_clear_request` does not clear. -/
def leaks (c : Caster W G) (config : Config) (peer : Peer) (header : Header) : Bool :=
  match header.kind with
  | .ntripVersion => !strcasecmp header.value (cstr "ntrip/2.0")
  | .agent => mystrcasestr header.value (cstr "ntrip")
  | .authorization => (httpDecodeAuth header.value).any (·.schemeBasic)
  | .ntripGga => (c.parseGga header.value).isSome
  | .forwarded => trusts config peer && (ipConvert (lastForwarded header.value)).isSome
  | _ => false

/-! ### The filter -/

/-- When the filter is out, nothing of it is left; the length of the last chunk is 0. -/
structure Unchunked (st : Session) : Prop where
  out : st.inFilter = false → st.chunkBuf = none ∧ st.chunkLen = 0 ∧ st.input = .rawInput
  last : st.inFilter = true → st.input = .chunkBuf ∧ (st.chunkState = .chunkLast → st.chunkLen = 0)

/-- Decoding keeps to this, and only the end of the chunks takes the filter out. -/
theorem Unchunked.decoded {st : Session} (h : Unchunked st) (hfilter : st.inFilter = true)
    {r : FilterResult × Session} (hdecode : ntripChunkDecode st = some r) :
    Unchunked r.2 ∧ (r.1 = .bevNeedMore → r.2.inFilter = true) := by
  refine Loop.run_of_keeps (fun s => s.1.inFilter = true ∧ Unchunked s.1)
    (fun r => Unchunked r.2 ∧ (r.1 = .bevNeedMore → r.2.inFilter = true)) ?_ ⟨hfilter, h⟩ hdecode
  rintro ⟨st, lenDone⟩ ⟨hfilter, h⟩
  obtain ⟨hinput, hlast⟩ := h.last hfilter
  have hkeep (rest : List Byte) (chunkState : ChunkState) (chunkLen : ℕ) (state : SessionState)
      (hlen : chunkState = .chunkLast → chunkLen = 0) : Unchunked { st with
        rawInput := rest
        chunkState := chunkState
        chunkLen := chunkLen
        state := state } :=
    ⟨fun hout => by rw [hfilter] at hout; contradiction, fun _ => ⟨hinput, hlen⟩⟩
  rw [Loop.Keeps, ntripChunkDecodeRound]
  dsimp only at hfilter h ⊢
  by_cases hraw : st.rawInput.length = 0
  · rw [if_pos hraw]
    exact ⟨h, fun _ => hfilter⟩
  · rw [if_neg hraw]
    cases hstate : st.chunkState with
    | chunkWaitLen =>
      dsimp only
      cases evbufferReadlnCrlfStrict st.rawInput with
      | none => exact ⟨h, fun _ => hfilter⟩
      | some lr =>
        dsimp only
        cases sscanfZx (cutSizeLine lr.1) with
        | none =>
          by_cases h0 : lenDone = 0
          · simp only [h0, if_true]
            exact ⟨hkeep _ _ _ _ fun h => by contradiction, fun _ => hfilter⟩
          · simp only [h0, if_false]
            exact ⟨hkeep _ _ _ _ fun h => by contradiction, fun _ => hfilter⟩
        | some chunkLen =>
          refine ⟨hfilter, hkeep lr.2 _ chunkLen _ fun hlast => ?_⟩
          by_contra hne
          rw [if_neg hne] at hlast
          contradiction
    | chunkErr => exact ⟨hkeep _ _ _ _ fun h => by contradiction, fun _ => hfilter⟩
    | chunkInProgress =>
      dsimp only
      generalize hadd : Session.addInput _ _ = st₁
      obtain ⟨hfilter₁, hinput₁⟩ : st₁.inFilter = true ∧ st₁.input = .chunkBuf := by
        rw [← hadd, Session.addInput]
        split <;> exact ⟨hfilter, hinput⟩
      refine ⟨hfilter₁, fun hout => ?_, fun _ => ⟨hinput₁, fun hlast => ?_⟩⟩
      · rw [hfilter₁] at hout
        contradiction
      · dsimp only at hlast
        split at hlast <;> split at hlast <;> contradiction
    | chunkWaitingTrailer =>
      by_cases h2 : st.rawInput.length < 2
      · simp only [h2, if_true]
        exact ⟨h, fun _ => hfilter⟩
      · simp only [h2, if_false]
        exact ⟨hfilter, hkeep _ _ _ _ fun h => by contradiction⟩
    | chunkLast =>
      by_cases h2 : st.rawInput.length < 2
      · simp only [h2, if_true]
        exact ⟨h, fun _ => hfilter⟩
      · simp only [h2, if_false]
        exact ⟨⟨fun _ => ⟨rfl, hlast hstate, rfl⟩, fun h => by contradiction⟩,
          FilterResult.noConfusion⟩
    | chunkEnd => exact ⟨h, fun _ => hfilter⟩
    | chunkNone => exact ⟨hfilter, h⟩
    | chunkInit => exact ⟨hfilter, h⟩

theorem Unchunked.decode {st : Session} (h : Unchunked st) (hfilter : st.inFilter = true)
    {r : FilterResult × Session} (hdecode : ntripChunkDecode st = some r) : Unchunked r.2 :=
  (h.decoded hfilter hdecode).1

theorem Unchunked.init {st : Session} {r : Option FilterResult × Session}
    (h : ntripChunkDecodeInit st = some r) : Unchunked r.2 := by
  have hinit : Unchunked { st with
      chunkBuf := some (st.chunkBuf.getD [])
      inFilter := true
      chunkState := .chunkWaitLen
      input := .chunkBuf } :=
    ⟨fun h => by contradiction, fun _ => ⟨rfl, fun h => by contradiction⟩⟩
  rw [ntripChunkDecodeInit] at h
  dsimp only at h
  split at h
  · obtain ⟨r', hdecode, rfl⟩ := Option.map_eq_some_iff.mp h
    exact hinit.decode rfl hdecode
  · obtain rfl := Option.some.inj h
    exact hinit

theorem Unchunked.decrefEnd {st : Session} (h : Unchunked st) : Unchunked (ntripDecrefEnd st) := by
  rw [ntripDecrefEnd]
  split
  · exact h
  · split
    · next hbuf =>
      have hfilter : st.inFilter = true := by
        by_contra hout
        rw [(h.out (Bool.eq_false_iff.mpr hout)).1] at hbuf
        contradiction
      exact ⟨fun hout => absurd hfilter (by rw [hout]; decide),
        fun _ => ⟨(h.last hfilter).1, fun h => by contradiction⟩⟩
    · exact ⟨h.out, h.last⟩

theorem Unchunked.filterInput (h : Unchunked s.st.toSession) :
    okAll (fun _ => True) (fun r => Unchunked r.1.st.toSession) (filterInput s) := by
  rw [Ntripsrv.filterInput, ntripFilterRunInput]
  by_cases hfilter : s.st.inFilter = true
  · rw [if_pos hfilter]
    cases hdecode : ntripChunkDecode s.st.toSession with
    | none => trivial
    | some r =>
      have hr := h.decode hfilter hdecode
      obtain ⟨answer, session⟩ := r
      cases answer with
      | bevOk => exact hr
      | bevNeedMore => exact hr
      | bevError => exact hr.decrefEnd
  · rw [if_neg hfilter]
    exact h

/-- Input is taken off, which leaves the filter alone. -/
theorem Unchunked.setInput {st : NtripState G} (h : Unchunked st.toSession) (rest : List Byte) :
    Unchunked (st.setInput rest).toSession := by
  rw [NtripState.setInput]
  split
  · exact ⟨h.out, h.last⟩
  · next hinput =>
    refine ⟨fun hout => ?_, h.last⟩
    rw [(h.out hout).2.2] at hinput
    contradiction

/-! ### Answers that keep the connection -/

/-- Nothing that a request sets and that is not cleared has been set. -/
structure Calm (st : NtripState G) : Prop where
  connectionKeepalive : st.connectionKeepalive = true
  clientVersion : st.clientVersion = 0
  lastPos : st.lastPos = none
  sourceVirtual : st.sourceVirtual = false
  notInput : st.state ≠ .waitClientInput

/-- After an answer, with the error: the session is calm, or it is past its requests, once the error
has been replied to. -/
def CalmEnd (s : Server W G) (err : ℕ) : Prop :=
  Calm s.st ∨ s.st.connectionKeepalive = false ∧ (err = 0 → Streaming s.st)

theorem Calm.setState (h : Calm s.st) {state : SessionState} (hstate : state ≠ .waitClientInput) :
    Calm (s.setState state).st :=
  ⟨h.connectionKeepalive, h.clientVersion, h.lastPos, h.sourceVirtual, hstate⟩

theorem Calm.forceHttp (h : Calm s.st) : Calm s.forceHttp.st :=
  ⟨h.connectionKeepalive, rfl, h.lastPos, h.sourceVirtual, h.notInput⟩

theorem Calm.sendResultOk (h : Calm s.st) (mimeType : Option CString) (m : Option Content) :
    Calm (sendResultOk s mimeType m).st := by
  unfold Ntripsrv.sendResultOk
  split <;> exact h

theorem Calm.sendSourcetable (h : Calm s.st) : Calm (sendSourcetable c s).1.st := by
  rw [Ntripsrv.sendSourcetable]
  split <;> exact h

theorem Calm.deferredOutput (h : Calm s.st) {contentCb : ContentCb} {req : Request}
    (hcall : deferredOutput c s contentCb req = .ok s') : Calm s'.st := by
  obtain ⟨-, w, rfl⟩ | ⟨-, -, -, w, rfl⟩ | ⟨-, answer, -, rfl⟩ := deferredOutput_cases hcall
  · exact h
  · exact ⟨h.connectionKeepalive, h.clientVersion, h.lastPos, h.sourceVirtual, by
      rw [state_decrefEnd]; decide⟩
  · refine Calm.setState (s := sendServerReply { s with w := answer.w } answer.status [] none
      answer.m) h ?_
    rw [afterReply]
    split <;> decide

theorem Plan.run_calm (plan : Plan) (h : Calm s.st) :
    okAll (fun _ => True) (fun h => Calm h.s.st) (plan.run c s) := by
  have hcall (contentCb : ContentCb) (req : Request) :
      okAll (fun _ => True) (fun s' => Calm s'.st)
        (deferredOutput c s.forceHttp contentCb req) := by
    cases hok : deferredOutput c s.forceHttp contentCb req with
    | error f => trivial
    | ok s' => exact h.forceHttp.deferredOutput hok
  cases plan with
  | fail plain err headers herr =>
    rw [Plan.run, okAll_ok]
    split
    · exact h.forceHttp
    · exact h
  | page m => exact (h.forceHttp.sendResultOk none (some m)).setState (by decide)
  | noMemory => exact h.forceHttp
  | call contentCb req =>
    rw [Plan.run, okAll_map, appendContent]
    split
    · exact h.forceHttp
    · exact hcall contentCb req
  | sync req => exact okAll_map.mpr (hcall .sync req)

theorem Calm.admsrv (h : Calm s.st) (method rootUri uri : CString) :
    okAll (fun _ => True) (fun h => Calm h.s.st) (admsrv c config s method rootUri uri) := by
  obtain ⟨plan, hrun⟩ := exists_admsrv_eq_run c config s method rootUri uri
  rw [hrun]
  exact plan.run_calm h

theorem Calm.getSourcetable (h : Calm s.st) : (getSourcetable c s).Ends CalmEnd := by
  have hsend : Calm (Ntripsrv.sendSourcetable c s).1.st := h.sendSourcetable
  rw [Ntripsrv.getSourcetable]
  dsimp only
  split
  · refine ends_goOn.mpr (.inl (hsend.setState ?_))
    split <;> decide
  · exact .inl (hsend.setState (by decide))

theorem startStream_streaming (s : Server W G) (mountpoint : CString) (virtual : Bool) :
    Streaming (startStream s mountpoint virtual).st := by
  have hkeepalive : (Ntripsrv.sendResultOk { s with st := { s.st with
      connectionKeepalive := false
      sourceVirtual := virtual
      mountpoint := some mountpoint } } (some (cstr "gnss/data")) none).st.connectionKeepalive =
      false := by
    unfold Ntripsrv.sendResultOk
    split <;> rfl
  rw [startStream]
  dsimp only
  split <;> exact streaming_of_state hkeepalive (.inl rfl)

theorem Calm.getMountpoint (h : Calm s.st) (mountpoint : CString) :
    (getMountpoint c s mountpoint).Ends CalmEnd := by
  rw [Ntripsrv.getMountpoint]
  dsimp only
  generalize (if (c.stackFindMountpoint s.w mountpoint).all (!·.virtual) = true then _
    else _ : Bool × W) = r
  have hsubscribe : Calm (if r.1 = true then
      Server.record { s with w := r.2 } (.subscribe mountpoint) else { s with w := r.2 }).st := by
    split <;> exact h
  generalize (if r.1 = true then _ else _ : Server W G) = s₁ at hsubscribe ⊢
  have hnew : ¬ s₁.st.clientVersion = 1 := by rw [hsubscribe.clientVersion]; decide
  have hstart (s : Server W G) (virtual : Bool) : CalmEnd (startStream s mountpoint virtual) 0 :=
    .inr ⟨(startStream_streaming s mountpoint virtual).connectionKeepalive,
      fun _ => startStream_streaming s mountpoint virtual⟩
  split
  · split
    · exact hstart s₁ false
    · exact .inr ⟨rfl, fun h => by contradiction⟩
  · split
    · exact hstart _ _
    · exact .inr ⟨rfl, fun h => by contradiction⟩

theorem sourceRequest_calm {mountpoint password : CString} {user : Option CString}
    (h : s.st.connectionKeepalive = false) :
    (sourceRequest c config s mountpoint user password).Ends CalmEnd := by
  have hgone {s' : Server W G} {err : ℕ} (hs' : s'.st.connectionKeepalive = false)
      (herr : err ≠ 0) : CalmEnd s' err := .inr ⟨hs', fun h => absurd h herr⟩
  rw [sourceRequest]
  dsimp only
  split
  · exact hgone h (by decide)
  · split
    · exact hgone h (by decide)
    · split
      · exact hgone h (by decide)
      · split
        · exact hgone h (by decide)
        · split
          · exact hgone h (by decide)
          · have hstreaming (s' : Server W G) (hs' : s'.st.connectionKeepalive = false) :
                CalmEnd (s'.setState .waitStreamSource) 0 :=
              .inr ⟨hs', fun _ => streaming_of_state hs' (.inr (.inl rfl))⟩
            refine hstreaming _ ?_
            split
            · exact h
            · unfold Ntripsrv.sendResultOk
              split <;> exact h

theorem Calm.postRequest (h : Calm s.st) (uri : CString) :
    (postRequest c config s uri).Ends CalmEnd := by
  rw [Ntripsrv.postRequest]
  split
  · split
    · have hadm : okAll _ (fun h => Calm h.s.st) (Ntripsrv.admsrv c config s (cstr "POST")
        (cstr "/adm") (uri.drop 4)) := h.admsrv _ _ _
      split
      · trivial
      · next hok =>
        rw [hok] at hadm
        exact ends_goOn.mpr (.inl (hadm.setState (by decide)))
    · exact .inl (h.setState (by decide))
  · split
    · exact .inl h
    · dsimp only
      split
      · exact .inr ⟨rfl, fun h => by contradiction⟩
      · split
        · exact sourceRequest_calm rfl
        · exact .inr ⟨rfl, fun h => by contradiction⟩

/-- **A request of a calm session**, to whoever answers it. -/
theorem Calm.dispatch (h : Calm s.st) : (dispatch c config s).Ends CalmEnd := by
  rw [Ntripsrv.dispatch]
  split
  · next uri version _ =>
    split
    · rw [getRequest]
      split
      · exact .inl h
      · split
        · have hadm : okAll _ (fun h => Calm h.s.st) (Ntripsrv.admsrv c config s (cstr "GET")
            (cstr "/adm") (uri.drop 4)) := h.admsrv _ _ _
          split
          · trivial
          · next hok =>
            rw [hok] at hadm
            exact .inl hadm
        · split
          · next hfile =>
            obtain ⟨plan, hrun⟩ := exists_run_eq_filesrv c config s hfile
            have hcalm : okAll _ (fun h => Calm h.s.st) (plan.run c s) := plan.run_calm h
            rw [hrun] at hcalm
            exact .inl hcalm
          · dsimp only
            split
            · exact h.getSourcetable
            · split
              · exact .inl h
              · exact h.getMountpoint _
    · split
      · exact h.postRequest uri
      · split
        · rw [oldSourceRequest]
          split
          · exact .inl h
          · exact sourceRequest_calm rfl
        · exact .inl h
  · exact .inl h

theorem Calm.endContent (h : Calm s.st) : (endContent c config s).Ends CalmEnd := by
  rw [Ntripsrv.endContent]
  split
  · next method uri _ _ =>
    split
    · have hadm : okAll _ (fun h => Calm h.s.st) (Ntripsrv.admsrv c config
          (s.record (.content (s.st.content.getD []))) method (cstr "/adm") (uri.drop 4)) :=
        Calm.admsrv (s := s.record (.content (s.st.content.getD []))) h _ _ _
      split
      · trivial
      · next hok =>
        rw [hok] at hadm
        exact ends_goOn.mpr (.inl (hadm.setState (by decide)))
    · exact .inl (Calm.setState (s := s.record _) h (by decide))
  · exact .inl (Calm.setState (s := s.record _) h (by decide))

/-! ### Rounds -/

theorem Calm.congr {st st' : NtripState G} (h : Calm st)
    (hkeepalive : st'.connectionKeepalive = st.connectionKeepalive)
    (hversion : st'.clientVersion = st.clientVersion) (hpos : st'.lastPos = st.lastPos)
    (hvirtual : st'.sourceVirtual = st.sourceVirtual) (hstate : st'.state ≠ .waitClientInput) :
    Calm st' :=
  ⟨hkeepalive.trans h.connectionKeepalive, hversion.trans h.clientVersion, hpos.trans h.lastPos,
    hvirtual.trans h.sourceVirtual, hstate⟩

theorem Calm.took (h : Calm s.st) (hs' : Took s s') : Calm s'.st := by
  rw [hs']
  exact h.congr rfl rfl rfl rfl h.notInput

/-- What a header sets if it leaks nothing: all of it is cleared before the next request. -/
theorem setHeader_of_not_leaks {st : NtripState G} (hbasic : st.schemeBasic = false)
    {header : Header} (hleak : leaks c config peer header = false) :
    ∃ chunkState receivedKeepalive contentLength contentType user password,
      (setHeader c config st header.value header.kind).1 = { st with
        chunkState := chunkState
        receivedKeepalive := receivedKeepalive
        contentLength := contentLength
        contentType := contentType
        user := user
        password := password } := by
  obtain ⟨kind, key, value⟩ := header
  have hsame : ∃ chunkState receivedKeepalive contentLength contentType user password,
      st = { st with
        chunkState := chunkState
        receivedKeepalive := receivedKeepalive
        contentLength := contentLength
        contentType := contentType
        user := user
        password := password } := ⟨_, _, _, _, _, _, rfl⟩
  cases kind with
  | transferEncoding =>
    rw [setHeader]
    dsimp only
    split
    · exact ⟨_, _, _, _, _, _, rfl⟩
    · exact hsame
  | connection =>
    rw [setHeader]
    dsimp only
    split
    · exact ⟨_, _, _, _, _, _, rfl⟩
    · exact hsame
  | contentLength =>
    rw [setHeader]
    dsimp only
    split
    · split
      · exact hsame
      · exact ⟨_, _, _, _, _, _, rfl⟩
    · exact hsame
  | contentType => exact ⟨_, _, _, _, _, _, rfl⟩
  | ntripVersion =>
    rw [setHeader, show (!strcasecmp value (cstr "ntrip/2.0")) = false from hleak]
    exact hsame
  | agent =>
    rw [setHeader, show mystrcasestr value (cstr "ntrip") = false from hleak]
    exact hsame
  | authorization =>
    rw [setHeader]
    cases hauth : httpDecodeAuth value with
    | none => exact hsame
    | some auth =>
      have hscheme : auth.schemeBasic = false := by
        rw [leaks, hauth] at hleak
        exact hleak
      dsimp only
      rw [hscheme, ← hbasic]
      exact ⟨_, _, _, _, _, _, rfl⟩
  | ntripGga =>
    rw [setHeader]
    cases hgga : c.parseGga value with
    | none => exact hsame
    | some pos =>
      rw [leaks, hgga] at hleak
      contradiction
  | host => exact hsame
  | forwarded => exact hsame
  | other => exact hsame

/-- What the requests before have left of the fields that are not cleared. -/
structure Settled (peer : Peer) (s : Server W G) : Prop where
  peer : s.st.peer = peer
  userAgentNtrip : s.st.userAgentNtrip = false
  schemeBasic : s.st.schemeBasic = false

/-- A header that leaks nothing. -/
theorem handleHeader_of_not_leaks {key value : CString} (h : Settled peer s)
    (hleak : leaks c config peer ⟨headerKind config key, key, value⟩ = false) :
    okAll (fun _ => True) (fun r => Settled peer r.1 ∧ (Calm s.st → Calm r.1.st))
      (handleHeader c config s key value) := by
  rw [handleHeader]
  dsimp only
  split
  · next hkind =>
    rw [leaks, hkind] at hleak
    rw [handleForwardedHeader, h.peer]
    split
    · exact ⟨h, id⟩
    · next htrusts =>
      rw [Bool.eq_true_of_not_eq_false htrusts, Bool.true_and] at hleak
      cases haddr : ipConvert (lastForwarded value) with
      | none => exact ⟨h, id⟩
      | some addr =>
        dsimp only at hleak
        rw [haddr] at hleak
        contradiction
  · obtain ⟨chunkState, receivedKeepalive, contentLength, contentType, user, password, hset⟩ :=
      setHeader_of_not_leaks h.schemeBasic hleak
    dsimp only at hset
    rw [okAll_ok]
    dsimp only
    rw [hset]
    exact ⟨⟨h.peer, h.userAgentNtrip, h.schemeBasic⟩, fun hcalm =>
      hcalm.congr rfl rfl rfl rfl hcalm.notInput⟩

theorem setHeader_toSession (st : NtripState G) (value : CString) (kind : HeaderKind) :
    (setHeader c config st value kind).1.toSession = st.toSession ∨
      (setHeader c config st value kind).1.toSession =
        { st.toSession with chunkState := .chunkInit } := by
  cases kind with
  | transferEncoding =>
    rw [setHeader]
    dsimp only
    split
    · exact .inr rfl
    · exact .inl rfl
  | connection => left; rw [setHeader]; split <;> rfl
  | contentLength =>
    left
    rw [setHeader]
    split
    · split <;> rfl
    · rfl
  | contentType => exact .inl rfl
  | ntripVersion => left; rw [setHeader]; split <;> rfl
  | agent => left; rw [setHeader]; split <;> rfl
  | authorization => left; rw [setHeader]; split <;> rfl
  | ntripGga => left; rw [setHeader]; split <;> rfl
  | host => exact .inl rfl
  | forwarded => exact .inl rfl
  | other => exact .inl rfl

theorem Unchunked.handleHeader (h : Unchunked s.st.toSession) {key value : CString} :
    okAll (fun _ => True) (fun r => Unchunked r.1.st.toSession)
      (handleHeader c config s key value) := by
  rw [Ntripsrv.handleHeader]
  dsimp only
  split
  · rw [handleForwardedHeader]
    split
    · exact h
    · split
      · exact h
      · split
        · trivial
        · exact h
  · rw [okAll_ok]
    dsimp only
    rcases setHeader_toSession (c := c) s.st value (headerKind config key) with hset | hset
    · rw [hset]
      exact h
    · rw [hset]
      exact ⟨h.out, fun hfilter => ⟨(h.last hfilter).1, fun h => by contradiction⟩⟩

theorem Unchunked.state {st : Session} (h : Unchunked st) (state : SessionState) :
    Unchunked { st with state := state } := ⟨h.out, h.last⟩

theorem Unchunked.answered (h : Unchunked s.st.toSession) (hs : Answered s s') :
    Unchunked s'.st.toSession := by
  rw [hs.toSession]
  exact h.state _

theorem Unchunked.takeLine (h : Unchunked s.st.toSession) (line rest : List Byte) :
    Unchunked (s.takeLine line rest).st.toSession :=
  ⟨(h.setInput rest).out, (h.setInput rest).last⟩

theorem Unchunked.prepare (h : Unchunked s.st.toSession) :
    okAll (fun _ => True) (fun s' => Unchunked s'.st.toSession) (prepare config s) := by
  rw [Ntripsrv.prepare]
  dsimp only
  split
  · trivial
  · next session hsession =>
    rw [okAll_ok, Server.record]
    dsimp only
    rw [cutQuery_toSession]
    dsimp only
    split at hsession
    · obtain ⟨r, hr, rfl⟩ := Option.map_eq_some_iff.mp hsession
      exact .init hr
    · obtain rfl := Option.some.inj hsession
      exact h

theorem Unchunked.headerLine (h : Unchunked s.st.toSession) (line : List Byte) :
    (headerLine c config s line).All (fun _ => True) fun s' => Unchunked s'.st.toSession :=
  headerLine_all (fun _ => (Unchunked.prepare h).mono fun _ hs =>
      dispatch_answered.imp (fun _ _ => trivial) fun _ => hs.answered) h
    fun key value _ => Unchunked.handleHeader (s := s.addHeader config key value) h

/-- The filter in a round. A request line that is waited for with the filter in place would be read
from a freed buffer. -/
theorem Unchunked.round (h : Unchunked s.st.toSession) :
    (round c config s).All (fun _ => True) fun s' => Unchunked s'.st.toSession := by
  rw [Ntripsrv.round]
  split
  · exact h
  · split
    · trivial
    · next buf hbuf =>
      split
      · exact h
      · split
        · by_cases hfilter : s.st.inFilter = true
          · have hfreed : s.clearRequest.st.inputBuf = none := by
              rw [NtripState.inputBuf]
              rw [show s.clearRequest.st.input = .chunkBuf from (h.last hfilter).1]
              rfl
            rw [readLine, hfreed]
            trivial
          · have hout := h.out (Bool.eq_false_iff.mpr hfilter)
            have hclear : Unchunked s.clearRequest.st.toSession :=
              ⟨fun _ => ⟨rfl, hout.2⟩, fun h => absurd h hfilter⟩
            have hraw : s.clearRequest.st.inputBuf = some s.st.rawInput := by
              rw [NtripState.inputBuf]
              rw [show s.clearRequest.st.input = .rawInput from hout.2.2]
              rfl
            refine readLine_all hraw hclear (fun _ _ _ => hclear.takeLine _ _) fun line rest _ => ?_
            have htake := hclear.takeLine line rest
            rw [methodLine]
            dsimp only
            split
            · exact htake
            · exact htake.state _
        · exact readLine_all hbuf h (fun _ _ _ => h.takeLine _ _)
            fun _ _ _ => (h.takeLine _ _).headerLine _
        · rw [clientInput]
          split
          · exact h
          · dsimp only
            split <;> exact h.takeLine _ _
        · rw [clientContent]
          split
          · exact h
          · have htake : Unchunked (takeContent s buf (min buf.length
                (s.st.contentLength - (s.st.content.getD []).length))).st.toSession :=
              ⟨(h.setInput _).out, (h.setInput _).last⟩
            dsimp only
            split
            · exact endContent_answered.imp (fun _ _ => trivial) fun _ => htake.answered
            · exact htake
        · rw [streamSource]
          split
          · exact h.state _
          · split
            · trivial
            · exact ⟨(h.setInput _).out, (h.setInput _).last⟩
        · exact h
        · exact h.state _

/-- What a round must find: a header that leaks nothing, if it reads one. -/
def LeaksNothing (c : Caster W G) (config : Config) (s : Server W G) : Prop :=
  ∀ header, nextHeader config s = some header → leaks c config s.st.peer header = false

theorem Settled.worked (h : Settled peer s) (hs : Worked s s') : Settled peer s' :=
  ⟨by rw [hs]; exact h.peer, by rw [hs]; exact h.userAgentNtrip, by rw [hs]; exact h.schemeBasic⟩

theorem Settled.round (h : Settled peer s) (hleak : LeaksNothing c config s) :
    (round c config s).All (fun _ => True) (Settled peer) := by
  refine round_all (fun _ => h.worked) (fun s' hs' => ?_)
    fun _ line rest key value hnext => ?_
  · exact ⟨by rw [hs']; exact h.peer, by rw [hs']; exact h.userAgentNtrip,
      by rw [hs']; exact h.schemeBasic⟩
  · have htake := h.worked (worked_takeLine s line rest)
    have hheader := hleak _ hnext
    rw [h.peer] at hheader
    exact (handleHeader_of_not_leaks (s := (s.takeLine line rest).addHeader config key value)
      ⟨htake.peer, htake.userAgentNtrip, htake.schemeBasic⟩ hheader).mono fun _ hr => hr.1

theorem state_moved {st st' : Session} (h : st.state ≠ .waitClientInput) (hmoved : Moved st st') :
    st'.state ≠ .waitClientInput := by
  cases hmoved with
  | parsed rest chunkState chunkLen state hrest hstate =>
    rcases hstate with rfl | rfl
    · exact h
    · exact SessionState.noConfusion
  | payload n chunkState chunkLen receivedBytes =>
    rw [Session.addInput]
    split <;> exact h
  | ended rest hrest => exact h

theorem state_ntripChunkDecodeInit {st : Session} (h : st.state ≠ .waitClientInput)
    {r : Option FilterResult × Session} (hinit : ntripChunkDecodeInit st = some r) :
    r.2.state ≠ .waitClientInput := by
  rw [ntripChunkDecodeInit] at hinit
  dsimp only at hinit
  split at hinit
  · obtain ⟨r', hdecode, rfl⟩ := Option.map_eq_some_iff.mp hinit
    exact ntripChunkDecode_keeps (fun st => st.state ≠ .waitClientInput)
      (fun _ _ => state_moved) (by exact h) hdecode
  · obtain rfl := Option.some.inj hinit
    exact h

theorem Calm.prepare (h : Calm s.st) :
    okAll (fun _ => True) (fun s' => Calm s'.st) (prepare config s) := by
  have hcut (st : NtripState G) (hst : Calm st) : Calm (cutQuery st) := by
    unfold cutQuery
    split
    · split <;> exact hst.congr rfl rfl rfl rfl hst.notInput
    · exact hst
  rw [Ntripsrv.prepare]
  dsimp only
  split
  · trivial
  · next session hsession =>
    refine hcut _ ⟨?_, h.clientVersion, h.lastPos, h.sourceVirtual, ?_⟩
    · simp [h.clientVersion, h.connectionKeepalive]
    · split at hsession
      · obtain ⟨r, hr, rfl⟩ := Option.map_eq_some_iff.mp hsession
        exact state_ntripChunkDecodeInit h.notInput hr
      · obtain rfl := Option.some.inj hsession
        exact h.notInput

/-- The end of the headers. -/
theorem Calm.endHeaders (h : Calm s.st) : (endHeaders c config s).Ends CalmEnd := by
  have hprepare : okAll (fun _ => True) (fun s' => Calm s'.st) (Ntripsrv.prepare config s) :=
    h.prepare
  rw [Ntripsrv.endHeaders]
  split
  · trivial
  · next hok =>
    rw [hok] at hprepare
    exact hprepare.dispatch

/-- **A round of a calm session.** -/
theorem Calm.round (h : Calm s.st) (hsettled : Settled peer s) (hleak : LeaksNothing c config s) :
    (round c config s).Ends CalmEnd := by
  rw [Ntripsrv.round]
  split
  · exact .inl h
  · split
    · trivial
    · next buf hbuf =>
      split
      · exact .inl h
      · split
        · have hclear : Calm s.clearRequest.st := h.congr rfl rfl rfl rfl h.notInput
          refine readLine_ends (fun _ _ => .inl hclear)
            (fun line rest => .inl (hclear.took (took_takeLine _ line rest)))
            fun _ line rest _ _ => ?_
          have htake := hclear.took (took_takeLine _ line rest)
          rw [methodLine]
          dsimp only
          split
          · exact .inl (htake.congr rfl rfl rfl rfl htake.notInput)
          · exact .inl (htake.congr rfl rfl rfl rfl (by simp))
        · next hstate =>
          refine readLine_ends (fun _ _ => .inl h)
            (fun line rest => .inl (h.took (took_takeLine _ line rest)))
            fun buf line rest hbuf hread => ?_
          have htake := h.took (took_takeLine s line rest)
          rw [headerLine]
          split
          · exact htake.endHeaders
          · split
            · exact .inl htake
            · next key value hparse =>
              have hheader := hleak _ (nextHeader_eq hstate hbuf hread hparse)
              rw [hsettled.peer] at hheader
              have hsettled' := hsettled.worked (worked_takeLine s line rest)
              have hcalm := handleHeader_of_not_leaks (s := (s.takeLine line rest).addHeader config
                key value) ⟨hsettled'.peer, hsettled'.userAgentNtrip, hsettled'.schemeBasic⟩ hheader
              split
              · trivial
              · next hok =>
                rw [hok] at hcalm
                exact ends_goOn.mpr (.inl (hcalm.2 (htake.congr rfl rfl rfl rfl htake.notInput)))
        · next hstate => exact absurd hstate h.notInput
        · rw [clientContent]
          split
          · exact .inl h
          · have htake := h.took (took_takeContent s buf (min buf.length
              (s.st.contentLength - (s.st.content.getD []).length)))
            dsimp only
            split
            · exact htake.endContent
            · exact .inl htake
        · rw [streamSource]
          split
          · exact .inl (h.setState (by decide))
          · split
            · trivial
            · exact .inl (h.took (took_setInput s _ _))
        · exact .inl h
        · exact .inl (h.setState (by decide))

/-! ### Steps -/

/-- The invariant: the fields that are not cleared are as the connection started with, at least as
long as it is kept. -/
structure Kept (peer : Peer) (s : Server W G) : Prop where
  settled : Settled peer s
  unchunked : Unchunked s.st.toSession
  calm : Calm s.st ∨ Streaming s.st

/-- **One round** that leaks nothing. -/
theorem Kept.round (h : Kept peer s) (hleak : LeaksNothing c config s) :
    (round c config s).Ends fun s' err =>
      Settled peer s' ∧ Unchunked s'.st.toSession ∧ CalmEnd s' err := by
  have hsettled : (Ntripsrv.round c config s).All _ (Settled peer) := h.settled.round hleak
  have hunchunked : (Ntripsrv.round c config s).All (fun _ => True) fun s' =>
    Unchunked s'.st.toSession := h.unchunked.round
  have hcalm : (Ntripsrv.round c config s).Ends CalmEnd := by
    rcases h.calm with hcalm | hstreaming
    · exact hcalm.round h.settled hleak
    · exact hstreaming.round.ends fun s' err hs' => .inr ⟨hs'.connectionKeepalive, fun _ => hs'⟩
  exact hcalm.and_all (hsettled.and hunchunked) fun s' err hs' hs => ⟨hs.1, hs.2, hs'⟩

/-- After the loop, the error has been replied to. -/
theorem CalmEnd.afterLoop {l : Leave} (h : CalmEnd s l.err) :
    Calm (afterLoop s l).st ∨ Streaming (afterLoop s l).st := by
  obtain ⟨herr, -, heq⟩ | ⟨herr, -, heq⟩ | ⟨-, heq⟩ := afterLoop_cases s l
  · rw [heq]
    exact h.imp_right fun h => h.2 herr
  · rw [heq]
    refine h.imp (fun h => h.congr rfl rfl rfl rfl ?_) fun h => (h.2 herr).decrefEnd
    rw [state_decrefEnd]
    decide
  · rw [heq, replyError_eq]
    exact h.imp (fun h => h.congr rfl rfl rfl rfl SessionState.noConfusion)
      fun h => streaming_of_state h.1 (.inr (.inr rfl))

theorem Kept.afterLoop {l : Leave} (hsettled : Settled peer s)
    (hunchunked : Unchunked s.st.toSession) (hcalm : CalmEnd s l.err) :
    Kept peer (afterLoop s l) := by
  refine ⟨hsettled.worked (afterLoop_worked s l), ?_, hcalm.afterLoop⟩
  obtain ⟨s', hs', heq | heq⟩ := afterLoop_answered s l
  · rw [heq]
    exact hunchunked.answered hs'
  · rw [heq]
    exact (hunchunked.answered hs').decrefEnd

theorem Calm.filterInput (h : Calm s.st) :
    okAll (fun _ => True) (fun r => Calm r.1.st) (filterInput s) := by
  refine (filterInput_all (fun st => st.state ≠ .waitClientInput) (fun st st' => state_moved)
     h.notInput).imp (fun _ _ => trivial) ?_
  rintro ⟨s', goesOn⟩ ⟨session, rfl, -, hstate⟩
  refine h.congr rfl rfl rfl rfl ?_
  rcases hstate with hstate | hstate
  · dsimp only
    rw [hstate]
    decide
  · exact hstate

/-- The input filter. -/
theorem Kept.filterInput (h : Kept peer s) :
    okAll (fun _ => True) (fun r => Kept peer r.1) (filterInput s) := by
  have hworked : okAll (fun _ => True) (fun r => Worked s r.1) (Ntripsrv.filterInput s) :=
    filterInput_worked
  have hunchunked : okAll (fun _ => True) (fun r => Unchunked r.1.st.toSession)
    (Ntripsrv.filterInput s) := h.unchunked.filterInput
  have hcalm : okAll (fun _ => True) (fun r => Calm r.1.st ∨ Streaming r.1.st)
      (Ntripsrv.filterInput s) := by
    rcases h.calm with hcalm | hstreaming
    · exact hcalm.filterInput.mono fun _ => .inl
    · exact hstreaming.filterInput.mono fun _ => .inr
  cases hfilter : Ntripsrv.filterInput s with
  | error f => trivial
  | ok r =>
    rw [hfilter] at hworked hunchunked hcalm
    exact ⟨h.settled.worked hworked, hunchunked, hcalm⟩

theorem Unchunked.deferredOutput (h : Unchunked s.st.toSession) {contentCb : ContentCb}
    {req : Request} (hcall : deferredOutput c s contentCb req = .ok s') :
    Unchunked s'.st.toSession := by
  obtain ⟨-, w, rfl⟩ | ⟨-, -, -, w, rfl⟩ | ⟨-, answer, -, rfl⟩ := deferredOutput_cases hcall
  · exact h
  · exact h.decrefEnd
  · exact h.state _

/-- What a step must find: no header that leaks, if it is a read. -/
def KeepsClean (c : Caster W G) (s : Server W G) : Label W → Prop
  | .read config bytes => ∀ s' ∈ visited c config (s.receive bytes), LeaksNothing c config s'
  | _ => True

theorem Kept.receive (h : Kept peer s) (bytes : List Byte) : Kept peer (s.receive bytes) :=
  ⟨h.settled.worked (worked_receive s bytes), ⟨h.unchunked.out, h.unchunked.last⟩,
    h.calm.imp (fun h => h.congr rfl rfl rfl rfl h.notInput) fun h => h.congr rfl (.inl rfl)⟩

/-- **One step** that leaks nothing. -/
theorem Kept.step (h : Kept peer s) {l : Label W} (hl : KeepsClean c s l) :
    okAll (fun _ => True) (Kept peer) (s.step c l) := by
  have hend : Kept peer (decrefEnd s) := by
    refine ⟨h.settled.worked (worked_decrefEnd s), h.unchunked.decrefEnd, ?_⟩
    refine h.calm.imp (fun h => h.congr rfl rfl rfl rfl ?_) fun h => h.decrefEnd
    rw [state_decrefEnd]
    decide
  cases l with
  | read config bytes =>
    rw [Server.step]
    split
    · exact h
    · refine ntripsrvReadcb_parts (Kept peer) ((h.receive bytes).filterInput.mono fun r hr =>
        ⟨fun _ => hr, fun _ => hr⟩) (fun s hs hleak => (hs.round hleak).parts fun s hs =>
          ⟨hs.1, hs.2.1, hs.2.2.imp_right fun h => h.2 rfl⟩) hl
        (fun s l hs => .afterLoop hs.1 hs.2.1 hs.2.2) fun s hs _ => ?_
      refine .afterLoop (hs.settled.worked (answered_setState s _).worked) (hs.unchunked.state _) ?_
      exact hs.calm.imp (fun h => h.setState (by decide)) fun h =>
        ⟨h.connectionKeepalive, fun _ => h.close⟩
  | job i =>
    rw [Server.step]
    split
    · exact h
    · next job hjob =>
      cases hcall : deferredOutput c { s with jobs := s.jobs.eraseIdx i } job.contentCb job.req with
      | error f => trivial
      | ok s' =>
        have hjobs : Worked s { s with jobs := s.jobs.eraseIdx i } := rfl
        exact ⟨(h.settled.worked hjobs).worked (deferredOutput_worked hcall),
          Unchunked.deferredOutput (s := { s with jobs := s.jobs.eraseIdx i }) h.unchunked hcall,
          h.calm.imp
            (fun h => Calm.deferredOutput (s := { s with jobs := s.jobs.eraseIdx i }) h hcall)
            fun h => Streaming.deferredOutput (s := { s with jobs := s.jobs.eraseIdx i }) h hcall⟩
  | written =>
    rw [Server.step, okAll_ok]
    split
    · exact hend
    · exact h
  | hangup => exact hend
  | caster w => exact ⟨h.settled.worked rfl, h.unchunked, h.calm⟩

theorem kept_accepted (peer : Peer) (w : W) (ipcount : HashTable ℤ) :
    Kept peer (Server.accepted (G := G) peer w ipcount) where
  settled := ⟨rfl, rfl, rfl⟩
  unchunked := ⟨fun _ => ⟨rfl, rfl, rfl⟩, fun h => by contradiction⟩
  calm := .inl ⟨rfl, rfl, rfl, rfl, SessionState.noConfusion⟩

end Ntripsrv

end ChilopodCaster
